import CcInfer.Base.JsonDump
import CcInfer.Proofs.Tokenizer.Decoding

/-!
# `CcInfer.Proofs.Tokenizer.SpecialText`: special tokens in decoded text

The content of a special token is text, not a string of byte-map characters, but `decode`
appends it to the same stream and reads it like the rest. A character that the byte map does not
have comes out as it is, and so does an ASCII character, which stands for itself in the map. A
longer character of the map does not: it comes out as one byte.
-/

set_option autoImplicit false

namespace CcInfer

open ByteLevelBpeTokenizer (charLength)

/-! ### Characters -/

/-- The UTF-8 bytes of a string of characters. -/
def utf8 (chars : List Char) : Bytes := chars.flatMap String.utf8EncodeChar

/-- The characters of the byte map that take two bytes of UTF-8. -/
def Remapped (c : Char) : Prop := 161 ≤ c.toNat ∧ c.toNat ≤ 323 ∧ c.toNat ≠ 173

instance (c : Char) : Decidable (Remapped c) := inferInstanceAs (Decidable (_ ∧ _ ∧ _))

/-- The length that a first byte stands for. -/
theorem charLength_ofNat : ∀ n < 256, charLength (.ofNat n) = if n < 128 then some 1
    else if n < 192 then none else if n < 224 then some 2 else if n < 240 then some 3
    else if n < 248 then some 4 else none := by
  decide +kernel

/-- The first byte of an encoded character says how long it is. -/
theorem charLength_utf8EncodeChar (c : Char) :
    ∃ b rest, String.utf8EncodeChar c = b :: rest ∧ charLength b = some (b :: rest).length := by
  unfold String.utf8EncodeChar
  simp only
  split
  · refine ⟨_, [], rfl, ?_⟩
    rw [charLength_ofNat _ (by omega), if_pos (by omega)]
    rfl
  · split
    · refine ⟨_, [_], rfl, ?_⟩
      rw [charLength_ofNat _ (by omega), if_neg (by omega), if_neg (by omega), if_pos (by omega)]
      rfl
    · split
      · refine ⟨_, [_, _], rfl, ?_⟩
        rw [charLength_ofNat _ (by omega), if_neg (by omega), if_neg (by omega),
          if_neg (by omega), if_pos (by omega)]
        rfl
      · refine ⟨_, [_, _, _], rfl, ?_⟩
        rw [charLength_ofNat _ (by omega), if_neg (by omega), if_neg (by omega),
          if_neg (by omega), if_neg (by omega), if_pos (by omega)]
        rfl

/-- The code points of the byte map. -/
theorem mem_codepoints : ∀ cp < 512, (cp ∈ (keptBytes ++ movedBytes).map Prod.snd ↔
    33 ≤ cp ∧ cp ≤ 126 ∨ 161 ≤ cp ∧ cp ≤ 323 ∧ cp ≠ 173) := by
  intro cp _
  -- the kept bytes stand for themselves, the moved ones are numbered from 256 on
  have hranges : (keptBytes ++ movedBytes).map Prod.snd =
      List.range' 33 94 ++ List.range' 161 12 ++ List.range' 174 82 ++ List.range' 256 68 := by
    decide +kernel
  rw [hranges]
  simp only [List.mem_append, List.mem_range'_1]
  omega

theorem utf8FromCodepoint_length : ∀ cp < 512, (utf8FromCodepoint cp).length ≤ 2 := by
  decide +kernel

/-- `utf8_from_codepoint` is UTF-8 where the byte map uses it. -/
theorem utf8EncodeChar_eq {c : Char} (h : c.toNat < 512) :
    String.utf8EncodeChar c = utf8FromCodepoint c.toNat := by
  have hall : ∀ v < 512,
      (if v ≤ 127 then [UInt8.ofNat v]
        else [UInt8.ofNat (v / 64 % 32 + 192), UInt8.ofNat (v % 64 + 128)]) =
        utf8FromCodepoint v := by
    decide +kernel
  have hsmall : c.val.toNat ≤ 2047 := by
    show c.toNat ≤ 2047
    omega
  rw [← hall c.toNat h, String.utf8EncodeChar]
  simp only [if_pos hsmall]
  rfl

/-- A character of the byte map has its code point there. -/
theorem strToByte_some {c : Char} {b : UInt8} (h : strToByte (String.utf8EncodeChar c) = some b) :
    ∃ e ∈ keptBytes ++ movedBytes, b = .ofNat e.1 ∧ e.2 = c.toNat := by
  obtain ⟨e, he, hb, hs⟩ := mem_byteTable (byteToStr_mem b)
  rw [byteToStr_of_strToByte h] at hs
  have hlt := codepoint_lt he
  refine ⟨e, he, hb, ?_⟩
  have hshort := utf8FromCodepoint_length e.2 hlt
  have hcp := (utf8FromCodepoint_small e.2 hlt).1
  rw [← hs] at hshort hcp
  rw [← hcp]
  show codepointOf (String.utf8EncodeChar c) = c.val.toNat
  unfold String.utf8EncodeChar at hshort ⊢
  simp only at hshort ⊢
  -- one or two bytes are read back; a longer character is not in the map
  split at hshort
  · rw [if_pos ‹_›, codepointOf, UInt8.toNat_ofNat']
    omega
  · rw [if_neg ‹_›]
    split at hshort
    · rw [if_pos ‹_›, codepointOf, UInt8.toNat_ofNat', UInt8.toNat_ofNat']
      omega
    · split at hshort <;> simp at hshort

/-- A character is in the byte map if its code point is. -/
theorem strToByte_isSome {c : Char} {e : Nat × Nat} (he : e ∈ keptBytes ++ movedBytes)
    (h : e.2 = c.toNat) : strToByte (String.utf8EncodeChar c) = some (.ofNat e.1) := by
  have hentry : (UInt8.ofNat e.1, utf8FromCodepoint e.2) ∈ byteTable :=
    List.mem_map.mpr ⟨e, he, rfl⟩
  rw [utf8EncodeChar_eq (h ▸ codepoint_lt he), ← h,
    ← byteTable_functional (byteToStr_mem _) hentry, strToByte_byteToStr]

/-- What `decode` makes of a character: a remapped one is cut down to one of its two bytes, any
other one is kept. -/
theorem charText_utf8EncodeChar (c : Char) : if Remapped c then
      (String.utf8EncodeChar c).length = 2 ∧ ∃ b, charText false (String.utf8EncodeChar c) = .ok [b]
    else charText false (String.utf8EncodeChar c) = .ok (String.utf8EncodeChar c) := by
  split
  · rename_i hremapped
    obtain ⟨hlow, hhigh, hne⟩ := hremapped
    have hmem := (mem_codepoints c.toNat (by omega)).mpr (.inr ⟨hlow, hhigh, hne⟩)
    obtain ⟨e, he, hcp⟩ := List.mem_map.mp hmem
    constructor
    · have hlong : ¬ c.val.toNat ≤ 127 := by
        show ¬ c.toNat ≤ 127
        omega
      have hshort : c.val.toNat ≤ 2047 := by
        show c.toNat ≤ 2047
        omega
      rw [String.utf8EncodeChar, if_neg hlong, if_pos hshort]
      rfl
    · exact ⟨.ofNat e.1, by rw [charText, strToByte_isSome he hcp]⟩
  · rename_i hkept
    unfold charText
    cases hbyte : strToByte (String.utf8EncodeChar c) with
    | none => rfl
    | some =>
      -- the only other characters of the map are ASCII, and stand for themselves
      obtain ⟨e, he, rfl, hcp⟩ := strToByte_some hbyte
      have hmem := (mem_codepoints e.2 (codepoint_lt he)).mp (List.mem_map_of_mem he)
      have hascii : c.toNat ≤ 127 := by
        rcases hmem with ⟨-, _⟩ | hremapped
        · omega
        · rw [hcp] at hremapped
          exact absurd hremapped hkept
      have hsame : e.1 = e.2 := by
        rcases List.mem_append.mp he with hkept | hmoved
        · exact keptBytes_same e hkept
        · have := (mem_movedBytes hmoved).1
          omega
      rw [String.utf8EncodeChar]
      simp only
      rw [if_pos (show c.val.toNat ≤ 127 from hascii), hsame, hcp]
      rfl

/-- Text is read to its end. What is read is the text if it has no remapped character, and shorter
if it has one. -/
theorem decodes_utf8 (chars : List Char) :
    ∃ text, Decodes false (utf8 chars) text ∧ text.length ≤ (utf8 chars).length ∧
      ((∀ c ∈ chars, ¬ Remapped c) → text = utf8 chars) ∧
      ((∃ c ∈ chars, Remapped c) → text.length < (utf8 chars).length) := by
  induction chars with
  | nil => exact ⟨[], .nil, Nat.le_refl _, fun _ => rfl, by simp⟩
  | cons c chars ih =>
    obtain ⟨text, hread, _, hsame, hshort⟩ := ih
    obtain ⟨b, rest, hchar, hlen⟩ := charLength_utf8EncodeChar c
    have hcons : utf8 (c :: chars) = b :: rest ++ utf8 chars := by
      rw [utf8, List.flatMap_cons, hchar, utf8]
    have htext := charText_utf8EncodeChar c
    rw [hchar] at htext
    by_cases hremapped : Remapped c
    · rw [if_pos hremapped] at htext
      obtain ⟨htwo, part, hpart⟩ := htext
      refine ⟨[part] ++ text, hcons ▸ .char hlen hpart hread, ?_, ?_, ?_⟩
      · rw [hcons, List.length_append, List.length_append, htwo, List.length_singleton]
        omega
      · exact fun hnone => absurd hremapped (hnone c List.mem_cons_self)
      · intro _
        rw [hcons, List.length_append, List.length_append, htwo, List.length_singleton]
        omega
    · rw [if_neg hremapped] at htext
      refine ⟨b :: rest ++ text, hcons ▸ .char hlen htext hread, ?_, ?_, ?_⟩
      · rw [hcons, List.length_append, List.length_append]
        omega
      · intro hnone
        rw [hcons, hsame fun c' hc' => hnone c' (List.mem_cons_of_mem _ hc')]
      · rintro ⟨c', hc', hremapped'⟩
        rcases List.mem_cons.mp hc' with rfl | hmem
        · exact absurd hremapped' hremapped
        · have := hshort ⟨c', hmem, hremapped'⟩
          rw [hcons, List.length_append, List.length_append]
          omega

/-! ### Special tokens -/

namespace ByteLevelBpeTokenizer

variable {t : ByteLevelBpeTokenizer} {k : Nat}

/-- A special token that is skipped leaves no trace. -/
theorem decode_skip {s : Bytes} (hk : t.idToSpecialToken.lookup k = some s) (xs ys : List Nat) :
    t.decode (xs ++ [k] ++ ys) true = t.decode (xs ++ ys) true := by
  have hstream : t.streamOf true k = .ok [] := by rw [streamOf, hk]; rfl
  unfold decode
  rw [List.append_assoc, List.mapM_append, List.mapM_append, List.mapM_append, List.mapM_cons,
    List.mapM_nil, hstream]
  cases xs.mapM (t.streamOf true) with
  | error => rfl
  | ok parts =>
    cases ys.mapM (t.streamOf true) with
    | error => rfl
    | ok parts' =>
      have hflatten : (parts ++ ([[]] ++ parts')).flatten = (parts ++ parts').flatten := by simp
      simp only [bind, Except.bind, pure, Except.pure, hflatten]

/-- Between ids that can be decoded a special token is rendered literally exactly if its content
has no remapped character. Where special tokens are skipped it contributes nothing. -/
theorem special_rendered_iff (chars : List Char)
    (hk : t.idToSpecialToken.lookup k = some (utf8 chars)) {xs ys : List Nat} {dx dy : Bytes}
    (hx : t.decode xs false = .ok dx) (hy : t.decode ys false = .ok dy) :
    (t.decode (xs ++ [k] ++ ys) false = .ok (dx ++ utf8 chars ++ dy) ↔ ∀ c ∈ chars, ¬ Remapped c) ∧
      t.decode (xs ++ [k] ++ ys) true = t.decode (xs ++ ys) true := by
  refine ⟨?_, decode_skip hk xs ys⟩
  obtain ⟨text, _, -, hsame, hshort⟩ := decodes_utf8 chars
  have hsingle : t.decode [k] false = .ok text := by
    refine decode_ok_iff.mpr ⟨(decode_ok_iff.mp hx).1, [utf8 chars], ?_, ?_⟩
    · rw [List.mapM_cons, List.mapM_nil, streamOf, hk]
      rfl
    · rwa [List.flatten_singleton]
  rw [decode_append (decode_append hx hsingle) hy]
  constructor
  · intro heq c hc hremapped
    have hlength := congrArg List.length (Except.ok.inj heq)
    have := hshort ⟨c, hc, hremapped⟩
    simp only [List.length_append] at hlength
    omega
  · intro hnone
    rw [hsame hnone]

/-- A letter and a special token with a character just above those of the byte map in it. -/
def nasalToken : ByteLevelBpeTokenizer := ofLists [[97], utf8 ['<', 'ń', '>']] [] [1, 3] (-1) (-1)

theorem special_rendered_nasalToken :
    nasalToken.idToSpecialToken.lookup 1 = some (utf8 ['<', 'ń', '>']) ∧
      nasalToken.decode [0] false = .ok [97] ∧
      nasalToken.decode ([0] ++ [1] ++ [0]) false = .ok ([97] ++ utf8 ['<', 'ń', '>'] ++ [97]) :=
  have hk : nasalToken.idToSpecialToken.lookup 1 = some (utf8 ['<', 'ń', '>']) := by decide +kernel
  have ha : nasalToken.decode [0] false = .ok [97] := by decide +kernel
  have hkept : ∀ c ∈ ['<', 'ń', '>'], ¬ Remapped c := by
    simp only [List.forall_mem_cons]
    exact ⟨by decide, by decide, by decide, by simp⟩
  ⟨hk, ha, (special_rendered_iff ['<', 'ń', '>'] hk ha ha).1.mpr hkept⟩

/-- A special token whose content is one accented letter. -/
def accentToken : ByteLevelBpeTokenizer := ofLists [utf8 ['é']] [] [3] (-1) (-1)

/-- The letter comes out as one byte, which is not the UTF-8 of anything. -/
theorem accentToken_remapped :
    accentToken.idToSpecialToken.lookup 0 = some (utf8 ['é']) ∧ utf8 ['é'] = [0xC3, 0xA9] ∧
      accentToken.decode [] false = .ok [] ∧ accentToken.decode [0] false = .ok [0xE9] := by
  decide +kernel

end ByteLevelBpeTokenizer

end CcInfer
