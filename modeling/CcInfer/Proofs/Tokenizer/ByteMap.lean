import CcInfer.Tokenizer.ByteLevelBpe
import Mathlib.Data.List.Nodup
import Mathlib.Data.List.Chain
import Mathlib.Data.List.Range

/-!
# `CcInfer.Proofs.Tokenizer.ByteMap`: bytes and the characters that stand for them

`build_byte_maps` gives each of the 256 bytes a character of its own (`strToByte_byteToStr`),
and the first byte of that character says how long it is (`charLength_byteToStr`). So `decode`
reads a concatenation of such characters back, one byte at a time (`decodeLoop_symbols`).
-/

set_option autoImplicit false

namespace CcInfer

variable {e : Nat × Nat} {b : UInt8} {s : Bytes}

open ByteLevelBpeTokenizer (charLength decodeLoop)

/-! ### The table -/

/-- The code point that one or two bytes of UTF-8 stand for. -/
def codepointOf : Bytes → Nat
  | [a] => a.toNat
  | [a, b] => a.toNat % 32 * 64 + b.toNat % 64
  | _ => 0

theorem utf8FromCodepoint_small : ∀ cp < 512, codepointOf (utf8FromCodepoint cp) = cp ∧
      (utf8FromCodepoint cp).head?.bind charLength = some (utf8FromCodepoint cp).length := by
  decide +kernel

theorem keptBytes_chain : (keptBytes.map Prod.snd).IsChain (· < ·) := by
  decide +kernel

theorem keptBytes_lt : ∀ e ∈ keptBytes, e.2 < 256 := by
  decide +kernel

theorem keptBytes_fst_lt : ∀ e ∈ keptBytes, e.1 < 256 := by
  decide +kernel

/-- A kept byte stands for the code point of the same number. -/
theorem keptBytes_same : ∀ e ∈ keptBytes, e.1 = e.2 := by
  decide +kernel

/-- The bytes that `movedBytes` numbers. -/
theorem mem_movedBytes (h : e ∈ movedBytes) : 256 ≤ e.2 ∧ e.2 < 512 := by
  obtain ⟨⟨b, _⟩, hmem, rfl⟩ := List.mem_map.mp h
  have hn := List.snd_lt_of_mem_zipIdx hmem
  have hlen := List.length_filter_le (fun b => !(keptBytes.map Prod.fst).contains b)
    (List.range 256)
  simp only [List.length_range] at hlen
  simp only
  omega

theorem codepoint_lt (h : e ∈ keptBytes ++ movedBytes) : e.2 < 512 := by
  rcases List.mem_append.mp h with hkept | hmoved
  · have := keptBytes_lt e hkept
    omega
  · exact (mem_movedBytes hmoved).2

/-- Every byte has an entry. -/
theorem exists_codepoint {b : Nat} (hb : b < 256) : ∃ cp, (b, cp) ∈ keptBytes ++ movedBytes := by
  by_cases hkept : b ∈ keptBytes.map Prod.fst
  · obtain ⟨⟨_, cp⟩, hmem, rfl⟩ := List.mem_map.mp hkept
    exact ⟨cp, List.mem_append_left _ hmem⟩
  · have hmem : b ∈ (List.range 256).filter fun b => !(keptBytes.map Prod.fst).contains b := by
      simpa [hb] using hkept
    obtain ⟨n, hn⟩ := List.mem_iff_getElem?.mp hmem
    exact ⟨256 + n, List.mem_append_right _
      (List.mem_map.mpr ⟨(b, n), List.mk_mem_zipIdx_iff_getElem?.mpr hn, rfl⟩)⟩

/-- No two entries have the same code point. -/
theorem codepoints_nodup : ((keptBytes ++ movedBytes).map Prod.snd).Nodup := by
  rw [List.map_append]
  have hkept : (keptBytes.map Prod.snd).Nodup :=
    (List.isChain_iff_pairwise.mp keptBytes_chain).imp Nat.ne_of_lt
  have hmoved : (movedBytes.map Prod.snd).Nodup := by
    have hsnd : movedBytes.map Prod.snd =
        (((List.range 256).filter fun b => !(keptBytes.map Prod.fst).contains b).zipIdx.map
          Prod.snd).map (256 + ·) := by
      simp only [movedBytes, List.map_map]
      rfl
    rw [hsnd, List.zipIdx_map_snd]
    exact List.Nodup.map (fun _ _ => Nat.add_left_cancel) List.nodup_range'
  refine hkept.append hmoved fun cp h h' => ?_
  obtain ⟨e, he, rfl⟩ := List.mem_map.mp h
  obtain ⟨_, he', _⟩ := List.mem_map.mp h'
  have hlt := keptBytes_lt e he
  have hge := (mem_movedBytes he').1
  omega

/-- An entry of the byte table, by its code point. -/
theorem mem_byteTable (h : (b, s) ∈ byteTable) :
    ∃ e ∈ keptBytes ++ movedBytes, b = .ofNat e.1 ∧ s = utf8FromCodepoint e.2 := by
  obtain ⟨e, he, heq⟩ := List.mem_map.mp h
  obtain ⟨rfl, rfl⟩ := Prod.mk.inj heq
  exact ⟨e, he, rfl, rfl⟩

/-- No two bytes have the same character. -/
theorem byteTable_injective {b' : UInt8} (h : (b, s) ∈ byteTable)
    (h' : (b', s) ∈ byteTable) : b = b' := by
  obtain ⟨e, he, rfl, hs⟩ := mem_byteTable h
  obtain ⟨e', he', rfl, hs'⟩ := mem_byteTable h'
  have hcp : e.2 = e'.2 := by
    rw [← (utf8FromCodepoint_small e.2 (codepoint_lt he)).1, ← hs, hs',
      (utf8FromCodepoint_small e'.2 (codepoint_lt he')).1]
  rw [List.inj_on_of_nodup_map codepoints_nodup he he' hcp]

/-- No byte has two entries. -/
theorem bytes_nodup : ((keptBytes ++ movedBytes).map Prod.fst).Nodup := by
  rw [List.map_append]
  have hfst : keptBytes.map Prod.fst = keptBytes.map Prod.snd := by decide +kernel
  have hkept : (keptBytes.map Prod.fst).Nodup :=
    hfst ▸ (List.isChain_iff_pairwise.mp keptBytes_chain).imp Nat.ne_of_lt
  have hmoved : movedBytes.map Prod.fst =
      (List.range 256).filter fun b => !(keptBytes.map Prod.fst).contains b := by
    have hcomp : movedBytes.map Prod.fst =
        ((List.range 256).filter fun b => !(keptBytes.map Prod.fst).contains b).zipIdx.map
          Prod.fst := by
      simp only [movedBytes, List.map_map]
      rfl
    rw [hcomp, List.zipIdx_map_fst]
  rw [hmoved]
  refine hkept.append (List.nodup_range.filter _) fun b h h' => ?_
  simpa [h] using (List.mem_filter.mp h').2

/-- No byte has two characters. -/
theorem byteTable_functional {s' : Bytes} (h : (b, s) ∈ byteTable)
    (h' : (b, s') ∈ byteTable) : s = s' := by
  obtain ⟨e, he, hb, rfl⟩ := mem_byteTable h
  obtain ⟨e', he', hb', rfl⟩ := mem_byteTable h'
  have hlt : ∀ e ∈ keptBytes ++ movedBytes, e.1 < 256 := by
    intro e he
    rcases List.mem_append.mp he with hkept | hmoved
    · exact keptBytes_fst_lt e hkept
    · obtain ⟨⟨_, _⟩, hmem, rfl⟩ := List.mem_map.mp hmoved
      have hfilter := List.fst_mem_of_mem_zipIdx hmem
      exact List.mem_range.mp (List.mem_filter.mp hfilter).1
  have hfst : e.1 = e'.1 := by
    have := congrArg UInt8.toNat (hb.symm.trans hb')
    rwa [UInt8.toNat_ofNat_of_lt' (hlt e he), UInt8.toNat_ofNat_of_lt' (hlt e' he')] at this
  rw [List.inj_on_of_nodup_map bytes_nodup he he' hfst]

/-- Every byte has its row. -/
theorem byteToStr_mem (b : UInt8) : (b, byteToStr b) ∈ byteTable := by
  unfold byteToStr
  cases hlookup : byteTable.lookup b with
  | some =>
    obtain ⟨_, _, heq, -⟩ := List.lookup_eq_some_iff.mp hlookup
    simp [heq]
  | none =>
    obtain ⟨cp, hmem⟩ := exists_codepoint b.toNat_lt
    have hentry : (b, utf8FromCodepoint cp) ∈ byteTable :=
      List.mem_map.mpr ⟨(b.toNat, cp), hmem, by simp⟩
    have hne := List.lookup_eq_none_iff.mp hlookup _ hentry
    simp at hne

/-- `str_to_byte_` is the inverse of `byte_to_str_`. -/
theorem strToByte_byteToStr (b : UInt8) : strToByte (byteToStr b) = some b := by
  unfold strToByte
  cases hfind : byteTable.find? (fun e => e.2 == byteToStr b) with
  | some e =>
    have hs : e.2 = byteToStr b := by simpa using List.find?_some hfind
    have hmem : (e.1, byteToStr b) ∈ byteTable := hs ▸ List.mem_of_find?_eq_some hfind
    rw [Option.map_some, byteTable_injective hmem (byteToStr_mem b)]
  | none =>
    have hne := List.find?_eq_none.mp hfind _ (byteToStr_mem b)
    simp at hne

/-- `byte_to_str_` is the inverse of `str_to_byte_`. -/
theorem byteToStr_of_strToByte (h : strToByte s = some b) : byteToStr b = s := by
  obtain ⟨e, hfind, rfl⟩ := Option.map_eq_some_iff.mp h
  have hs : e.2 = s := by simpa using List.find?_some hfind
  exact byteTable_functional (byteToStr_mem e.1) (hs ▸ List.mem_of_find?_eq_some hfind)

/-- The first byte of a character of the map says how long it is. -/
theorem charLength_byteToStr (b : UInt8) :
    ∃ c rest, byteToStr b = c :: rest ∧ charLength c = some (byteToStr b).length := by
  obtain ⟨e, he, -, hs⟩ := mem_byteTable (byteToStr_mem b)
  have hlen := (utf8FromCodepoint_small e.2 (codepoint_lt he)).2
  rw [← hs] at hlen
  cases hstr : byteToStr b with
  | nil => simp [hstr] at hlen
  | cons c rest =>
    rw [hstr] at hlen
    exact ⟨c, rest, rfl, hlen⟩

/-! ### Reading characters back -/

/-- `decode` reads the character of a byte as that byte. -/
theorem decodeLoop_byteToStr (skip : Bool) (fuel : Nat) (b : UInt8) (rest : Bytes) :
    decodeLoop skip (fuel + 1) (byteToStr b ++ rest) =
      (decodeLoop skip fuel rest).map (b :: ·) := by
  obtain ⟨c, tail, hstr, hlen⟩ := charLength_byteToStr b
  have hstream : byteToStr b ++ rest = c :: (tail ++ rest) := by rw [hstr]; rfl
  have hshort : ¬ (byteToStr b ++ rest).length < (byteToStr b).length := by
    rw [List.length_append]
    omega
  rw [hstream, decodeLoop, hlen, ← hstream]
  simp only
  rw [if_neg hshort, List.take_left, List.drop_left, strToByte_byteToStr]

/-- The symbols of a text are read back as the text. -/
theorem decodeLoop_symbols (skip : Bool) (text : Bytes) (fuel : Nat) (h : text.length ≤ fuel) :
    decodeLoop skip fuel (text.flatMap byteToStr) = .ok text := by
  induction text generalizing fuel with
  | nil => cases fuel <;> rfl
  | cons _ _ ih =>
    obtain ⟨fuel, rfl⟩ : ∃ n, fuel = n + 1 := ⟨fuel - 1, by simp at h; omega⟩
    rw [List.flatMap_cons, decodeLoop_byteToStr, ih fuel (by simpa using h)]
    rfl

/-- Every byte has at least one byte in the symbols. -/
theorem length_le_symbols (text : Bytes) : text.length ≤ (text.flatMap byteToStr).length := by
  induction text with
  | nil => exact Nat.le_refl _
  | cons b =>
    obtain ⟨_, _, hstr, -⟩ := charLength_byteToStr b
    rw [List.flatMap_cons, List.length_append, hstr]
    simp only [List.length_cons]
    omega

end CcInfer
