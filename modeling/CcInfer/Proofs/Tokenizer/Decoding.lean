import CcInfer.Lib.Fallible
import CcInfer.Proofs.Tokenizer.ByteMap

/-!
# `CcInfer.Proofs.Tokenizer.Decoding`: decoding goes character by character

`decode` joins the strings of the ids and then cuts the whole anew, at the lengths that the
first bytes of the characters say. `Decodes skip s text` is that second part as a relation: a
character is read as its byte, or as itself where `skip_special_tokens` is false and the byte
map does not have it.
-/

set_option autoImplicit false

namespace CcInfer

variable {skip : Bool} {s text : Bytes} {c : UInt8}

open ByteLevelBpeTokenizer (charLength decodeLoop)

/-! ### The characters of a string -/

/-- What `decode` makes of one character. -/
def charText (skip : Bool) (ch : Bytes) : Result Bytes :=
  match strToByte ch with
  | some b => .ok [b]
  | none => if skip then .error .modelLoadFailed else .ok ch

/-- The string `s` is read as `text`, one character after the other. -/
inductive Decodes (skip : Bool) : Bytes → Bytes → Prop
  /-- The end of the string. -/
  | nil : Decodes skip [] []
  /-- A character of the length that its first byte says. -/
  | char {s text rest part : Bytes} {c : UInt8} : charLength c = some (c :: rest).length →
      charText skip (c :: rest) = .ok part → Decodes skip s text →
      Decodes skip (c :: rest ++ s) (part ++ text)

theorem Decodes.append {s' text' : Bytes} (h : Decodes skip s text)
    (h' : Decodes skip s' text') : Decodes skip (s ++ s') (text ++ text') := by
  induction h with
  | nil => exact h'
  | char hlen hpart _ ih =>
    rw [List.append_assoc, List.append_assoc]
    exact .char hlen hpart ih

theorem charLength_pos {len : Nat} (h : charLength c = some len) : 0 < len := by
  unfold charLength at h
  repeat' split at h
  all_goals cases h
  all_goals decide

/-- `decode` reads the first character. -/
theorem decodeLoop_char {rest : Bytes}
    (hlen : charLength c = some (c :: rest).length) (fuel : Nat) :
    decodeLoop skip (fuel + 1) (c :: rest ++ s) =
      charText skip (c :: rest) >>= fun part => (decodeLoop skip fuel s).map (part ++ ·) := by
  have hshort : ¬ (c :: (rest ++ s)).length < (c :: rest).length := by
    simp only [List.length_cons, List.length_append]
    omega
  have htake : (c :: (rest ++ s)).take (c :: rest).length = c :: rest := List.take_left
  have hdrop : (c :: (rest ++ s)).drop (c :: rest).length = s := List.drop_left
  rw [List.cons_append, decodeLoop, hlen]
  simp only [htake, hdrop, charText]
  rw [if_neg hshort]
  cases strToByte (c :: rest) with
  | some => rfl
  | none => cases skip <;> rfl

/-- The loop of `decode` reads a string as the relation says. -/
theorem decodeLoop_ok_iff {fuel : Nat} (hfuel : s.length ≤ fuel) :
    decodeLoop skip fuel s = .ok text ↔ Decodes skip s text := by
  constructor
  · intro h
    induction fuel generalizing s text with
    | zero =>
      obtain rfl := List.length_eq_zero_iff.mp (Nat.le_zero.mp hfuel)
      obtain rfl := Except.ok.inj h
      exact .nil
    | succ fuel ih =>
      cases s with
      | nil =>
        obtain rfl := Except.ok.inj h
        exact .nil
      | cons c rest =>
        cases hlen : charLength c with
        | none =>
          rw [decodeLoop, hlen] at h
          cases h
        | some len =>
          obtain ⟨n, rfl⟩ : ∃ n, len = n + 1 := ⟨len - 1, by have := charLength_pos hlen; omega⟩
          by_cases hlong : n ≤ rest.length
          · -- the string as its first character and the others
            have hsplit : c :: rest = c :: rest.take n ++ rest.drop n := by simp
            have hchar : charLength c = some (c :: rest.take n).length := by
              rw [hlen, List.length_cons, List.length_take, Nat.min_eq_left hlong]
            have hrest : (rest.drop n).length ≤ fuel := by
              simp only [List.length_cons, List.length_drop] at hfuel ⊢
              omega
            rw [hsplit] at h ⊢
            rw [decodeLoop_char hchar] at h
            cases hpart : charText skip (c :: rest.take n) with
            | error =>
              rw [hpart] at h
              cases h
            | ok =>
              rw [hpart] at h
              obtain ⟨_, htext, rfl⟩ := Fallible.map_eq_ok_iff.mp h
              exact .char hchar hpart (ih hrest htext)
          · rw [decodeLoop, hlen] at h
            simp only [List.length_cons] at h
            rw [if_pos (by omega)] at h
            cases h
  · intro h
    induction h generalizing fuel with
    | nil => cases fuel <;> rfl
    | char hlen hpart _ ih =>
      rw [List.length_append, List.length_cons] at hfuel
      obtain ⟨fuel, rfl⟩ : ∃ n, fuel = n + 1 := ⟨fuel - 1, by omega⟩
      rw [decodeLoop_char hlen, hpart]
      exact Fallible.map_eq_ok_iff.mpr ⟨_, ih (by omega), rfl⟩

/-! ### The ids -/

namespace ByteLevelBpeTokenizer

variable {t : ByteLevelBpeTokenizer}

/-- `decode` succeeds if every id has a string and the strings joined are read to their end. -/
theorem decode_ok_iff {ids : List Nat} {text : Bytes} : t.decode ids skip = .ok text ↔
      t.idToToken.entries.isEmpty = false ∧
        ∃ parts, ids.mapM (t.streamOf skip) = .ok parts ∧ Decodes skip parts.flatten text := by
  unfold decode
  cases hempty : t.idToToken.entries.isEmpty with
  | true => exact iff_of_false (by rintro ⟨⟩) (by simp)
  | false =>
    simp only [Bool.false_eq_true, if_false, true_and]
    cases ids.mapM (t.streamOf skip) with
    | error => exact iff_of_false (by rintro ⟨⟩) (by simp)
    | ok parts =>
      show decodeLoop skip parts.flatten.length parts.flatten = .ok text ↔ _
      rw [decodeLoop_ok_iff (Nat.le_refl _)]
      simp only [Except.ok.injEq, exists_eq_left']

/-- Nothing is decoded as nothing, if there is a vocabulary. -/
theorem decode_nil (h : t.idToToken.entries.isEmpty = false) : t.decode [] skip = .ok [] :=
  decode_ok_iff.mpr ⟨h, [], rfl, .nil⟩

/-- Two lists of ids that can be decoded are decoded one behind the other. -/
theorem decode_append {ids ids' : List Nat} {text text' : Bytes}
    (h : t.decode ids skip = .ok text) (h' : t.decode ids' skip = .ok text') :
    t.decode (ids ++ ids') skip = .ok (text ++ text') := by
  obtain ⟨hloaded, parts, hparts, hread⟩ := decode_ok_iff.mp h
  obtain ⟨-, parts', hparts', hread'⟩ := decode_ok_iff.mp h'
  refine decode_ok_iff.mpr ⟨hloaded, parts ++ parts', ?_, ?_⟩
  · rw [List.mapM_append, hparts, hparts']
    rfl
  · rw [List.flatten_append]
    exact hread.append hread'

/-- A list of ids, each of which can be decoded by itself, is decoded as the texts of the ids, one
behind the other. The list is not empty, or the tokenizer has a vocabulary. -/
theorem decode_flatten (t : ByteLevelBpeTokenizer) (skip : Bool) (ids : List Nat)
    (texts : List Bytes) (hsome : ids ≠ [] ∨ t.idToToken.entries.isEmpty = false)
    (h : List.Forall₂ (fun id text => t.decode [id] skip = .ok text) ids texts) :
    t.decode ids skip = .ok texts.flatten := by
  have hloaded : t.idToToken.entries.isEmpty = false := by
    rcases hsome with hne | hloaded
    · cases h with
      | nil => exact absurd rfl hne
      | cons hfirst => exact (decode_ok_iff.mp hfirst).1
    · exact hloaded
  clear hsome
  induction h with
  | nil => exact decode_nil hloaded
  | cons hfirst _ ih => exact decode_append hfirst ih

/-- Two tokens, the second of which is a lone byte of a character. -/
def halfCharacter : ByteLevelBpeTokenizer := ofLists [[97], [0xC3, 0x83]] [] [1, 1] (-1) (-1)

theorem decode_flatten_halfCharacter :
    ([1, 0] ≠ [] ∨ halfCharacter.idToToken.entries.isEmpty = false) ∧
      List.Forall₂ (fun id text => halfCharacter.decode [id] true = .ok text)
        [1, 0] [[0xC3], [97]] ∧ halfCharacter.decode [1, 0] true = .ok [0xC3, 97] :=
  have hsingle : List.Forall₂ (fun id text => halfCharacter.decode [id] true = .ok text)
      [1, 0] [[0xC3], [97]] :=
    .cons (by decide +kernel) (.cons (by decide +kernel) .nil)
  ⟨.inl (by decide), hsingle,
    decode_flatten halfCharacter true [1, 0] [[0xC3], [97]] (.inl (by decide)) hsingle⟩

/-- Without a vocabulary even the empty list is an error. -/
theorem decode_nil_unloaded : List.Forall₂ (fun id text => decode {} [id] false = .ok text) [] [] ∧
      decode {} [] false = .error .modelLoadFailed :=
  ⟨.nil, rfl⟩

end ByteLevelBpeTokenizer

end CcInfer
