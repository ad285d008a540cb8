import CcInfer.Proofs.Tokenizer.Decoding

/-!
# `CcInfer.Proofs.Tokenizer.Spelling`: the text that a vocabulary entry stands for

An entry of the vocabulary is a string of characters. A character of the byte map stands for
its byte, any other one for itself (`Spells`). A byte of a longer character is such an entry
too, so that what an entry spells need not be valid UTF-8.
-/

set_option autoImplicit false

namespace CcInfer

open ByteLevelBpeTokenizer (charLength)

/-- The string `s` of characters stands for `text`. -/
inductive Spells : Bytes → Bytes → Prop
  /-- The end of the string. -/
  | nil : Spells [] []
  /-- A character of the byte map. -/
  | byte {s text : Bytes} (b : UInt8) : Spells s text → Spells (byteToStr b ++ s) (b :: text)
  /-- Another character, of the length that its first byte says. -/
  | literal {s text rest : Bytes} {c : UInt8} : charLength c = some (c :: rest).length →
      (∀ b, byteToStr b ≠ c :: rest) → Spells s text →
      Spells (c :: rest ++ s) (c :: rest ++ text)

/-- What a string spells is what `decode` reads with special tokens kept. -/
theorem spells_iff {s text : Bytes} : Spells s text ↔ Decodes false s text := by
  constructor
  · intro h
    induction h with
    | nil => exact .nil
    | byte b _ ih =>
      obtain ⟨c, rest, hstr, hlen⟩ := charLength_byteToStr b
      have hpart : charText false (c :: rest) = .ok [b] := by
        rw [charText, ← hstr, strToByte_byteToStr]
      rw [hstr] at hlen ⊢
      exact .char hlen hpart ih
    | @literal _ _ rest c hlen hne _ ih =>
      have hbyte : strToByte (c :: rest) = none := by
        cases hbyte : strToByte (c :: rest) with
        | none => rfl
        | some b => exact absurd (byteToStr_of_strToByte hbyte) (hne b)
      exact .char hlen (by rw [charText, hbyte]; rfl) ih
  · intro h
    induction h with
    | nil => exact .nil
    | @char _ _ rest _ c hlen hpart _ ih =>
      cases hbyte : strToByte (c :: rest) with
      | some b =>
        rw [charText, hbyte] at hpart
        obtain rfl := Except.ok.inj hpart
        rw [← byteToStr_of_strToByte hbyte]
        exact .byte b ih
      | none =>
        rw [charText, hbyte] at hpart
        obtain rfl := Except.ok.inj hpart
        refine .literal hlen (fun b hb => ?_) ih
        rw [← hb, strToByte_byteToStr] at hbyte
        cases hbyte

namespace ByteLevelBpeTokenizer

/-- The string of an id. A tokenizer without tokens has none. -/
def entry? (t : ByteLevelBpeTokenizer) (id : Nat) : Option Bytes :=
  if t.idToToken.entries.isEmpty then none
  else (t.idToSpecialToken.lookup id).or (t.idToToken.lookup id)

theorem streamOf_eq (t : ByteLevelBpeTokenizer) (id : Nat) :
    t.streamOf false id = ((t.idToSpecialToken.lookup id).or (t.idToToken.lookup id)).elim
      (.error .modelLoadFailed) .ok := by
  unfold streamOf
  cases t.idToSpecialToken.lookup id with
  | some => rfl
  | none => cases t.idToToken.lookup id <;> rfl

/-- One id is decoded as what its string spells. -/
theorem decode_singleton {t : ByteLevelBpeTokenizer} {id : Nat} {text : Bytes} :
    t.decode [id] false = .ok text ↔ ∃ s, t.entry? id = some s ∧ Spells s text := by
  rw [decode_ok_iff, List.mapM_cons, List.mapM_nil, streamOf_eq, entry?]
  cases hempty : t.idToToken.entries.isEmpty with
  | true => exact iff_of_false (by simp) (by simp)
  | false =>
    simp only [true_and, Bool.false_eq_true, if_false]
    cases (t.idToSpecialToken.lookup id).or (t.idToToken.lookup id) with
    | none => exact iff_of_false (fun ⟨_, h, _⟩ => by cases h) (by simp)
    | some s =>
      simp only [Option.some.injEq, exists_eq_left', spells_iff]
      constructor
      · rintro ⟨_, ⟨⟩, hread⟩
        rwa [List.flatten_singleton] at hread
      · intro hread
        exact ⟨[s], rfl, by rwa [List.flatten_singleton]⟩

end ByteLevelBpeTokenizer

end CcInfer
