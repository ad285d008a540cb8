import CcInfer.Http.Connection
import CcInfer.Lib.Checked
import Mathlib.Data.List.TakeWhile
import Mathlib.Data.Nat.Digits.Defs
import Mathlib.Tactic.Ring

/-!
# `CcInfer.Proofs.Http.ContentLength`: which header lines give a body length

`GivesLength` is the grammar of a `Content-Length` header: the name in any case, blanks, digits,
blanks. `parse_content_length` reads it in one pass, and it compares the number with
`kMaxBodySize` before and after each digit. The theorem says that the pass accepts the lines of
the grammar whose number is at most `kMaxBodySize`, and no others, for digit strings of any
length.
-/

set_option autoImplicit false

namespace CcInfer.Http

variable {ch : UInt8} {line : Bytes} {n : Nat}

/-! ### The grammar -/

/-- `ch - '0'`. -/
def digitValue (ch : UInt8) : Nat := ch.toNat - 48

/-- The number that a string of digits writes in base ten. -/
def decimalValue (digits : Bytes) : Nat := Nat.ofDigits 10 (digits.map digitValue).reverse

/-- A line that begins with the name of the header, in upper or lower case. -/
def NamesLength (line : Bytes) : Prop :=
  ∃ name rest, line = name ++ rest ∧ name.map toLower = bytes "content-length:"

/-- A line that gives the length `n`: name, blanks, digits, blanks. -/
def GivesLength (line : Bytes) (n : Nat) : Prop :=
  ∃ name before digits after, line = name ++ before ++ digits ++ after ∧
    name.map toLower = bytes "content-length:" ∧ (∀ b ∈ before, isSpace b) ∧
    digits ≠ [] ∧ (∀ b ∈ digits, isDigit b) ∧ (∀ b ∈ after, isSpace b) ∧ n = decimalValue digits

/-- The digit loop of `parse_content_length` with a 64-bit `size_t`: there is no result if an
intermediate value does not fit. -/
def parseDigitsChecked (out : Nat) (hasDigit : Bool) : Bytes → Option ContentLength
  | [] => some (if hasDigit then .valid out else .invalid)
  | ch :: rest =>
    if isDigit ch then
      if maxBodySize / 10 < out then some .invalid
      else do
        let shifted ← Checked.unsigned 64 (out * 10)
        let out ← Checked.unsigned 64 (shifted + digitValue ch)
        if maxBodySize < out then some .invalid else parseDigitsChecked out true rest
    else if !hasDigit then some .invalid
    else if (ch :: rest).all isSpace then some (.valid out)
    else some .invalid

/-! ### Digits and blanks -/

theorem digitValue_lt (h : isDigit ch) : digitValue ch < 10 := by
  simp only [isDigit, Bool.and_eq_true, decide_eq_true_eq] at h
  have hle : ch.toNat ≤ 57 := UInt8.le_iff_toNat_le.mp h.2
  unfold digitValue
  omega

theorem isDigit_eq_false_of_isSpace (h : isSpace ch) : isDigit ch = false := by
  simp only [isSpace, Bool.or_eq_true, Bool.and_eq_true, decide_eq_true_eq] at h
  simp only [isDigit, Bool.and_eq_false_iff, decide_eq_false_iff_not]
  refine .inl (UInt8.not_le.mpr (UInt8.lt_iff_toNat_lt.mpr ?_))
  rcases h with rfl | ⟨-, hhi⟩
  · decide
  · have hle : ch.toNat ≤ 13 := UInt8.le_iff_toNat_le.mp hhi
    exact lt_of_le_of_lt hle (by decide)

theorem isSpace_eq_false_of_isDigit (h : isDigit ch) : isSpace ch = false := by
  by_contra hspace
  rw [isDigit_eq_false_of_isSpace (by simpa using hspace)] at h
  cases h

theorem decimalValue_cons (ch : UInt8) (digits : Bytes) : decimalValue (ch :: digits) =
      digitValue ch * 10 ^ digits.length + decimalValue digits := by
  unfold decimalValue
  rw [List.map_cons, Nat.ofDigits_reverse_cons, List.length_map]
  ring

/-! ### The digit loop -/

/-- From a number within the limit, the loop reads `digits` exactly if the number they end in is
within the limit, and then asks for blanks. -/
theorem parseDigits_append {digits after : Bytes} (hdigits : ∀ b ∈ digits, isDigit b)
    (hafter : ∀ b ∈ after.head?, isDigit b = false) :
    ∀ (out : Nat) (hasDigit : Bool), out ≤ maxBodySize →
      parseDigits out hasDigit (digits ++ after) =
        if maxBodySize < out * 10 ^ digits.length + decimalValue digits then .invalid
        else if (hasDigit || !digits.isEmpty) && after.all isSpace then
          .valid (out * 10 ^ digits.length + decimalValue digits) else .invalid := by
  induction digits with
  | nil =>
    intro out hasDigit hout
    have hvalue : out * 10 ^ ([] : Bytes).length + decimalValue [] = out := by
      simp [decimalValue]
    rw [hvalue, if_neg (not_lt.mpr hout), List.nil_append]
    cases after with
    | nil => simp [parseDigits]
    | cons ch =>
      have hch : isDigit ch = false := hafter ch rfl
      rw [parseDigits]
      cases hasDigit <;> simp [hch]
  | cons ch digits ih =>
    intro out hasDigit hout
    have hch : isDigit ch := hdigits ch List.mem_cons_self
    have hpow : 1 ≤ 10 ^ digits.length := Nat.one_le_pow _ _ (by decide)
    have hvalue : out * 10 ^ (ch :: digits).length + decimalValue (ch :: digits) =
        (out * 10 + digitValue ch) * 10 ^ digits.length + decimalValue digits := by
      rw [decimalValue_cons, List.length_cons]
      ring
    have hgrow : out * 10 + digitValue ch ≤
        (out * 10 + digitValue ch) * 10 ^ digits.length + decimalValue digits :=
      le_trans (Nat.le_mul_of_pos_right _ hpow) (Nat.le_add_right _ _)
    rw [List.cons_append, parseDigits, if_pos hch, hvalue]
    by_cases hpre : maxBodySize / 10 < out
    · -- one more digit takes the number over the limit
      have hover : maxBodySize < out * 10 + digitValue ch := by omega
      rw [if_pos hpre, if_pos (lt_of_lt_of_le hover hgrow)]
    · rw [if_neg hpre]
      by_cases hpost : maxBodySize < out * 10 + digitValue ch
      · rw [if_pos (lt_of_lt_of_le hpost hgrow)]
        exact if_pos hpost
      · have hrest := ih (fun b hb => hdigits b (List.mem_cons_of_mem _ hb))
          (out * 10 + digitValue ch) true (not_lt.mp hpost)
        have hstep : parseDigits (out * 10 + digitValue ch) true (digits ++ after) = _ := hrest
        simp only [List.isEmpty_cons, Bool.not_false, Bool.or_true, Bool.true_or] at hstep ⊢
        rw [← hstep]
        exact if_neg hpost

/-- No intermediate value of the loop exceeds a `size_t`. -/
theorem parseDigitsChecked_eq (val : Bytes) : ∀ (out : Nat) (hasDigit : Bool), out ≤ maxBodySize →
      parseDigitsChecked out hasDigit val = some (parseDigits out hasDigit val) := by
  have hlimit : maxBodySize = 67108864 := by decide
  induction val with
  | nil => intro out hasDigit hout; rfl
  | cons ch rest ih =>
    intro out hasDigit hout
    rw [parseDigitsChecked, parseDigits]
    by_cases hch : isDigit ch
    · rw [if_pos hch, if_pos hch]
      by_cases hpre : maxBodySize / 10 < out
      · rw [if_pos hpre, if_pos hpre]
      · have hdigit := digitValue_lt hch
        have hshift : out * 10 < 2 ^ 64 := by omega
        have hadd : out * 10 + digitValue ch < 2 ^ 64 := by omega
        rw [if_neg hpre, if_neg hpre, Checked.unsigned_of_lt hshift]
        change (do
          let out ← Checked.unsigned 64 (out * 10 + digitValue ch)
          if maxBodySize < out then some ContentLength.invalid
          else parseDigitsChecked out true rest) =
            some (if maxBodySize < out * 10 + digitValue ch then .invalid
              else parseDigits (out * 10 + digitValue ch) true rest)
        rw [Checked.unsigned_of_lt hadd, Option.bind_eq_bind, Option.bind_some]
        split
        · rfl
        · rename_i hpost
          exact ih _ true (not_lt.mp hpost)
    · rw [if_neg hch, if_neg hch]
      split
      · rfl
      · split <;> rfl

/-! ### Lines -/

theorem startsWithCi_iff {start : Bytes} : startsWithCi line start ↔
      ∃ name rest, line = name ++ rest ∧ name.map toLower = start.map toLower := by
  simp only [startsWithCi, Bool.and_eq_true, decide_eq_true_eq, beq_iff_eq]
  constructor
  · rintro ⟨-, hname⟩
    exact ⟨line.take start.length, line.drop start.length, (List.take_append_drop _ _).symm, hname⟩
  · rintro ⟨name, _, rfl, hname⟩
    have hlen : name.length = start.length := by simpa using congrArg List.length hname
    rw [← hlen, List.take_left]
    exact ⟨by simp, hname⟩

theorem startsWithCi_iff_namesLength :
    startsWithCi line (bytes "content-length:") ↔ NamesLength line := by
  have hlower : (bytes "content-length:").map toLower = bytes "content-length:" := by
    with_unfolding_all decide
  rw [startsWithCi_iff, hlower]
  rfl

theorem GivesLength.namesLength (h : GivesLength line n) : NamesLength line := by
  obtain ⟨name, before, digits, after, rfl, hname, -⟩ := h
  exact ⟨name, before ++ (digits ++ after), by simp, hname⟩

/-- The bytes behind the name. -/
theorem drop_name {name rest : Bytes} (h : name.map toLower = bytes "content-length:") :
    (name ++ rest).drop 15 = rest := by
  have hlen : name.length = 15 := by
    have hbytes : (bytes "content-length:").length = 15 := by with_unfolding_all decide
    rw [← hbytes, ← h, List.length_map]
  rw [← hlen, List.drop_left]

/-- The digits are what the loop finds behind the name and the blanks. -/
theorem dropWhile_isSpace_append {before digits after : Bytes} (hbefore : ∀ b ∈ before, isSpace b)
    (hne : digits ≠ []) (hdigits : ∀ b ∈ digits, isDigit b) :
    (before ++ digits ++ after).dropWhile isSpace = digits ++ after := by
  rw [List.append_assoc, List.dropWhile_append_of_pos hbefore]
  cases digits with
  | nil => exact absurd rfl hne
  | cons d =>
    have hd := isSpace_eq_false_of_isDigit (hdigits d List.mem_cons_self)
    rw [List.cons_append, List.dropWhile_cons_of_neg (by simp [hd])]

theorem parseContentLength_of_namesLength (h : NamesLength line) :
    parseContentLength line = parseDigits 0 false ((line.drop 15).dropWhile isSpace) := by
  rw [parseContentLength, startsWithCi_iff_namesLength.mpr h]
  rfl

/-- A well-formed header line. -/
theorem parseContentLength_of_givesLength (h : GivesLength line n) :
    parseContentLength line = if maxBodySize < n then .invalid else .valid n := by
  rw [parseContentLength_of_namesLength h.namesLength]
  obtain ⟨_, _, _, after, rfl, hname, hbefore, hne, hdigits, hafter, rfl⟩ := h
  have hhead : ∀ b ∈ after.head?, isDigit b = false := fun b hb =>
    isDigit_eq_false_of_isSpace (hafter b (List.mem_of_mem_head? hb))
  have hall : after.all isSpace = true := List.all_eq_true.mpr hafter
  rw [List.append_assoc, List.append_assoc, drop_name hname, ← List.append_assoc,
    dropWhile_isSpace_append hbefore hne hdigits,
    parseDigits_append hdigits hhead 0 false (Nat.zero_le _)]
  simp [hall, hne]

/-- A valid length comes from a line of the grammar: the split into blanks, digits and blanks is
where the two loops stop. -/
theorem givesLength_of_valid (h : parseContentLength line = .valid n) : GivesLength line n := by
  by_cases hnames : NamesLength line
  · rw [parseContentLength_of_namesLength hnames] at h
    obtain ⟨name, rest, rfl, hname⟩ := hnames
    rw [drop_name hname] at h
    set val := rest.dropWhile isSpace with hval
    have hsplit : val = val.takeWhile isDigit ++ val.dropWhile isDigit :=
      List.takeWhile_append_dropWhile.symm
    have hdigits : ∀ b ∈ val.takeWhile isDigit, isDigit b := fun b hb => List.mem_takeWhile_imp hb
    have hhead : ∀ b ∈ (val.dropWhile isDigit).head?, isDigit b = false := fun b hb => by
      have hnot := List.head?_dropWhile_not isDigit val
      rw [Option.mem_def.mp hb] at hnot
      simpa using hnot
    rw [hsplit, parseDigits_append hdigits hhead 0 false (Nat.zero_le _)] at h
    split at h
    · cases h
    · split at h
      · rename_i hgood
        simp only [Bool.false_or, Bool.and_eq_true, Bool.not_eq_true', List.isEmpty_eq_false_iff,
          List.all_eq_true] at hgood
        refine ⟨name, rest.takeWhile isSpace, val.takeWhile isDigit, val.dropWhile isDigit, ?_,
          hname, fun b hb => List.mem_takeWhile_imp hb, hgood.1, hdigits, hgood.2, ?_⟩
        · rw [List.append_assoc, List.append_assoc, ← hsplit, hval,
            List.takeWhile_append_dropWhile]
        · rw [ContentLength.valid.injEq] at h
          simpa using h.symm
      · cases h
  · rw [parseContentLength, eq_false_of_ne_true (startsWithCi_iff_namesLength.not.mpr hnames)] at h
    cases h

/-- A value is never taken for an absent header. -/
theorem parseDigits_ne_notPresent (val : Bytes) :
    ∀ (out : Nat) (hasDigit : Bool), parseDigits out hasDigit val ≠ .notPresent := by
  induction val with
  | nil => intro out hasDigit; cases hasDigit <;> simp [parseDigits]
  | cons _ _ ih =>
    intro out hasDigit
    simp only [parseDigits]
    split
    · split
      · simp
      · split
        · simp
        · exact ih _ true
    · split
      · simp
      · split <;> simp

theorem parseContentLength_eq_notPresent_iff :
    parseContentLength line = .notPresent ↔ ¬NamesLength line := by
  constructor
  · intro h hnames
    rw [parseContentLength_of_namesLength hnames] at h
    exact parseDigits_ne_notPresent _ _ _ h
  · intro hnames
    rw [parseContentLength, eq_false_of_ne_true (startsWithCi_iff_namesLength.not.mpr hnames)]
    rfl

theorem parseContentLength_eq_valid_iff :
    parseContentLength line = .valid n ↔ GivesLength line n ∧ n ≤ maxBodySize := by
  constructor
  · intro h
    have hgives := givesLength_of_valid h
    refine ⟨hgives, not_lt.mp fun hover => ?_⟩
    rw [parseContentLength_of_givesLength hgives, if_pos hover] at h
    cases h
  · rintro ⟨hgives, hle⟩
    rw [parseContentLength_of_givesLength hgives, if_neg (not_lt.mpr hle)]

/-- `parse_content_length` returns `Valid` with `n` exactly for a line of the grammar whose
number `n` is at most 64 MiB, `NotPresent` exactly for a line of another name, and `Invalid` for
every other line. The computation stays within a `size_t`. -/
theorem parseContentLength_grammar (line : Bytes) :
    (∀ n, parseContentLength line = .valid n ↔ GivesLength line n ∧ n ≤ 64 * 2 ^ 20) ∧
    (parseContentLength line = .notPresent ↔ ¬NamesLength line) ∧
    (parseContentLength line = .invalid ↔
      NamesLength line ∧ ¬∃ n, GivesLength line n ∧ n ≤ 64 * 2 ^ 20) ∧
    parseDigitsChecked 0 false ((line.drop 15).dropWhile isSpace) =
      some (parseDigits 0 false ((line.drop 15).dropWhile isSpace)) := by
  have hlimit : maxBodySize = 64 * 2 ^ 20 := by decide
  rw [← hlimit]
  refine ⟨fun n => parseContentLength_eq_valid_iff, parseContentLength_eq_notPresent_iff, ?_,
    parseDigitsChecked_eq _ 0 false (Nat.zero_le _)⟩
  -- the third result is what the other two leave
  have hvalid : (∃ n, GivesLength line n ∧ n ≤ maxBodySize) ↔
      ∃ n, parseContentLength line = .valid n :=
    exists_congr fun n => parseContentLength_eq_valid_iff.symm
  rw [hvalid, ← not_not (a := NamesLength line), ← parseContentLength_eq_notPresent_iff]
  cases parseContentLength line <;> simp

end CcInfer.Http
