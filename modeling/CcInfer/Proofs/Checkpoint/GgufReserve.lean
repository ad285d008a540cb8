import CcInfer.Proofs.Checkpoint.GgufBounds

/-!
# `CcInfer.Proofs.Checkpoint.GgufReserve`: how much memory a GGUF file can ask for

`parse` and `parse_value` call `reserve` with a count as soon as they have read it, before any
of the counted elements. Nothing compares the count with the size of the file, so a file of 24
bytes can ask for `2 ^ 64 - 1` entries, and it is the allocator that answers, by an exception
that `parse` does not turn into a `Result`.
-/

set_option autoImplicit false

namespace CcInfer.Gguf

namespace Traced

/-- In a file that is accepted, every count is covered by the rest of the file. -/
theorem reserve_le_of_ok {memory : Nat → Bool} {data : Bytes} {reader : GgufReader}
    (h : (run memory data).1 = .ok reader) {count unread : Nat}
    (hmem : .note (.reserve count unread) ∈ (run memory data).2.log) :
    count ≤ unread ∧ unread ≤ data.length :=
  ((covered_parse (R := fun _ _ => False) memory).value ⟨Within.start _, by simp⟩ h).1.covered
    count unread hmem |>.resolve_right id

/-! ### What the allocator can change -/

/-- `p'` never throws, and `p` is `p'` up to the first count that the allocator refuses. -/
structure UpTo (memory : Nat → Bool) {α : Type} (p p' : Read α) : Prop where
  grows : ∀ buffer s, s.log <+: (p' buffer s).2.log
  returns : ∀ buffer s, (p' buffer s).1 ≠ .error .exception
  upTo : ∀ buffer s, p buffer s = p' buffer s ∨
    (p buffer s).1 = .error .exception ∧ (p buffer s).2.log <+: (p' buffer s).2.log ∧
      ∃ count unread, .note (.reserve count unread) ∈ (p buffer s).2.log ∧ memory count = false

section Allocator

variable {memory : Nat → Bool} {α γ : Type}

/-- A part that reserves nothing. -/
theorem UpTo.same {p : Read α} (hgrows : ∀ buffer s, s.log <+: (p buffer s).2.log)
    (hreturns : ∀ buffer s, (p buffer s).1 ≠ .error .exception) : UpTo memory p p :=
  ⟨hgrows, hreturns, fun _ _ => .inl rfl⟩

/-- A returned value. -/
theorem UpTo.pure (x : α) : UpTo memory (Pure.pure x) (Pure.pure x) :=
  .same (fun _ _ => List.prefix_refl _) fun _ _ => by rintro ⟨⟩

/-- A failure of the format. -/
theorem UpTo.fail (err : ErrorCode) : UpTo memory (Scan.fail err : Read α) (Scan.fail err) :=
  .same (fun _ _ => List.prefix_refl _) fun _ _ => by rintro ⟨⟩

/-- An entry of the log. -/
theorem UpTo.note (f : Nat → Note) : UpTo memory (Scan.note f) (Scan.note f) :=
  .same (fun _ _ => List.prefix_append _ _) fun _ _ => by rintro ⟨⟩

/-- A bounded read. -/
theorem UpTo.bytes (n : Nat) : UpTo memory (readBytes n) (readBytes n) := by
  refine .same (fun buffer s => ?_) fun buffer s => ?_
  · unfold readBytes Scan.take
    split
    · exact List.prefix_refl _
    · exact List.prefix_append _ _
  · unfold readBytes Scan.take
    split <;> rintro ⟨⟩

/-- One part after the other: a refusal in the first ends both. -/
theorem UpTo.bind {p p' : Read α} {f f' : α → Read γ} (h : UpTo memory p p')
    (h' : ∀ x, UpTo memory (f x) (f' x)) : UpTo memory (p >>= f) (p' >>= f') := by
  have hlong : ∀ buffer s, (p' buffer s).2.log <+: ((p' >>= f') buffer s).2.log := by
    intro buffer s
    rw [Scan.bind_run]
    rcases p' buffer s with ⟨e | x, s'⟩
    · exact List.prefix_refl _
    · exact (h' x).grows buffer s'
  refine ⟨fun buffer s => (h.grows buffer s).trans (hlong buffer s), fun buffer s => ?_,
    fun buffer s => ?_⟩
  · have hreturns := h.returns buffer s
    rw [Scan.bind_run]
    rcases hp' : p' buffer s with ⟨e | x, s'⟩ <;> rw [hp'] at hreturns
    · rintro ⟨⟩
      exact hreturns rfl
    · exact (h' x).returns buffer s'
  · rcases h.upTo buffer s with heq | ⟨hexception, hshort, hrefused⟩
    · -- the first part is the same, and what follows decides
      rw [Scan.bind_run, Scan.bind_run, heq]
      rcases p' buffer s with ⟨e | x, s'⟩
      · exact .inl rfl
      · exact (h' x).upTo buffer s'
    · -- `p` has ended, and `p'` only adds to its log
      right
      rw [Scan.bind_run p f]
      rcases hp : p buffer s with ⟨e | x, s'⟩ <;> rw [hp] at hexception hshort hrefused
      · cases hexception
        exact ⟨rfl, hshort.trans (hlong buffer s), hrefused⟩
      · cases hexception

/-- A part whose value is passed through a function. -/
theorem UpTo.map {p p' : Read α} (g : α → γ) (h : UpTo memory p p') :
    UpTo memory (g <$> p) (g <$> p') := by
  rw [← bind_pure_comp g p, ← bind_pure_comp g p']
  exact h.bind fun x => .pure (g x)

/-- A part that is repeated. -/
theorem UpTo.times {p p' : Read α} (h : UpTo memory p p') (n : Nat) :
    UpTo memory (Scan.times p n) (Scan.times p' n) := by
  induction n with
  | zero => exact .pure []
  | succ n ih => exact h.bind fun x => ih.bind fun xs => .pure (x :: xs)

/-- A number of the header. -/
theorem UpTo.raw (n : Nat) : UpTo memory (readRaw n) (readRaw n) := (UpTo.bytes n).map _

/-- A string with its length. -/
theorem UpTo.string : UpTo memory readString readString :=
  (UpTo.raw 8).bind fun len => .bytes len.toNat

/-- The one part that asks the allocator. -/
theorem UpTo.reserve (count : Nat) :
    UpTo memory (reserve memory count) (reserve (fun _ => true) count) := by
  refine ⟨fun _ _ => List.prefix_append _ _, fun _ _ => by rintro ⟨⟩, fun buffer s => ?_⟩
  cases hmemory : memory count with
  | true =>
    left
    simp only [Traced.reserve, hmemory]
  | false =>
    right
    rw [reserve_refused hmemory]
    exact ⟨rfl, List.prefix_refl _, count, buffer.length - s.offset, by simp, hmemory⟩

/-- A value: only its arrays reserve. By induction on the depth. -/
theorem upTo_value (code : BitVec 32) (fuel : Nat) :
    UpTo memory (parseValue memory code fuel) (parseValue (fun _ => true) code fuel) := by
  induction fuel generalizing code with
  | zero => exact (UpTo.note _).bind fun _ => .fail _
  | succ _ ih =>
    refine (UpTo.note _).bind fun _ => ?_
    unfold parseBody
    cases ValueType.ofCode code with
    | none => exact .fail _
    | some type =>
      cases type with
      | bool => exact ((UpTo.raw 1).map _).map _
      | string => exact UpTo.string.map _
      | array =>
        refine (UpTo.raw 4).bind fun elemType => (UpTo.raw 8).bind fun count => ?_
        exact (UpTo.reserve _).bind fun _ => ((ih elemType).times _).map _
      | u8 | i8 => exact (UpTo.raw 1).map _
      | u16 | i16 => exact (UpTo.raw 2).map _
      | u32 | i32 | f32 => exact (UpTo.raw 4).map _
      | u64 | i64 | f64 => exact (UpTo.raw 8).map _

/-- A metadata entry. -/
theorem upTo_entry (fuel : Nat) :
    UpTo memory (parseEntry memory fuel) (parseEntry (fun _ => true) fuel) := by
  refine UpTo.string.bind fun key => (UpTo.raw 4).bind fun type => ?_
  split
  · exact .fail _
  · exact (upTo_value type fuel).bind fun value => .pure _

/-- A tensor description. -/
theorem upTo_tensor : UpTo memory parseTensor parseTensor := by
  refine UpTo.string.bind fun name => (UpTo.raw 4).bind fun nDims => ?_
  split
  · exact .fail _
  · refine (((UpTo.raw 8).map _).times _).bind fun dims => (UpTo.raw 4).bind fun type => ?_
    split
    · exact .fail _
    · exact (UpTo.raw 8).bind fun offset => .pure _

/-- The two lists of the header. -/
theorem upTo_lists (fuel : Nat) :
    UpTo memory (parseLists memory fuel) (parseLists (fun _ => true) fuel) := by
  refine (UpTo.raw 8).bind fun nTensors => (UpTo.raw 8).bind fun nMetadata => ?_
  refine (UpTo.reserve _).bind fun _ => ((upTo_entry fuel).times _).bind fun metadata => ?_
  exact (UpTo.reserve _).bind fun _ => (upTo_tensor.times _).bind fun tensors => .pure _

/-- The whole parse. -/
theorem upTo_parse (memory : Nat → Bool) (data : Bytes) :
    UpTo memory (parse memory data) (parse (fun _ => true) data) := by
  unfold parse
  split
  · exact .fail _
  · refine (UpTo.bytes 4).bind fun letters => ?_
    split
    · exact .fail _
    · refine (UpTo.raw 4).bind fun version => ?_
      split
      · exact .fail _
      · refine (upTo_lists data.length).bind fun lists => ?_
        refine .same (fun buffer s => ?_) fun buffer s => ?_
        · simp only [finish]
          split <;> exact List.prefix_refl _
        · simp only [finish]
          split <;> rintro ⟨⟩

end Allocator

/-- An allocator that grants everything does not end a run. -/
theorem run_returns (data : Bytes) : (run (fun _ => true) data).1 ≠ .error .exception := by
  unfold run
  exact (upTo_parse (fun _ => true) data).returns data _

/-- A run is the one of an allocator that grants everything, or the beginning of it, up to a
count that is refused. -/
theorem run_upTo (memory : Nat → Bool) (data : Bytes) : run memory data = run (fun _ => true) data ∨
      (run memory data).2.log <+: (run (fun _ => true) data).2.log ∧
        ∃ count unread, .note (.reserve count unread) ∈ (run memory data).2.log ∧
          memory count = false := by
  unfold run
  exact ((upTo_parse memory data).upTo data _).imp_right And.right

end Traced

open Traced

/-- `parse` rejects the file before it reads a count. -/
def HeaderRejected (data : Bytes) : Prop :=
  data.length < 24 ∨ data.take 4 ≠ magic ∨ version data ≠ 3

/-- Such a file is answered by an error, and nothing is reserved. -/
theorem HeaderRejected.run (memory : Nat → Bool) {data : Bytes} (h : HeaderRejected data) :
    (run memory data).1 = .error (.error .modelLoadFailed) ∧
      ∀ count unread, .note (.reserve count unread) ∉ (Traced.run memory data).2.log := by
  rw [run_header]
  split
  · exact ⟨rfl, by simp⟩
  · rename_i hsize
    obtain hletters | hversion := h.resolve_left hsize
    · rw [if_pos hletters]
      exact ⟨rfl, by simp⟩
    · rw [if_pos hversion]
      split <;> exact ⟨rfl, by simp⟩

/-- An accepted file: no count exceeds the rest of the file, and an allocator that grants as many
elements as the file has bytes changes nothing. -/
theorem reserve_le_of_accepted (memory : Nat → Bool) {data : Bytes} {reader : GgufReader}
    (h : parse data = .ok reader) :
    (∀ count unread, .note (.reserve count unread) ∈ (run memory data).2.log → count ≤ unread) ∧
      ((∀ n ≤ data.length, memory n = true) → (run memory data).1 = .ok reader) := by
  have hok : (run (fun _ => true) data).1 = .ok reader := by
    have hresult := run_result (fun _ => true) data
    have hreturns := run_returns data
    rw [h] at hresult
    generalize (run (fun _ => true) data).1 = result at hresult hreturns ⊢
    cases hresult with
    | ok => rfl
    | exception => exact absurd rfl hreturns
  rcases run_upTo memory data with heq | ⟨hshort, count, unread, hmem, hrefused⟩
  · rw [heq]
    exact ⟨fun count unread hmem => (reserve_le_of_ok hok hmem).1, fun _ => hok⟩
  · refine ⟨fun count unread hmem => (reserve_le_of_ok hok (hshort.subset hmem)).1,
      fun hgrants => ?_⟩
    have hcovered := reserve_le_of_ok hok (hshort.subset hmem)
    rw [hgrants count (Nat.le_trans hcovered.1 hcovered.2)] at hrefused
    cases hrefused

/-- A file of 24 bytes that announces `2 ^ 64 - 1` metadata entries. -/
def missingEntries : Bytes := magic ++ leBytes 4 3 ++ leBytes 8 0 ++ leBytes 8 (2 ^ 64 - 1)

end CcInfer.Gguf
