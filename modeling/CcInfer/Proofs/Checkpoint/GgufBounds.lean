import CcInfer.Checkpoint.GgufTrace
import CcInfer.Proofs.Checkpoint.GgufRoundTrip

/-!
# `CcInfer.Proofs.Checkpoint.GgufBounds`: what a GGUF file can make the parser do

Nothing is assumed of the file here. Its counts and element types drive a recursion, and what
bounds that recursion is the file itself: `Within size k o` holds of a run that has stayed in
the file, has read at least `o` bytes and has read `k` bytes more than it has begun values.
Entering `parse_value` costs one byte of that credit and every value that is read brings one
back, an empty array and an empty string too, since their counts are read.
-/

set_option autoImplicit false

namespace CcInfer.Gguf

open Scan (Triple Erases)

namespace Traced

variable {data : Bytes} {size k o : Nat} {s : ScanState Note}
variable {memory : Nat → Bool} {count n offset k' o' : Nat} {R : Nat → Nat → Prop}

/-! ### Without the log it is `GGUFReader::parse` -/

theorem erases_raw (n : Nat) : Erases (readRaw n) (Gguf.readRaw n) := (Erases.take n _).map _

theorem erases_string : Erases readString Gguf.readString :=
  (erases_raw 8).bind fun len => .take len.toNat _

/-- A count that the allocator refuses. -/
theorem reserve_refused (h : memory count = false) (buffer : Bytes) (s : ScanState Note) :
    reserve memory count buffer s = (.error .exception,
      ⟨s.offset, s.log ++ [.note (.reserve count (buffer.length - s.offset))]⟩) := by
  simp only [reserve, h, Bool.false_eq_true, if_false]
  rfl

/-- `reserve` does nothing but ask for memory. -/
theorem erases_reserve {α : Type} {p : Read α}
    {q : Gguf.Read α} (h : Erases p q) : Erases (reserve memory count >>= fun _ => p) q := by
  intro buffer s
  cases hmemory : memory count with
  | true =>
    have hsame : (reserve memory count >>= fun _ => p) =
        Scan.note (Note.reserve count) >>= fun _ => p := by
      simp only [reserve, hmemory, if_true, bind_assoc, pure_bind]
    rw [hsame]
    exact (Erases.note h) buffer s
  | false =>
    rw [Scan.bind_run, reserve_refused hmemory]
    trivial

/-- The traced parser of a value, without its trace. -/
theorem erases_value (memory : Nat → Bool) (code : BitVec 32) (fuel : Nat) :
    Erases (parseValue memory code fuel) (Gguf.parseValue code fuel) := by
  induction fuel generalizing code with
  | zero => exact .note (.fail _)
  | succ _ ih =>
    refine .note ?_
    simp only [parseBody, Gguf.parseValue]
    cases ValueType.ofCode code with
    | none => exact .fail _
    | some type =>
      cases type with
      | bool => exact ((erases_raw 1).map _).map _
      | string => exact erases_string.map _
      | array =>
        refine (erases_raw 4).bind fun elemType => (erases_raw 8).bind fun count => ?_
        exact erases_reserve (((ih elemType).times _).map _)
      | u8 | i8 => exact (erases_raw 1).map _
      | u16 | i16 => exact (erases_raw 2).map _
      | u32 | i32 | f32 => exact (erases_raw 4).map _
      | u64 | i64 | f64 => exact (erases_raw 8).map _

theorem erases_entry (memory : Nat → Bool) (fuel : Nat) :
    Erases (parseEntry memory fuel) (Gguf.parseEntry fuel) := by
  refine erases_string.bind fun key => (erases_raw 4).bind fun type => ?_
  split
  · exact fun _ _ => rfl
  · exact (erases_value memory type fuel).bind fun value => .pure _

theorem erases_tensor : Erases parseTensor Gguf.parseTensor := by
  refine erases_string.bind fun name => (erases_raw 4).bind fun nDims => ?_
  split
  · exact fun _ _ => rfl
  · refine (((erases_raw 8).map _).times _).bind fun dims => (erases_raw 4).bind fun type => ?_
    cases TensorType.ofCode type with
    | none => exact .fail _
    | some => exact (erases_raw 8).bind fun offset => .pure _

theorem erases_lists (memory : Nat → Bool) (fuel : Nat) :
    Erases (parseLists memory fuel) (Gguf.parseLists fuel) := by
  refine (erases_raw 8).bind fun nTensors => (erases_raw 8).bind fun nMetadata => ?_
  refine erases_reserve (((erases_entry memory fuel).times _).bind fun metadata => ?_)
  exact erases_reserve ((erases_tensor.times _).bind fun tensors => .pure _)

/-- A file that is long enough has its first eight bytes read. -/
theorem readBytes_start (log : List (Event Note)) (h : offset + n ≤ data.length) :
    readBytes n data ⟨offset, log⟩ =
      (.ok ((data.drop offset).take n), ⟨offset + n, log ++ [.read offset n]⟩) := by
  rw [readBytes, Scan.take, if_neg]
  show ¬ (data.length < offset ∨ data.length - offset < n)
  omega

/-- The version that a file names. -/
def version (data : Bytes) : BitVec 32 := BitVec.ofNat 32 (leValue ((data.drop 4).take 4))

/-- The tests in front of the counts, with the reads they make. -/
theorem run_header (memory : Nat → Bool) (data : Bytes) : run memory data =
      if data.length < 4 + 4 + 8 + 8 then (.error (.error .modelLoadFailed), ⟨0, []⟩)
      else if data.take 4 ≠ magic then (.error (.error .modelLoadFailed), ⟨4, [.read 0 4]⟩)
      else if version data ≠ 3 then (.error (.error .modelLoadFailed), ⟨8, [.read 0 4, .read 4 4]⟩)
      else (parseLists memory data.length >>= finish data.length (version data)) data
        ⟨8, [.read 0 4, .read 4 4]⟩ := by
  unfold run parse
  split
  · rfl
  · have hmagic := readBytes_start [] (show 0 + 4 ≤ data.length by omega)
    rw [Scan.bind_run, hmagic]
    simp only [List.drop_zero, Nat.zero_add, List.nil_append]
    split
    · rfl
    · have hraw := readBytes_start [.read 0 4] (show 4 + 4 ≤ data.length by omega)
      have hversion : readU32 data ⟨4, [.read 0 4]⟩ =
          (.ok (version data), ⟨8, [.read 0 4, .read 4 4]⟩) := by
        rw [readU32, readRaw, ← bind_pure_comp, Scan.bind_run, hraw]
        rfl
      rw [Scan.bind_run, hversion]
      simp only
      split <;> rfl

/-- A run of the logged parser has the result of `parse`, unless the allocator throws. -/
theorem run_result (memory : Nat → Bool) (data : Bytes) :
    Scan.Agrees (run memory data).1 (Gguf.parse data) := by
  rw [run_header]
  unfold Gguf.parse
  rw [← version]
  split
  · exact .error _
  split
  · exact .error _
  simp only
  split
  · exact .error _
  have hlists := erases_lists memory data.length data ⟨8, [.read 0 4, .read 4 4]⟩
  rw [Scan.bind_run]
  rcases hcase : parseLists memory data.length data ⟨8, [.read 0 4, .read 4 4]⟩ with
    ⟨(e | _) | lists, s⟩ <;> rw [hcase] at hlists
  · simp only at hlists ⊢
    rw [hlists]
    exact .error e
  · exact .exception _
  · simp only at hlists ⊢
    rw [hlists]
    show Scan.Agrees (if data.length < (alignUp s.offset).toNat then _ else _ : _ × _).1
      (if data.length < (alignUp s.offset).toNat then _ else _)
    split
    · exact .error _
    · exact .ok _

/-! ### The account of bytes and values -/

/-- The number of values begun so far. -/
def values (s : ScanState Note) : Nat := s.log.count (.note .value)

/-- The run has stayed within the file, has read at least `o` bytes, and has read at least `k`
bytes more than it has begun values. -/
structure Within (size k o : Nat) (s : ScanState Note) : Prop where
  inside : s.offset ≤ size
  progress : o ≤ s.offset
  behind : ∀ r ∈ s.reads, r.1 + r.2 ≤ s.offset
  ordered : s.reads.Pairwise fun r r' => r.1 + r.2 ≤ r'.1
  paid : values s + k ≤ s.offset
  fueled : .note .outOfFuel ∉ s.log

theorem Within.mono (h : Within size k o s) (hk : k' ≤ k) (ho : o' ≤ o) : Within size k' o' s :=
  { h with
    progress := Nat.le_trans ho h.progress
    paid := Nat.le_trans (Nat.add_le_add_left hk _) h.paid }

theorem Within.start (size : Nat) : Within size 0 0 ⟨0, []⟩ :=
  ⟨Nat.zero_le _, Nat.le_refl _, by simp [ScanState.reads], by simp [ScanState.reads],
    by simp [values], by simp⟩

/-- Bytes that are read are put to the account. -/
theorem Within.read (h : Within size k o s) (hend : s.offset + n ≤ size) :
    Within size (k + n) (o + n) ⟨s.offset + n, s.log ++ [.read s.offset n]⟩ := by
  have hreads : ScanState.reads ⟨s.offset + n, s.log ++ [.read s.offset n]⟩ =
      s.reads ++ [(s.offset, n)] := by
    simp [ScanState.reads, Event.span]
  have hvalues : values ⟨s.offset + n, s.log ++ [.read s.offset n]⟩ = values s := by
    simp [values]
  refine ⟨hend, Nat.add_le_add_right h.progress n, ?_, ?_, ?_, ?_⟩
  · rw [hreads]
    intro r hr
    rcases List.mem_append.mp hr with hr | hr
    · exact Nat.le_trans (h.behind r hr) (Nat.le_add_right _ _)
    · obtain rfl := List.mem_singleton.mp hr
      exact Nat.le_refl _
  · rw [hreads]
    refine List.pairwise_append.mpr ⟨h.ordered, List.pairwise_singleton _ _, ?_⟩
    intro r hr r' hr'
    obtain rfl := List.mem_singleton.mp hr'
    exact h.behind r hr
  · have := h.paid
    rw [hvalues]
    show values s + (k + n) ≤ s.offset + n
    omega
  · simpa using h.fueled

/-- A value costs one byte, and what else is noted costs nothing. -/
theorem Within.note {i : Note} (hfuel : i ≠ .outOfFuel)
    (h : Within size (k + if i = .value then 1 else 0) o s) :
    Within size k o ⟨s.offset, s.log ++ [.note i]⟩ := by
  have hreads : ScanState.reads ⟨s.offset, s.log ++ [.note i]⟩ = s.reads := by
    simp [ScanState.reads, Event.span]
  have hvalues : values ⟨s.offset, s.log ++ [.note i]⟩ =
      values s + if i = .value then 1 else 0 := by
    simp [values, List.count_singleton]
  refine ⟨h.inside, h.progress, ?_, ?_, ?_, ?_⟩
  · rw [hreads]
    exact h.behind
  · rw [hreads]
    exact h.ordered
  · have := h.paid
    rw [hvalues]
    show values s + _ + k ≤ s.offset
    omega
  · simpa [hfuel.symm] using h.fueled

/-- In such a run every count that was reserved is covered by what was unread, or one of those in
`R`. -/
structure Covered (size : Nat) (R : Nat → Nat → Prop) (k o : Nat) (s : ScanState Note) :
    Prop extends Within size k o s where
  covered : ∀ count unread, .note (.reserve count unread) ∈ s.log →
    count ≤ unread ∧ unread ≤ size ∨ R count unread

theorem Covered.mono (h : Covered size R k o s)
    (hk : k' ≤ k) (ho : o' ≤ o) : Covered size R k' o' s :=
  ⟨h.toWithin.mono hk ho, h.covered⟩

section Account

/-- What is left of the account when the parser gives up. -/
theorem Covered.rest (h : Covered size R k o s) : Within size 0 0 s :=
  h.toWithin.mono (Nat.zero_le _) (Nat.zero_le _)

theorem covered_bytes (n : Nat) : Triple data (Covered data.length R k o) (readBytes n)
      (fun _ => Covered data.length R (k + n) (o + n)) (Within data.length 0 0) := by
  refine .take (fun s h hend => ⟨h.toWithin.read hend, fun count unread hmem => ?_⟩)
    fun _ h => h.rest
  exact h.covered count unread (by simpa using hmem)

theorem covered_raw (n : Nat) : Triple data (Covered data.length R k o) (readRaw n)
      (fun _ => Covered data.length R (k + n) (o + n)) (Within data.length 0 0) :=
  (covered_bytes n).map fun _ _ h => h

theorem covered_string : Triple data (Covered data.length R k o) readString
      (fun _ => Covered data.length R (k + 8) (o + 8)) (Within data.length 0 0) := by
  refine (covered_raw 8).bind fun len => (covered_bytes len.toNat).conseq (fun _ h => h) ?_
    fun _ h => h
  exact fun _ s h => h.mono (Nat.le_add_right _ _) (Nat.le_add_right _ _)

/-- A counted loop whose rounds read at least one byte each: while it runs its count is one of
the running ones, and at its end that many bytes have been read. -/
theorem covered_counted {α γ : Type} {p : Read α} {f : List α → Read γ}
    {Q : γ → Scan.Assertion Note} (memory : Nat → Bool) (count : Nat)
    (hp : ∀ R o', o ≤ o' → Triple data (Covered data.length R k o') p
      (fun _ => Covered data.length R k (o' + 1)) (Within data.length 0 0))
    (hf : ∀ xs, Triple data (Covered data.length R k (o + count)) (f xs) Q
      (Within data.length 0 0)) : Triple data (Covered data.length R k o)
      (reserve memory count >>= fun _ => Scan.times p count >>= f) Q (Within data.length 0 0) := by
  refine .fix fun s₀ h₀ => ?_
  have hstart := h₀.progress
  let R' : Nat → Nat → Prop := fun n unread =>
    R n unread ∨ n = count ∧ unread = data.length - s₀.offset
  have hreserve : Triple data (· = s₀) (reserve memory count)
      (fun _ => Covered data.length R' k (s₀.offset + 0)) (Within data.length 0 0) := by
    refine Triple.bind (Q := fun _ => Covered data.length R' k s₀.offset)
      (.note fun s hs => ?_) fun _ => ?_
    · subst hs
      refine ⟨.note (by simp) { h₀.toWithin with progress := Nat.le_refl _ },
        fun n unread hmem => ?_⟩
      rcases List.mem_append.mp hmem with hmem | hmem
      · exact (h₀.covered n unread hmem).imp_right .inl
      · simp only [List.mem_singleton, Event.note.injEq, Note.reserve.injEq] at hmem
        exact .inr (.inr hmem)
    · split
      · exact .pure fun _ h => h
      · exact .raise fun _ h => h.rest
  have hloop := Triple.times (I := fun i => Covered data.length R' k (s₀.offset + i))
    (fun i => hp R' (s₀.offset + i) (by omega)) count 0
  refine hreserve.bind fun _ => hloop.bind fun xs => (hf xs).conseq (fun s h => ?_)
    (fun _ _ h => h) fun _ h => h
  -- the loop has read a byte for each of its rounds, all of them inside the file
  have hinside := h.inside
  have hread := h.progress
  refine ⟨h.toWithin.mono (Nat.le_refl _) (by omega), fun n unread hmem => ?_⟩
  rcases h.covered n unread hmem with hle | hrunning | ⟨rfl, rfl⟩
  · exact .inl hle
  · exact .inr hrunning
  · exact .inl ⟨by omega, Nat.sub_le _ _⟩

/-- A number that is read, at least one byte. -/
theorem covered_number {α : Type} (n : Nat) (hn : 0 < n) (g : BitVec (8 * n) → α) :
    Triple data (Covered data.length R k o) (g <$> readRaw n)
      (fun _ => Covered data.length R (k + 1) (o + 1)) (Within data.length 0 0) :=
  (covered_raw n).map fun _ _ h => h.mono (by omega) (by omega)

/-- A value of any type reads at least one byte, if its elements do and pay for themselves. They
start behind a header of twelve bytes. -/
theorem covered_body {memory : Nat → Bool} {element : BitVec 32 → Read MetadataValue}
    (helement : ∀ code R o', o + 12 ≤ o' → Triple data (Covered data.length R 1 o') (element code)
        (fun _ => Covered data.length R 1 (o' + 1)) (Within data.length 0 0)) (code : BitVec 32) :
    Triple data (Covered data.length R 0 o) (parseBody memory element code)
      (fun _ => Covered data.length R 1 (o + 1)) (Within data.length 0 0) := by
  unfold parseBody
  cases ValueType.ofCode code with
  | none => exact .fail fun _ h => h.rest
  | some type =>
    cases type with
    | bool => exact (covered_number 1 (by decide) _).map fun _ _ h => h
    | string => exact covered_string.map fun _ _ h => h.mono (by omega) (by omega)
    | array =>
      refine (covered_raw 4).bind fun elemType => (covered_raw 8).bind fun count => ?_
      simp only [← bind_pure_comp]
      have hloop := covered_counted memory count.toNat (helement elemType) fun xs =>
        .pure (x := MetadataValue.array xs) (Q := fun _ =>
          Covered data.length R 1 (o + 1)) fun _ h => h.mono (Nat.le_refl _) (by omega)
      exact hloop.conseq (fun _ h => h.mono (by omega) (by omega)) (fun _ _ h => h) fun _ h => h
    | u8 | i8 => exact covered_number 1 (by decide) _
    | u16 | i16 => exact covered_number 2 (by decide) _
    | u32 | i32 | f32 => exact covered_number 4 (by decide) _
    | u64 | i64 | f64 => exact covered_number 8 (by decide) _

/-- `parse_value` keeps the account, and with one level of recursion for each unread byte it is
never cut off. -/
theorem covered_value (memory : Nat → Bool) (code : BitVec 32) (fuel : Nat)
    (hfuel : data.length < o + fuel) :
    Triple data (Covered data.length R 1 o) (parseValue memory code fuel)
      (fun _ => Covered data.length R 1 (o + 1)) (Within data.length 0 0) := by
  induction fuel generalizing code R o with
  | zero =>
    intro s h
    have := h.inside
    have := h.progress
    omega
  | succ _ ih =>
    refine Triple.bind (Q := fun _ => Covered data.length R 0 o) (.note fun s h => ?_)
      fun _ => covered_body (fun elemType _ _ ho => ih elemType (by omega)) code
    refine ⟨.note (by simp) h.toWithin, fun count unread hmem => ?_⟩
    exact h.covered count unread (by simpa using hmem)

theorem covered_entry (memory : Nat → Bool) (ho : 1 ≤ o) :
    Triple data (Covered data.length R 1 o) (parseEntry memory data.length)
      (fun _ => Covered data.length R 1 (o + 1)) (Within data.length 0 0) := by
  refine covered_string.bind fun key => (covered_raw 4).bind fun type => ?_
  split
  · exact .fail fun _ h => h.rest
  · refine Triple.bind ?_ fun value => .pure fun _ h => h
    exact (covered_value (o := o) memory type data.length (by omega)).conseq
      (fun _ h => h.mono (by omega) (by omega)) (fun _ _ h => h) fun _ h => h

/-- A tensor description pays for itself. -/
theorem covered_tensor : Triple data (Covered data.length R 1 o) parseTensor
      (fun _ => Covered data.length R 1 (o + 1)) (Within data.length 0 0) := by
  refine covered_string.bind fun name => (covered_raw 4).bind fun nDims => ?_
  split
  · exact .fail fun _ h => h.rest
  · have hdims := Triple.times (I := fun _ => Covered data.length R 1 (o + 1))
      (fun _ => (covered_number 8 (by decide) BitVec.toInt).conseq (fun _ h => h)
        (fun _ _ h => h.mono (by omega) (by omega)) fun _ h => h) nDims.toNat 0
    refine (hdims.conseq (fun _ h => h.mono (by omega) (by omega)) (fun _ _ h => h)
      fun _ h => h).bind fun dims => (covered_raw 4).bind fun type => ?_
    split
    · exact .fail fun _ h => h.rest
    · exact (covered_raw 8).bind fun offset => .pure fun _ h => h.mono (by omega) (by omega)

theorem covered_lists (memory : Nat → Bool) :
    Triple data (Covered data.length R k o) (parseLists memory data.length)
      (fun _ => Covered data.length R 1 1) (Within data.length 0 0) := by
  refine (covered_raw 8).bind fun nTensors => (covered_raw 8).bind fun nMetadata => ?_
  have hlists := covered_counted (R := R) (k := 1) (o := 1) memory
    nMetadata.toNat (fun _ _ ho => covered_entry memory ho) fun metadata => covered_counted memory
      nTensors.toNat (fun _ _ _ => covered_tensor) fun tensors => .pure (x := (metadata, tensors))
        (Q := fun _ => Covered data.length R 1 1) fun _ h => h.mono (by omega) (by omega)
  exact hlists.conseq (fun _ h => h.mono (by omega) (by omega)) (fun _ _ h => h) fun _ h => h

end Account

/-! ### Every file -/

/-- Rounding up to a multiple of 32, where the sum does not wrap. -/
theorem alignUp_toNat (h : offset < 2 ^ 63) : (alignUp offset).toNat = (offset + 31) / 32 * 32 := by
  have hsum : (BitVec.ofNat 64 offset + 31#64).toNat = offset + 31 := by
    rw [BitVec.toNat_add, BitVec.toNat_ofNat, BitVec.toNat_ofNat]
    omega
  rw [alignUp, and_not_31, hsum]

/-- The data section starts on a multiple of 32 behind all that was read. -/
theorem covered_finish (version : BitVec 32)
    (lists : List (Bytes × MetadataValue) × List TensorInfo) :
    Triple data (Covered data.length R 1 1) (finish data.length version lists)
      (fun reader s => Covered data.length R 0 0 s ∧ (data.length < 2 ^ 63 →
        reader.dataStart.toNat % 32 = 0 ∧ s.offset ≤ reader.dataStart.toNat ∧
          reader.dataStart.toNat ≤ data.length)) (Within data.length 0 0) := by
  intro s hs
  unfold finish
  by_cases hend : data.length < (alignUp s.offset).toNat
  · rw [if_pos hend]
    exact hs.rest
  · rw [if_neg hend]
    refine ⟨hs.mono (Nat.zero_le _) (Nat.zero_le _), fun h => ?_⟩
    have hstart := alignUp_toNat (Nat.lt_of_le_of_lt hs.inside h)
    refine ⟨?_, ?_, Nat.le_of_not_lt hend⟩
    · show (alignUp s.offset).toNat % 32 = 0
      rw [hstart, Nat.mul_mod_left]
    · show s.offset ≤ (alignUp s.offset).toNat
      omega

/-- A whole parse from the start of the file. -/
theorem covered_parse (memory : Nat → Bool) :
    Triple data (Covered data.length R 0 0) (parse memory data)
      (fun reader s => Covered data.length R 0 0 s ∧ (data.length < 2 ^ 63 →
        reader.dataStart.toNat % 32 = 0 ∧ s.offset ≤ reader.dataStart.toNat ∧
          reader.dataStart.toNat ≤ data.length)) (Within data.length 0 0) := by
  unfold parse
  split
  · exact .fail fun _ h => h.rest
  · refine (covered_bytes 4).bind fun letters => ?_
    split
    · exact .fail fun _ h => h.rest
    · refine (covered_raw 4).bind fun version => ?_
      split
      · exact .fail fun _ h => h.rest
      · exact (covered_lists memory).bind fun lists => covered_finish version lists

/-- The account alone, with every count among the running ones. -/
theorem within_parse (h : data.length < 2 ^ 63) (memory : Nat → Bool) :
    Triple data (Within data.length 0 0) (parse memory data)
      (fun reader s => Within data.length 0 0 s ∧ reader.dataStart.toNat % 32 = 0 ∧
        s.offset ≤ reader.dataStart.toNat ∧ reader.dataStart.toNat ≤ data.length)
      (Within data.length 0 0) :=
  (covered_parse (R := fun _ _ => True) memory).conseq
    (fun _ hs => ⟨hs, fun _ _ _ => .inr trivial⟩) (fun _ _ hs => ⟨hs.1.toWithin, hs.2 h⟩)
    fun _ hs => hs

end Traced

open Traced

/-- Parsing a file of any content ends, without being cut off. Its reads lie in the file, each
behind the one before, so that no offset wraps. It begins at most as many values as the file has
bytes. A file that is accepted has its data section on a multiple of 32, between the offset it
has been read up to and its end. -/
theorem parse_within (memory : Nat → Bool) (data : Bytes) (h : data.length < 2 ^ 63) :
    .note .outOfFuel ∉ (run memory data).2.log ∧
      (∀ r ∈ (run memory data).2.reads, r.1 + r.2 ≤ data.length) ∧
      (run memory data).2.reads.Pairwise (fun r r' => r.1 + r.2 ≤ r'.1) ∧
      values (run memory data).2 ≤ data.length ∧ ∀ reader, (run memory data).1 = .ok reader →
        reader.dataStart.toNat % 32 = 0 ∧ (run memory data).2.offset ≤ reader.dataStart.toNat ∧
          reader.dataStart.toNat ≤ data.length := by
  have hwithin : Within data.length 0 0 (run memory data).2 :=
    (within_parse h memory).ends (Within.start data.length) fun _ _ hend => hend.1
  refine ⟨hwithin.fueled, fun r hr => Nat.le_trans (hwithin.behind r hr) hwithin.inside,
    hwithin.ordered, ?_, fun reader hreader => ?_⟩
  · exact Nat.le_trans hwithin.paid hwithin.inside
  · exact ((within_parse h memory).value (Within.start data.length) hreader).2

/-- A file whose only metadata value is an array of `2 ^ 64 - 1` arrays, none of which is
there. -/
def missingArrays : Bytes :=
  magic ++ leBytes 4 3 ++ leBytes 8 0 ++ leBytes 8 1 ++ leBytes 8 0 ++ leBytes 4 9 ++
    leBytes 4 9 ++ leBytes 8 (2 ^ 64 - 1)

theorem parse_within_missingArrays : missingArrays.length < 2 ^ 63 ∧
      .note .outOfFuel ∉ (run (fun _ => true) missingArrays).2.log ∧
      values (run (fun _ => true) missingArrays).2 ≤ 48 :=
  have hsize : missingArrays.length < 2 ^ 63 := by decide
  have hwithin := parse_within (fun _ => true) missingArrays hsize
  ⟨hsize, hwithin.1, hwithin.2.2.2.1⟩

end CcInfer.Gguf
