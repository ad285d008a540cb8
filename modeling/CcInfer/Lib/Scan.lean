import CcInfer.Lib.Cursor

/-!
# `CcInfer.Lib.Scan`: readers with a log that outlives their errors

A `Cursor` forgets where it was when it fails. A `Scan` is the same reader with a log: it keeps
the offset and the list of what it has done, also when it stops with an error, so that a bound
on what a reader does can be stated for every buffer and not only for those it accepts.
-/

set_option autoImplicit false

namespace CcInfer

/-- What a reader has done: it has read a stretch of the buffer, or something else of note. -/
inductive Event (ι : Type)
  | read (offset length : Nat)
  | note (i : ι)
  deriving DecidableEq, Repr

/-- The stretch of the buffer that an event has read. -/
def Event.span {ι : Type} : Event ι → Option (Nat × Nat)
  | read offset length => some (offset, length)
  | note _ => none

/-- The offset of a reader, and what it has done so far, oldest first. -/
structure ScanState (ι : Type) where
  offset : Nat
  log : List (Event ι)
  deriving DecidableEq, Repr

/-- The stretches of the buffer that have been read. -/
def ScanState.reads {ι : Type} (s : ScanState ι) : List (Nat × Nat) := s.log.filterMap Event.span

/-- How a reader stops early: it returns an error, or an exception leaves it. -/
inductive Fault (ε : Type)
  | error (e : ε)
  | exception
  deriving DecidableEq, Repr

/-- A reader of a buffer of `β` that logs what it does. -/
abbrev Scan (β ι ε : Type) : Type → Type :=
  ReaderT (List β) (ExceptT (Fault ε) (StateM (ScanState ι)))

namespace Scan

variable {β ι ε α γ : Type}

/-- The next `n` elements, or an error if there are fewer. -/
def take (n : Nat) (err : ε) : Scan β ι ε (List β) := fun buffer s =>
  if buffer.length < s.offset ∨ buffer.length - s.offset < n then (.error (.error err), s)
  else (.ok ((buffer.drop s.offset).take n),
    ⟨s.offset + n, s.log ++ [.read s.offset n]⟩)

/-- Log something, which may depend on how much of the buffer is unread. -/
def note (f : Nat → ι) : Scan β ι ε Unit := fun buffer s =>
  (.ok (), { s with log := s.log ++ [.note (f (buffer.length - s.offset))] })

/-- Stop with an error. -/
def fail (err : ε) : Scan β ι ε α := fun _ s => (.error (.error err), s)

/-- Leave by an exception. -/
def raise : Scan β ι ε α := fun _ s => (.error .exception, s)

/-- `n` values, one after the other. -/
def times (p : Scan β ι ε α) : Nat → Scan β ι ε (List α)
  | 0 => pure []
  | n + 1 => do
    let x ← p
    let xs ← times p n
    pure (x :: xs)

/-! ### Pre- and postconditions -/

/-- A condition on states. -/
abbrev Assertion (ι : Type) := ScanState ι → Prop

/-- From a state with `P`, `p` ends with a value in a state with `Q`, or early in one with
`E`. -/
def Triple (buffer : List β) (P : Assertion ι) (p : Scan β ι ε α) (Q : α → Assertion ι)
    (E : Assertion ι) : Prop :=
  ∀ s, P s →
    match p buffer s with
    | (.ok x, s') => Q x s'
    | (.error _, s') => E s'

/-- A reader behind another: it takes over where the first has ended with a value. -/
theorem bind_run (p : Scan β ι ε α) (f : α → Scan β ι ε γ) (buffer : List β) (s : ScanState ι) :
    (p >>= f) buffer s =
      match p buffer s with
      | (.ok x, s') => f x buffer s'
      | (.error e, s') => (.error e, s') := by
  show (match p buffer s with | (r, s') => ExceptT.bindCont (fun x => f x buffer) r s') = _
  rcases p buffer s with ⟨_ | _, s'⟩ <;> rfl

section Rules

variable {buffer : List β} {P P' R : Assertion ι} {E : Assertion ι} {p : Scan β ι ε α}
  {Q : α → Assertion ι}

theorem Triple.pure {x : α} (h : ∀ s, P s → Q x s) :
    Triple buffer P (Pure.pure x : Scan β ι ε α) Q E := fun s hs => h s hs

section

variable (h : Triple buffer P p Q E)
include h

theorem Triple.bind {f : α → Scan β ι ε γ} {Q' : γ → Assertion ι}
    (h' : ∀ x, Triple buffer (Q x) (f x) Q' E) : Triple buffer P (p >>= f) Q' E := by
  intro s hs
  have hp := h s hs
  rw [bind_run]
  rcases hcase : p buffer s with ⟨e | x, s'⟩ <;> rw [hcase] at hp
  · exact hp
  · exact h' x s' hp

theorem Triple.map {g : α → γ} {Q' : γ → Assertion ι}
    (h' : ∀ x s, Q x s → Q' (g x) s) : Triple buffer P (g <$> p) Q' E := by
  have hbind : g <$> p = p >>= fun x => Pure.pure (g x) := (bind_pure_comp g p).symm
  rw [hbind]
  exact h.bind fun x => .pure (h' x)

/-- The consequence rule. -/
theorem Triple.conseq {Q' : α → Assertion ι} {E' : Assertion ι}
    (hpre : ∀ s, P' s → P s) (hpost : ∀ x s, Q x s → Q' x s) (herr : ∀ s, E s → E' s) :
    Triple buffer P' p Q' E' := by
  intro s hs
  have hp := h s (hpre s hs)
  rcases hcase : p buffer s with ⟨e | x, s'⟩ <;> rw [hcase] at hp
  · exact herr s' hp
  · exact hpost x s' hp

/-- What a triple says of a run that ends with a value. -/
theorem Triple.value {s : ScanState ι} (hs : P s) {x : α}
    (hx : (p buffer s).1 = .ok x) : Q x (p buffer s).2 := by
  have hp := h s hs
  rcases hcase : p buffer s with ⟨e | y, s'⟩ <;> rw [hcase] at hp hx
  · cases hx
  · obtain rfl := Except.ok.inj hx
    exact hp

/-- What a triple says of a run, however it ends. -/
theorem Triple.ends {s : ScanState ι} (hs : P s)
    (hvalue : ∀ x s', Q x s' → E s') : E (p buffer s).2 := by
  have hp := h s hs
  rcases hcase : p buffer s with ⟨e | y, s'⟩ <;> rw [hcase] at hp
  · exact hp
  · exact hvalue y s' hp

end

/-- To prove a triple, fix the state at the start. -/
theorem Triple.fix (h : ∀ s₀, P s₀ → Triple buffer (· = s₀) p Q E) : Triple buffer P p Q E :=
  fun s hs => h s hs s rfl

/-- The rule for a bounded read. -/
theorem Triple.take {n : Nat} {err : ε} {Q : List β → Assertion ι}
    (h : ∀ s, P s → s.offset + n ≤ buffer.length →
      Q ((buffer.drop s.offset).take n) ⟨s.offset + n, s.log ++ [.read s.offset n]⟩)
    (herr : ∀ s, P s → E s) : Triple buffer P (Scan.take n err) Q E := by
  intro s hs
  unfold Scan.take
  by_cases hend : buffer.length < s.offset ∨ buffer.length - s.offset < n
  · rw [if_pos hend]
    exact herr s hs
  · rw [if_neg hend]
    exact h s hs (by omega)

theorem Triple.note {f : Nat → ι} {Q : Unit → Assertion ι}
    (h : ∀ s, P s → Q () ⟨s.offset, s.log ++ [.note (f (buffer.length - s.offset))]⟩) :
    Triple buffer P (Scan.note f : Scan β ι ε Unit) Q E := fun s hs => h s hs

theorem Triple.fail {err : ε} (h : ∀ s, P s → E s) :
    Triple buffer P (Scan.fail err : Scan β ι ε α) Q E := fun s hs => h s hs

theorem Triple.raise (h : ∀ s, P s → E s) :
    Triple buffer P (Scan.raise : Scan β ι ε α) Q E := fun s hs => h s hs

/-- The rule for counted loops: a round takes the invariant from one count to the next. -/
theorem Triple.times {I : Nat → Assertion ι}
    (h : ∀ i, Triple buffer (I i) p (fun _ => I (i + 1)) E) (n i : Nat) :
    Triple buffer (I i) (Scan.times p n) (fun _ => I (i + n)) E := by
  induction n generalizing i with
  | zero => exact .pure fun _ hs => hs
  | succ n ih =>
    refine (h i).bind fun x => (ih (i + 1)).bind fun xs => .pure fun s hs => ?_
    rw [Nat.add_right_comm] at hs
    exact hs

end Rules

/-! ### Leaving the log away -/

/-- `p` without its log is `q`, unless an exception leaves it. -/
def Erases (p : Scan β ι ε α) (q : Cursor β ε α) : Prop :=
  ∀ buffer s,
    match p buffer s with
    | (.ok x, s') => q buffer s.offset = .ok (x, s'.offset)
    | (.error (.error e), _) => q buffer s.offset = .error e
    | (.error .exception, _) => True

/-- A result is the second one, unless an exception has taken its place. -/
inductive Agrees : Except (Fault ε) α → Except ε α → Prop
  | ok (x : α) : Agrees (.ok x) (.ok x)
  | error (e : ε) : Agrees (.error (.error e)) (.error e)
  | exception (r : Except ε α) : Agrees (.error .exception) r

theorem Erases.pure (x : α) :
    Erases (Pure.pure x : Scan β ι ε α) (Pure.pure x : Cursor β ε α) := fun _ _ => rfl

/-- Erasure of a sequence of two parts. -/
theorem Erases.bind {p : Scan β ι ε α} {q : Cursor β ε α} {f : α → Scan β ι ε γ}
    {g : α → Cursor β ε γ} (h : Erases p q) (h' : ∀ x, Erases (f x) (g x)) :
    Erases (p >>= f) (q >>= g) := by
  intro buffer s
  have hp := h buffer s
  have hq : (q >>= g) buffer s.offset =
      match q buffer s.offset with
      | .ok (x, offset) => g x buffer offset
      | .error e => .error e := by
    show (q buffer s.offset >>= fun (x, offset) => g x buffer offset) = _
    rcases q buffer s.offset with _ | _ <;> rfl
  rw [bind_run, hq]
  rcases hcase : p buffer s with ⟨(e | _) | x, s'⟩ <;> rw [hcase] at hp
  · simp only [hp]
  · trivial
  · simp only [hp]
    exact h' x buffer s'

theorem Erases.map {p : Scan β ι ε α} {q : Cursor β ε α} (g : α → γ) (h : Erases p q) :
    Erases (g <$> p) (g <$> q) := by
  rw [← bind_pure_comp g p, ← bind_pure_comp g q]
  exact h.bind fun x => .pure (g x)

theorem Erases.take (n : Nat) (err : ε) :
    Erases (Scan.take n err : Scan β ι ε (List β)) (Cursor.take n err) := by
  intro buffer s
  unfold Scan.take Cursor.take
  by_cases hend : buffer.length < s.offset ∨ buffer.length - s.offset < n
  · rw [if_pos hend, if_pos hend]
  · rw [if_neg hend, if_neg hend]

/-- What is only logged is not there without the log. -/
theorem Erases.note {f : Nat → ι} {p : Scan β ι ε α} {q : Cursor β ε α} (h : Erases p q) :
    Erases (Scan.note f >>= fun _ => p) q := fun buffer s =>
  h buffer ⟨s.offset, s.log ++ [.note (f (buffer.length - s.offset))]⟩

theorem Erases.fail (err : ε) : Erases (Scan.fail err : Scan β ι ε α) (throw err) := fun _ _ => rfl

theorem Erases.times {p : Scan β ι ε α} {q : Cursor β ε α} (h : Erases p q) (n : Nat) :
    Erases (Scan.times p n) (Cursor.times q n) := by
  induction n with
  | zero => exact .pure []
  | succ n ih => exact h.bind fun x => ih.bind fun xs => .pure (x :: xs)

end Scan

end CcInfer
