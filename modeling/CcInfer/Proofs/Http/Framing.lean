import CcInfer.Http.Connection
import Mathlib.Data.List.Chain
import Mathlib.Tactic.Common

/-!
# `CcInfer.Proofs.Http.Framing`: what the cutting of the stream into reads changes

`frame` is the framing that the source is after: the lines of the request head and the body
are parts of the byte stream, and how the bytes came in plays no role. The theorem of this
module compares `handleConnection` with it.
-/

set_option autoImplicit false

namespace CcInfer.Http

variable {reads : List Bytes} {c : Connection} {σ : Type}

/-! ### The abstract framing -/

/-- The first line of a stream and what is behind it. -/
def takeLine (s : Bytes) : Bytes × Bytes :=
  match splitFirst (· == lf) s with
  | none => if maxHeaderSize < s.length then (tooLongLine, s) else ([], [])
  | some (before, _, after) =>
    if maxHeaderSize < (stripCr before).length then (tooLongLine, s) else (stripCr before, after)

/-- The first `contentLength` bytes of a stream. -/
def takeBody (contentLength : Nat) (s : Bytes) : Option Bytes :=
  if maxBodySize < contentLength then none
  else if contentLength ≤ s.length then some (s.take contentLength) else none

/-- The request of a byte stream. -/
def frame (s : Bytes) : Head × Branch := handleWith takeLine takeBody s (s.length + 1)

/-- How many bytes of the stream are lines of the request head. A line that is too long does
not count, as reading stops there. -/
def headSize (s : Bytes) : Nat := s.length - (readHead takeLine s (s.length + 1)).2.length

/-! ### Marked streams -/

/-- A byte, and whether a read begins with it. -/
abbrev Mark := UInt8 × Bool

/-- A line feed. -/
def Mark.isLf (x : Mark) : Bool := x.1 == lf

/-- The bytes of one read, or of the rest of one. -/
def markFrom (first : Bool) : Bytes → List Mark
  | [] => []
  | b :: rest => (b, first) :: rest.map (·, false)

/-- The bytes of some reads. -/
def markReads (reads : List Bytes) : List Mark := reads.flatMap (markFrom true)

/-- What is left to read of a connection. -/
def Connection.marks (c : Connection) : List Mark := markFrom false c.buf ++ markReads c.reads

/-- Socket reads as `read_line` gets them: not empty, and at most 4096 bytes. -/
def Delivered (reads : List Bytes) : Prop := ∀ r ∈ reads, r ≠ [] ∧ r.length ≤ 4096

instance (reads : List Bytes) : Decidable (Delivered reads) :=
  inferInstanceAs (Decidable (∀ r ∈ reads, _))

/-- No read begins between a `'\r'` and the `'\n'` behind it. -/
def Uncut (m : List Mark) : Prop := m.IsChain fun a b => ¬ (a.1 = cr ∧ b = (lf, true))

instance (m : List Mark) : Decidable (Uncut m) :=
  inferInstanceAs (Decidable (m.IsChain _))

/-- The cutting leaves the line ends of the request head in one piece. -/
def Intact (reads : List Bytes) : Prop :=
  Uncut ((markReads reads).take (headSize reads.flatten))

instance (reads : List Bytes) : Decidable (Intact reads) := inferInstanceAs (Decidable (Uncut _))

@[simp] theorem markFrom_fst (first : Bool) (s : Bytes) : (markFrom first s).map Prod.fst = s := by
  cases s <;> simp [markFrom, Function.comp_def]

theorem markFrom_false (s : Bytes) : markFrom false s = s.map (·, false) := by
  cases s <;> rfl

theorem markFrom_append (first : Bool) (s t : Bytes) :
    markFrom first (s ++ t) = markFrom first s ++ markFrom (s.isEmpty && first) t := by
  cases s with
  | nil => simp [markFrom]
  | cons =>
    rw [List.isEmpty_cons, Bool.false_and, markFrom_false]
    simp [markFrom]

@[simp] theorem markReads_fst (reads : List Bytes) :
    (markReads reads).map Prod.fst = reads.flatten := by
  simp [markReads, List.map_flatMap, List.flatMap_id']

@[simp] theorem Connection.marks_fst (c : Connection) :
    c.marks.map Prod.fst = c.buf ++ c.reads.flatten := by
  simp [Connection.marks]

/-- A list of reads begins with the first byte of a read. -/
theorem markReads_head : ∀ x ∈ (markReads reads).head?, x.2 = true := by
  induction reads with
  | nil => simp [markReads]
  | cons r _ ih =>
    cases r with
    | nil => simpa [markReads, markFrom] using ih
    | cons => simp [markReads, markFrom]

theorem stripCr_append {s t : Bytes} (h : t ≠ []) : stripCr (s ++ t) = s ++ stripCr t := by
  unfold stripCr
  rw [List.getLast?_append_of_ne_nil _ h]
  split
  · rw [List.dropLast_append_of_ne_nil h]
  · rfl

theorem length_le_stripCr (s : Bytes) : s.length ≤ (stripCr s).length + 1 := by
  unfold stripCr
  split
  · rw [List.length_dropLast]; omega
  · omega

theorem stripCr_length_le (s : Bytes) : (stripCr s).length ≤ s.length := by
  unfold stripCr
  split
  · rw [List.length_dropLast]; omega
  · exact le_rfl

/-! ### `read_line` on a marked stream -/

/-- What `read_line` returns when `line` has been read already: a `'\n'` that begins a read
does not see the byte before it. -/
def markedLine (line : Bytes) (m : List Mark) : Bytes × List Mark :=
  match splitFirst Mark.isLf m with
  | none => if maxHeaderSize < line.length + m.length then (tooLongLine, []) else ([], [])
  | some (before, stop, after) =>
    let full := line ++ before.map Prod.fst
    let result := if stop.2 then full else stripCr full
    if maxHeaderSize < result.length then (tooLongLine, []) else (result, after)

/-- Every line that is returned as it stands fits the limit. -/
theorem markedLine_fits (line : Bytes) (m : List Mark) :
    (markedLine line m).1 = tooLongLine ∨ (markedLine line m).1.length ≤ maxHeaderSize := by
  rcases hs : splitFirst Mark.isLf m with _ | ⟨before, stop, after⟩
  · simp only [markedLine, hs]
    split
    · exact .inl rfl
    · exact .inr (Nat.zero_le _)
  · simp only [markedLine, hs]
    generalize (if stop.2 = true then line ++ before.map Prod.fst
      else stripCr (line ++ before.map Prod.fst)) = result
    split
    · exact .inl rfl
    · exact .inr (not_lt.mp ‹_›)

/-- Bytes without a line feed move from the stream to the partial line. -/
theorem markedLine_append {line : Bytes} {front : List Mark} (h : ∀ x ∈ front, Mark.isLf x = false)
    (m : List Mark) : markedLine line (front ++ m) = markedLine (line ++ front.map Prod.fst) m := by
  unfold markedLine
  rw [splitFirst_append h]
  rcases splitFirst Mark.isLf m with _ | ⟨_, _, _⟩
  · simp [Nat.add_assoc]
  · simp

/-- A partial line that is too long stays too long, wherever the line ends: if its `'\n'`
does not begin a read, then there is a byte of the same read before it. -/
theorem markedLine_tooLong {line : Bytes} (hline : maxHeaderSize < line.length)
    {m : List Mark} (hm : ∀ x ∈ m.head?, x.2 = true) : (markedLine line m).1 = tooLongLine := by
  unfold markedLine
  rcases hs : splitFirst Mark.isLf m with _ | ⟨before, stop, after⟩
  · simp only
    rw [if_pos (by omega)]
  · obtain ⟨rfl, -, -⟩ := splitFirst_eq_some_iff.mp hs
    have hlong : maxHeaderSize < (if stop.2 then line ++ before.map Prod.fst
        else stripCr (line ++ before.map Prod.fst)).length := by
      split
      · simp only [List.length_append]; omega
      · rename_i hstop
        cases before with
        | nil => exact absurd (hm stop (by simp)) hstop
        | cons x before =>
          have := length_le_stripCr (line ++ (x :: before).map Prod.fst)
          rw [List.length_append, List.length_map, List.length_cons] at this
          omega
    simp only
    rw [if_pos hlong]

theorem tooLongLine_length : tooLongLine.length = maxHeaderSize + 1 := List.length_replicate

theorem readSome_delivered {r : Bytes} (h : Delivered (r :: reads)) :
    readSome 4096 (r :: reads) = (r, reads) := by
  rw [readSome, if_pos (h r List.mem_cons_self).2]

/-- Every read brings a byte. -/
theorem Delivered.length_le (h : Delivered reads) : reads.length ≤ reads.flatten.length := by
  induction reads with
  | nil => exact le_rfl
  | cons r _ ih =>
    have hpos := List.length_pos_iff.mpr (h r List.mem_cons_self).1
    have := ih fun r hr => h r (List.mem_cons_of_mem _ hr)
    rw [List.length_cons, List.flatten_cons, List.length_append]
    omega

/-- The loop of `read_line`, by induction on the reads it takes. The contents of the buffer
are a whole read, except at the start, where no partial line is there yet. -/
theorem readLineLoop_eq (fuel : Nat) :
    ∀ (line : Bytes) (c : Connection) (first : Bool), Delivered c.reads → c.reads.length < fuel →
      line.length ≤ maxHeaderSize → (first = true ∨ line = []) → (readLineLoop line c fuel).1 =
        (markedLine line (markFrom first c.buf ++ markReads c.reads)).1 ∧
      ((readLineLoop line c fuel).1.length ≤ maxHeaderSize → (readLineLoop line c fuel).2.marks =
          (markedLine line (markFrom first c.buf ++ markReads c.reads)).2 ∧
        (readLineLoop line c fuel).2.reads <:+ c.reads) := by
  induction fuel with
  | zero => exact fun _ _ _ _ h => absurd h (Nat.not_lt_zero _)
  | succ fuel ih =>
    rintro line ⟨buf, reads⟩ first hread hfuel _ hfirst
    simp only at hread hfuel ⊢
    rcases splitFirst_cases (· == lf) buf with hnone | ⟨before, x, after, rfl, hx, hbefore⟩
    · -- No line feed in the buffer.
      have hmarks : ∀ x ∈ markFrom first buf, Mark.isLf x = false := by
        intro x hx
        refine hnone x.1 ?_
        rw [← markFrom_fst first buf]
        exact List.mem_map_of_mem hx
      rw [markedLine_append hmarks, markFrom_fst]
      by_cases hlong : maxHeaderSize < line.length + buf.length
      · have hscan : scanLine line buf = some (tooLongLine, []) := by
          have hne : buf ≠ [] := by rintro rfl; simp at hlong; omega
          rw [scanLine, if_neg (by simpa using hne), splitFirst_eq_none_iff.mpr hnone]
          exact if_pos hlong
        have hresult : (markedLine (line ++ buf) (markReads reads)).1 = tooLongLine :=
          markedLine_tooLong (by simpa using hlong) markReads_head
        simp only [readLineLoop, hscan, hresult, tooLongLine_length]
        exact ⟨trivial, fun hle => absurd hle (Nat.not_succ_le_self _)⟩
      · have hscan : scanLine line buf = none := by
          rw [scanLine, splitFirst_eq_none_iff.mpr hnone]
          simp only
          rw [if_neg hlong, ite_self]
        cases reads with
        | nil =>
          have hend : markedLine (line ++ buf) (markReads []) = ([], []) := by
            simp [markedLine, markReads, splitFirst, hlong]
          rw [hend]
          simp [readLineLoop, hscan, readSome, Connection.marks, markFrom, markReads]
        | cons r reads =>
          obtain ⟨b, chunk, rfl⟩ := List.exists_cons_of_ne_nil (hread r List.mem_cons_self).1
          have hstep : readLineLoop line ⟨buf, (b :: chunk) :: reads⟩ (fuel + 1) =
              readLineLoop (line ++ buf) ⟨b :: chunk, reads⟩ fuel := by
            simp only [readLineLoop, hscan, readSome_delivered hread]
          have hrest := ih (line ++ buf) ⟨b :: chunk, reads⟩ true
            (fun r hr => hread r (List.mem_cons_of_mem _ hr)) (by simpa using hfuel)
            (by simpa using hlong) (.inl rfl)
          rw [hstep]
          exact ⟨hrest.1, fun hle => ⟨(hrest.2 hle).1,
            (hrest.2 hle).2.trans (List.suffix_cons _ reads)⟩⟩
    · -- The line ends in the buffer.
      obtain rfl : x = lf := by simpa using hx
      have hscan : scanLine line (before ++ lf :: after) =
          if maxHeaderSize < line.length + (stripCr before).length then some (tooLongLine, [])
          else some (line ++ stripCr before, after) := by
        rw [scanLine, if_neg (by simp), splitFirst_eq_some_iff (p := (· == lf)) |>.mpr
          ⟨rfl, hx, hbefore⟩]
      have hsplit : splitFirst Mark.isLf (markFrom first (before ++ lf :: after) ++
          markReads reads) = some (markFrom first before, (lf, before.isEmpty && first),
            markFrom false after ++ markReads reads) := by
        refine splitFirst_eq_some_iff.mpr ⟨?_, hx, fun x hx => ?_⟩
        · rw [markFrom_append, markFrom_false, List.append_assoc]
          rfl
        · refine hbefore x.1 ?_
          rw [← markFrom_fst first before]
          exact List.mem_map_of_mem hx
      have hresult : (if (before.isEmpty && first) = true then line ++ before
          else stripCr (line ++ before)) = line ++ stripCr before := by
        cases before with
        | nil => rcases hfirst with rfl | rfl <;> simp [stripCr]
        | cons => simp [stripCr_append]
      have hmarked : markedLine line (markFrom first (before ++ lf :: after) ++ markReads reads) =
          if maxHeaderSize < line.length + (stripCr before).length then (tooLongLine, [])
          else (line ++ stripCr before, markFrom false after ++ markReads reads) := by
        simp only [markedLine, hsplit, markFrom_fst, hresult, List.length_append]
      by_cases hlong : maxHeaderSize < line.length + (stripCr before).length
      · simp only [readLineLoop, hscan, hmarked, if_pos hlong, tooLongLine_length]
        exact ⟨trivial, fun hle => absurd hle (Nat.not_succ_le_self _)⟩
      · simp only [readLineLoop, hscan, hmarked, if_neg hlong]
        exact ⟨trivial, fun _ => ⟨rfl, List.suffix_refl _⟩⟩

/-- `read_line` in terms of the marked stream. -/
theorem readLine_eq (h : Delivered c.reads) : (readLine c).1 = (markedLine [] c.marks).1 ∧
    ((readLine c).1.length ≤ maxHeaderSize →
      (readLine c).2.marks = (markedLine [] c.marks).2 ∧ Delivered (readLine c).2.reads) := by
  obtain ⟨hline, hrest⟩ := readLineLoop_eq (c.reads.flatten.length + 1) [] c false h
    (Nat.lt_succ_of_le h.length_le) (Nat.zero_le _) (.inr rfl)
  refine ⟨hline, fun hle => ⟨(hrest hle).1, fun r hr => h r ?_⟩⟩
  exact (hrest hle).2.subset hr

/-! ### One line, cut and uncut -/

/-- Without line feeds there is nothing to cut. -/
theorem uncut_of_no_lf {m : List Mark} (h : ∀ x ∈ m, x.isLf = false) : Uncut m := by
  refine List.isChain_iff_getElem.mpr fun i hi hc => ?_
  have := h _ (List.getElem_mem hi)
  rw [hc.2] at this
  cases this

/-- A line end that is not cut joins what is before it and what is behind it. -/
theorem uncut_line_iff {before rest : List Mark} {stop : Mark}
    (hbefore : ∀ x ∈ before, x.isLf = false)
    (hstop : stop.isLf = true)
    (hcut : ¬ ((before.map Prod.fst).getLast? = some cr ∧ stop.2 = true)) :
    Uncut (before ++ stop :: rest) ↔ Uncut rest := by
  have hlf : stop.1 = lf := by simpa [Mark.isLf] using hstop
  have hother : Uncut before := uncut_of_no_lf hbefore
  unfold Uncut at hother ⊢
  rw [List.isChain_append, List.isChain_cons]
  constructor
  · exact fun h => h.2.1.2
  · intro h
    refine ⟨hother, ⟨fun y _ hc => ?_, h⟩, fun x hx y hy hc => ?_⟩
    · rw [hlf] at hc
      exact absurd hc.1 (by decide)
    · obtain rfl : stop = y := by simpa using hy
      refine hcut ⟨?_, by rw [hc.2]⟩
      rw [List.getLast?_map, hx, ← hc.1]
      rfl

/-- A stream that contains a cut line end is cut. -/
theorem not_uncut {before rest : List Mark} {stop : Mark} (hstop : stop.isLf = true)
    (hcut : (before.map Prod.fst).getLast? = some cr ∧ stop.2 = true) :
    ¬ Uncut (before ++ stop :: rest) := by
  intro h
  obtain ⟨x, hx, hcr⟩ : ∃ x, before.getLast? = some x ∧ x.1 = cr := by
    rw [List.getLast?_map] at hcut
    exact Option.map_eq_some_iff.mp hcut.1
  refine (List.isChain_append.mp h).2.2 x hx stop rfl ⟨hcr, ?_⟩
  exact Prod.ext (by simpa [Mark.isLf] using hstop) hcut.2

/-- The three ways in which the reading of a line can go on a stream: it is too long, the
stream ends, or there is a line end. -/
inductive LineCase (m : List Mark) : Prop
  | long (marked : (markedLine [] m).1 = tooLongLine)
      (taken : takeLine (m.map Prod.fst) = (tooLongLine, m.map Prod.fst))
  | last (none : ∀ x ∈ m, x.isLf = false) (marked : markedLine [] m = ([], []))
      (taken : takeLine (m.map Prod.fst) = ([], []))
  | line (before : List Mark) (stop : Mark) (after : List Mark) (eq : m = before ++ stop :: after)
      (isLf : stop.isLf = true) (first : ∀ x ∈ before, x.isLf = false)
      (fits : (stripCr (before.map Prod.fst)).length ≤ maxHeaderSize)
      (taken : takeLine (m.map Prod.fst) = (stripCr (before.map Prod.fst), after.map Prod.fst))
      (marked : ¬ ((before.map Prod.fst).getLast? = some cr ∧ stop.2 = true) →
        markedLine [] m = (stripCr (before.map Prod.fst), after))
      (cut : (before.map Prod.fst).getLast? = some cr ∧ stop.2 = true →
        (stripCr (before.map Prod.fst)).length < (markedLine [] m).1.length)

/-- Every text has one of the cases. -/
theorem lineCase (m : List Mark) : LineCase m := by
  have hsplit : splitFirst (· == lf) (m.map Prod.fst) = (splitFirst Mark.isLf m).map
      fun (before, x, after) => (before.map Prod.fst, x.1, after.map Prod.fst) :=
    splitFirst_map (· == lf) Prod.fst m
  rcases hm : splitFirst Mark.isLf m with _ | ⟨before, stop, after⟩
  · rw [hm] at hsplit
    by_cases hlong : maxHeaderSize < m.length
    · refine .long ?_ ?_
      · simp [markedLine, hm, hlong]
      · simp [takeLine, hsplit, hlong]
    · refine .last (splitFirst_eq_none_iff.mp hm) ?_ ?_
      · simp [markedLine, hm, hlong]
      · simp [takeLine, hsplit, hlong]
  · rw [hm] at hsplit
    obtain ⟨heq, hlf, hbefore⟩ := splitFirst_eq_some_iff.mp hm
    have hle := stripCr_length_le (before.map Prod.fst)
    -- What `read_line` makes of the line is at least as long as what it should be.
    have hresult : (stripCr (before.map Prod.fst)).length ≤ (if stop.2 then before.map Prod.fst
        else stripCr (before.map Prod.fst)).length := by
      split
      · exact hle
      · exact le_rfl
    by_cases hlong : maxHeaderSize < (stripCr (before.map Prod.fst)).length
    · refine .long ?_ ?_
      · simp only [markedLine, hm, List.nil_append]
        rw [if_pos (lt_of_lt_of_le hlong hresult)]
      · simp [takeLine, hsplit, hlong]
    · refine .line before stop after heq hlf hbefore (not_lt.mp hlong) ?_ (fun hcut => ?_)
        fun hcut => ?_
      · simp only [takeLine, hsplit, Option.map_some, if_neg hlong]
      · have hsame : (if stop.2 then before.map Prod.fst else stripCr (before.map Prod.fst)) =
            stripCr (before.map Prod.fst) := by
          split
          · rw [stripCr, if_neg fun hcr => hcut ⟨hcr, ‹_›⟩]
          · rfl
        simp only [markedLine, hm, List.nil_append, hsame, if_neg hlong]
      · have hstrip : (stripCr (before.map Prod.fst)).length < (before.map Prod.fst).length := by
          have hne : before.map Prod.fst ≠ [] := by
            intro hnil
            rw [hnil] at hcut
            cases hcut.1
          rw [stripCr, if_pos hcut.1, List.length_dropLast]
          have := List.length_pos_iff.mpr hne
          omega
        simp only [markedLine, hm, List.nil_append, hcut.2, if_true]
        split
        · rw [tooLongLine_length]; omega
        · exact hstrip

/-! ### The header loop -/

theorem headerStep_nil (headerBytes : Nat) (head : Head) :
    headerStep headerBytes head [] = .inl { head with ending := .complete } := by
  simp [headerStep]

/-- A line that is too long for `read_line` is too long for the header. -/
theorem headerStep_long (headerBytes : Nat) (head : Head) {line : Bytes}
    (h : maxHeaderSize < line.length) : headerStep headerBytes head line =
      .inl { head with headerLines := head.headerLines ++ [line], ending := .tooLarge } := by
  have hne : line ≠ [] := by rintro rfl; exact absurd h (Nat.not_lt_zero _)
  have hlong : maxHeaderSize < headerBytes + (line.length + 2) := by omega
  simp [headerStep, hne, hlong]

/-- The head after one round, whether the loop ends or goes on. -/
def stepHead : Head ⊕ (Nat × Head) → Head := Sum.elim id Prod.snd

/-- A line that is not empty is recorded, and the request line is never touched. -/
theorem headerStep_lines (headerBytes : Nat) (head : Head) {line : Bytes} (hne : line ≠ []) :
    (stepHead (headerStep headerBytes head line)).headerLines = head.headerLines ++ [line] ∧
    (stepHead (headerStep headerBytes head line)).requestLine = head.requestLine := by
  simp only [headerStep, List.isEmpty_iff, if_neg hne]
  split
  · exact ⟨rfl, rfl⟩
  · split
    · exact ⟨rfl, rfl⟩
    · split <;> exact ⟨rfl, rfl⟩
    · exact ⟨rfl, rfl⟩

section Loop

variable {r : σ → Bytes × σ}

/-- The loop only adds header lines. -/
theorem headerLoop_lines (fuel : Nat) : ∀ (headerBytes : Nat) (head : Head) (c : σ),
    head.headerLines <+: (headerLoop r headerBytes head c fuel).1.headerLines ∧
    (headerLoop r headerBytes head c fuel).1.requestLine = head.requestLine := by
  induction fuel with
  | zero => exact fun _ _ _ => ⟨List.prefix_rfl, rfl⟩
  | succ _ ih =>
    intro headerBytes head c
    unfold headerLoop
    by_cases hne : (r c).1 = []
    · rw [hne, headerStep_nil]
      exact ⟨List.prefix_rfl, rfl⟩
    · have hlines := headerStep_lines headerBytes head hne
      rcases hstep : headerStep headerBytes head (r c).1 with head' | ⟨headerBytes', head'⟩ <;>
        rw [hstep] at hlines
      · exact ⟨hlines.1 ▸ List.prefix_append head.headerLines _, hlines.2⟩
      · obtain ⟨hmore, hrequest⟩ := ih headerBytes' head' (r c).2
        have hfirst : head.headerLines <+: head'.headerLines :=
          hlines.1 ▸ List.prefix_append head.headerLines _
        exact ⟨hfirst.trans hmore, hrequest.trans hlines.2⟩

/-- The first line that the loop reads is the first that it adds. -/
theorem headerLoop_next (fuel headerBytes : Nat) (head : Head) (c : σ) :
    (headerLoop r headerBytes head c (fuel + 1)).1.headerLines[head.headerLines.length]? =
      if (r c).1 = [] then none else some (r c).1 := by
  unfold headerLoop
  split_ifs with hne
  · rw [hne, headerStep_nil]
    simp
  · have hlines := headerStep_lines headerBytes head hne
    rcases hstep : headerStep headerBytes head (r c).1 with head' | ⟨headerBytes', head'⟩ <;>
      rw [hstep] at hlines
    · have hfirst : head'.headerLines = head.headerLines ++ [(r c).1] := hlines.1
      simp [hfirst]
    · obtain ⟨_, hmore⟩ := (headerLoop_lines (r := r) fuel headerBytes' head' (r c).2).1
      have hfirst : head'.headerLines = head.headerLines ++ [(r c).1] := hlines.1
      simp only
      rw [← hmore, hfirst]
      simp

/-- With fuel for every byte the loop ends by itself. -/
theorem headerLoop_fuel {valid : σ → Prop} (size : σ → Nat)
    (hr : ∀ c, valid c → (r c).1 ≠ [] → (r c).1.length ≤ maxHeaderSize →
      valid (r c).2 ∧ size (r c).2 < size c) (fuel : Nat) :
    ∀ (fuel' headerBytes : Nat) (head : Head) (c : σ), valid c → size c < fuel → size c < fuel' →
      headerLoop r headerBytes head c fuel = headerLoop r headerBytes head c fuel' := by
  induction fuel with
  | zero => exact fun _ _ _ _ _ h => absurd h (Nat.not_lt_zero _)
  | succ _ ih =>
    intro fuel' headerBytes head c hc hfuel hfuel'
    obtain ⟨fuel', rfl⟩ := Nat.exists_eq_succ_of_ne_zero (Nat.ne_of_gt (Nat.zero_lt_of_lt hfuel'))
    unfold headerLoop
    by_cases hne : (r c).1 = []
    · rw [hne, headerStep_nil]
    by_cases hlong : (r c).1.length ≤ maxHeaderSize
    · obtain ⟨hvalid, _⟩ := hr c hc hne hlong
      rcases headerStep headerBytes head (r c).1 with head' | ⟨headerBytes', head'⟩
      · rfl
      · exact ih fuel' headerBytes' head' _ hvalid (by omega) (by omega)
    · rw [headerStep_long headerBytes head (not_le.mp hlong)]

end Loop

/-! ### Cut and uncut heads -/

/-- How the reading of a head off the marked stream `m` compares with the reading off its
bytes: they agree exactly when the line ends of the head are not cut. -/
structure Compare (m : List Mark) (taken : Head × Bytes) (marked : Head × List Mark) : Prop where
  le : taken.2.length ≤ m.length
  same : Uncut (m.take (m.length - taken.2.length)) → marked.1 = taken.1 ∧
    (taken.1.ending = .complete → marked.2.map Prod.fst = taken.2)
  uncut : marked.1 = taken.1 → Uncut (m.take (m.length - taken.2.length))

variable {m before after : List Mark} {stop : Mark} {taken : Head × Bytes}
  {marked : Head × List Mark}

/-- Nothing is read. -/
theorem Compare.stay (hlen : taken.2.length = m.length) (hhead : marked.1 = taken.1)
    (hrest : taken.1.ending = .complete → marked.2.map Prod.fst = taken.2) :
    Compare m taken marked where
  le := hlen.le
  same _ := ⟨hhead, hrest⟩
  uncut _ := by simp [hlen, Uncut]

theorem take_line {n : Nat} (hn : n ≤ after.length) :
    (before ++ stop :: after).take ((before ++ stop :: after).length - n) =
      before ++ stop :: after.take (after.length - n) := by
  have hlen : (before ++ stop :: after).length - n = before.length + (after.length - n + 1) := by
    simp only [List.length_append, List.length_cons]
    omega
  rw [hlen, List.take_length_add_append, List.take_succ_cons]

/-- A line whose end is in one piece. -/
theorem Compare.line (hstop : stop.isLf = true) (hbefore : ∀ x ∈ before, x.isLf = false)
    (hcut : ¬ ((before.map Prod.fst).getLast? = some cr ∧ stop.2 = true))
    (h : Compare after taken marked) : Compare (before ++ stop :: after) taken marked where
  le := h.le.trans (by simp only [List.length_append, List.length_cons]; omega)
  same hu := h.same ((uncut_line_iff hbefore hstop hcut).mp (take_line h.le ▸ hu))
  uncut heq := by
    rw [take_line h.le]
    exact (uncut_line_iff hbefore hstop hcut).mpr (h.uncut heq)

/-- A line whose end is cut. -/
theorem Compare.cut (hstop : stop.isLf = true)
    (hcut : (before.map Prod.fst).getLast? = some cr ∧ stop.2 = true)
    (hle : taken.2.length ≤ after.length) (hne : marked.1 ≠ taken.1) :
    Compare (before ++ stop :: after) taken marked where
  le := hle.trans (by simp only [List.length_append, List.length_cons]; omega)
  same hu := absurd (take_line hle ▸ hu) (not_uncut hstop hcut)
  uncut heq := absurd heq hne

/-- The two header loops, in step. -/
theorem headerLoop_compare (fuel : Nat) : ∀ (headerBytes : Nat) (head : Head) (m : List Mark),
    Compare m (headerLoop takeLine headerBytes head (m.map Prod.fst) fuel)
      (headerLoop (markedLine []) headerBytes head m fuel) := by
  induction fuel with
  | zero => exact fun _ _ m => .stay (by simp [headerLoop]) rfl fun _ => rfl
  | succ fuel ih =>
    intro headerBytes head m
    cases lineCase m with
    | long hmarked htaken =>
      have hlong : maxHeaderSize < tooLongLine.length := by rw [tooLongLine_length]; omega
      simp only [headerLoop, htaken, hmarked, headerStep_long headerBytes head hlong]
      exact .stay (by simp) rfl nofun
    | last hnone hmarked htaken =>
      simp only [headerLoop, htaken, hmarked, headerStep_nil]
      refine ⟨Nat.zero_le _, fun _ => ⟨rfl, fun _ => rfl⟩, fun _ => ?_⟩
      simpa using uncut_of_no_lf hnone
    | line before stop after heq hlf hfirst _ htaken hmarked hcut =>
      by_cases hc : (before.map Prod.fst).getLast? = some cr ∧ stop.2 = true
      · -- The first line to be recorded is another one, or there should be none.
        have hne : (headerLoop (markedLine []) headerBytes head m (fuel + 1)).1 ≠
            (headerLoop takeLine headerBytes head (m.map Prod.fst) (fuel + 1)).1 := by
          intro hsame
          have hnext := headerLoop_next (r := markedLine []) fuel headerBytes head m
          rw [hsame, headerLoop_next, htaken] at hnext
          have hlt := hcut hc
          split_ifs at hnext with h1 h2
          · simp [h2] at hlt
          · rw [← Option.some.inj hnext] at hlt
            exact absurd hlt (lt_irrefl _)
        subst heq
        refine .cut hlf hc ?_ hne
        simp only [headerLoop, htaken]
        rcases headerStep headerBytes head (stripCr (before.map Prod.fst)) with
          head' | ⟨headerBytes', head'⟩
        · simp
        · exact (ih headerBytes' head' after).le
      · have hsame := hmarked hc
        simp only [headerLoop, htaken, hsame]
        subst heq
        refine .line hlf hfirst hc ?_
        rcases headerStep headerBytes head (stripCr (before.map Prod.fst)) with
          head' | ⟨headerBytes', head'⟩
        · exact .stay (by simp) rfl fun _ => rfl
        · exact ih headerBytes' head' after

/-- The request line is what was read first. -/
theorem readHead_requestLine {r : σ → Bytes × σ} (c : σ) (fuel : Nat) :
    (readHead r c fuel).1.requestLine = (r c).1 := by
  simp only [readHead]
  split
  · rfl
  · split
    · rfl
    · exact (headerLoop_lines fuel _ _ _).2

theorem requestTarget_tooLongLine : requestTarget tooLongLine = none := by
  have hnone : splitFirst (· == space) tooLongLine = none :=
    splitFirst_eq_none_iff.mpr fun b hb => by
      rw [List.eq_of_mem_replicate hb]
      rfl
  rw [requestTarget, hnone]

/-- And the request line before them. -/
theorem readHead_compare (m : List Mark) (fuel : Nat) :
    Compare m (readHead takeLine (m.map Prod.fst) fuel) (readHead (markedLine []) m fuel) := by
  cases lineCase m with
  | long hmarked htaken =>
    have hne : tooLongLine.isEmpty = false := by rw [tooLongLine, List.replicate_succ]; rfl
    simp only [readHead, htaken, hmarked, hne, requestTarget_tooLongLine]
    exact .stay (by simp) rfl nofun
  | last hnone hmarked htaken =>
    simp only [readHead, htaken, hmarked]
    refine ⟨Nat.zero_le _, fun _ => ⟨rfl, fun _ => rfl⟩, fun _ => ?_⟩
    simpa using uncut_of_no_lf hnone
  | line before stop after heq hlf hfirst _ htaken hmarked hcut =>
    by_cases hc : (before.map Prod.fst).getLast? = some cr ∧ stop.2 = true
    · have hne :
          (readHead (markedLine []) m fuel).1 ≠ (readHead takeLine (m.map Prod.fst) fuel).1 := by
        intro hsame
        have hline := readHead_requestLine (r := markedLine []) m fuel
        rw [hsame, readHead_requestLine, htaken] at hline
        have hlt := hcut hc
        rw [← hline] at hlt
        exact lt_irrefl _ hlt
      subst heq
      refine .cut hlf hc ?_ hne
      simp only [readHead, htaken]
      split
      · simp
      · split
        · simp
        · exact (headerLoop_compare fuel _ _ after).le
    · simp only [readHead, htaken, hmarked hc]
      subst heq
      refine .line hlf hfirst hc ?_
      split
      · exact .stay (by simp) rfl fun _ => rfl
      · split
        · exact .stay (by simp) rfl fun _ => rfl
        · exact headerLoop_compare fuel _ _ after

/-! ### The socket -/

/-- What the reading of a head leaves on a socket, next to what it leaves on the marked
stream. A head that is answered with an error leaves nothing to compare. -/
structure Reads (socket : Head × Connection) (marked : Head × List Mark) : Prop where
  head : socket.1 = marked.1
  rest : socket.1.ending = .complete → socket.2.marks = marked.2 ∧ Delivered socket.2.reads

/-- Reading in pieces is reading marks. -/
theorem headerLoop_reads (fuel : Nat) : ∀ (headerBytes : Nat) (head : Head) (c : Connection),
    Delivered c.reads → Reads (headerLoop readLine headerBytes head c fuel)
      (headerLoop (markedLine []) headerBytes head c.marks fuel) := by
  induction fuel with
  | zero => exact fun _ _ _ h => ⟨rfl, fun _ => ⟨rfl, h⟩⟩
  | succ _ ih =>
    intro headerBytes head c h
    obtain ⟨hline, hrest⟩ := readLine_eq h
    unfold headerLoop
    rw [← hline]
    by_cases hlong : (readLine c).1.length ≤ maxHeaderSize
    · obtain ⟨hmarks, hdelivered⟩ := hrest hlong
      rcases headerStep headerBytes head (readLine c).1 with head' | ⟨headerBytes', head'⟩
      · exact ⟨rfl, fun _ => ⟨hmarks, hdelivered⟩⟩
      · simp only
        rw [← hmarks]
        exact ih headerBytes' head' _ hdelivered
    · rw [headerStep_long headerBytes head (not_le.mp hlong)]
      exact ⟨rfl, nofun⟩

/-- A request line with two spaces is not too long. -/
theorem readLine_fits (h : Delivered c.reads) {target : Bytes × Bytes}
    (htarget : requestTarget (readLine c).1 = some target) :
    (readLine c).1.length ≤ maxHeaderSize := by
  obtain ⟨hline, -⟩ := readLine_eq h
  rw [hline] at htarget ⊢
  rcases markedLine_fits [] c.marks with htoo | hfits
  · rw [htoo, requestTarget_tooLongLine] at htarget
    cases htarget
  · exact hfits

/-- For a whole head. -/
theorem readHead_reads (h : Delivered c.reads) (fuel : Nat) :
    Reads (readHead readLine c fuel) (readHead (markedLine []) c.marks fuel) := by
  obtain ⟨hline, hrest⟩ := readLine_eq h
  simp only [readHead]
  rw [← hline]
  split
  · exact ⟨rfl, nofun⟩
  · rcases htarget : requestTarget (readLine c).1 with _ | _
    · exact ⟨rfl, nofun⟩
    · obtain ⟨hmarks, hdelivered⟩ := hrest (readLine_fits h htarget)
      simp only
      rw [← hmarks]
      exact headerLoop_reads fuel _ _ _ hdelivered

/-- A line that is not empty takes bytes off the stream. -/
theorem markedLine_shorter {m : List Mark} (hne : (markedLine [] m).1 ≠ []) :
    (markedLine [] m).2.length < m.length := by
  rcases hs : splitFirst Mark.isLf m with _ | ⟨before, stop, after⟩
  · simp only [markedLine, hs] at hne ⊢
    split at hne
    · rename_i hlong
      rw [if_pos hlong]
      simp only [List.length_nil] at hlong ⊢
      omega
    · exact absurd rfl hne
  · obtain ⟨rfl, -, -⟩ := splitFirst_eq_some_iff.mp hs
    simp only [markedLine, hs, List.length_append, List.length_cons]
    generalize (if stop.2 = true then [] ++ before.map Prod.fst
      else stripCr ([] ++ before.map Prod.fst)) = result
    split
    · simp only [List.length_nil]; omega
    · simp only; omega

/-- The fuel of `handleConnection` is enough: more of it changes nothing. -/
theorem handleConnection_fuel (h : Delivered reads) {fuel : Nat}
    (hfuel : reads.flatten.length < fuel) :
    handleWith readLine readBody ⟨[], reads⟩ fuel = handleConnection reads := by
  have hshorter : ∀ c : Connection, Delivered c.reads → (readLine c).1 ≠ [] →
      (readLine c).1.length ≤ maxHeaderSize →
      Delivered (readLine c).2.reads ∧ (readLine c).2.marks.length < c.marks.length := by
    intro c hc hne hle
    obtain ⟨hline, hrest⟩ := readLine_eq hc
    obtain ⟨hmarks, hdelivered⟩ := hrest hle
    exact ⟨hdelivered, hmarks ▸ markedLine_shorter (hline ▸ hne)⟩
  have hsize : (Connection.mk [] reads).marks.length = reads.flatten.length := by
    rw [← List.length_map (f := Prod.fst), Connection.marks_fst, List.nil_append]
  have hhead : readHead readLine ⟨[], reads⟩ fuel =
      readHead readLine ⟨[], reads⟩ (reads.flatten.length + 1) := by
    simp only [readHead]
    split
    · rfl
    · rename_i hne
      rcases htarget : requestTarget (readLine ⟨[], reads⟩).1 with _ | _
      · rfl
      · obtain ⟨hdelivered, hlt⟩ := hshorter ⟨[], reads⟩ h (by simpa using hne)
          (readLine_fits h htarget)
        rw [hsize] at hlt
        exact headerLoop_fuel (fun c => c.marks.length) hshorter _ _ _ _ _ hdelivered
          (by omega) (by omega)
  rw [handleConnection, handleWith, handleWith, hhead]

/-- A read of the body takes a part of the stream that is not empty. -/
theorem readSome_split (h : ∀ r ∈ reads, r ≠ []) {room : Nat} (hroom : 0 < room) :
    (readSome room reads).1 ++ (readSome room reads).2.flatten = reads.flatten ∧
    (readSome room reads).1.length ≤ room ∧ (∀ r ∈ (readSome room reads).2, r ≠ []) ∧
    ((readSome room reads).1 = [] → reads = []) := by
  cases reads with
  | nil => simp [readSome]
  | cons r reads =>
    have hr := h r List.mem_cons_self
    have hrest : ∀ r ∈ reads, r ≠ [] := fun r hr => h r (List.mem_cons_of_mem _ hr)
    simp only [readSome]
    split
    · exact ⟨rfl, ‹_›, hrest, fun hnil => absurd hnil hr⟩
    · rename_i hlong
      refine ⟨?_, by simp, ?_, fun hnil => ?_⟩
      · rw [List.flatten_cons, ← List.append_assoc, List.take_append_drop, List.flatten_cons]
      · intro r' hr'
        rcases List.mem_cons.mp hr' with rfl | hr'
        · rw [ne_eq, List.drop_eq_nil_iff]
          exact hlong
        · exact hrest r' hr'
      · rw [List.take_eq_nil_iff] at hnil
        exact absurd hnil (by simp [hr]; omega)

/-- The loop of `read_body` takes the missing bytes off the stream, however it is cut. -/
theorem readBodyLoop_eq (contentLength fuel : Nat) : ∀ (body : Bytes) (reads : List Bytes),
    (∀ r ∈ reads, r ≠ []) → body.length ≤ contentLength → contentLength - body.length < fuel →
      readBodyLoop contentLength body reads fuel =
        if contentLength ≤ (body ++ reads.flatten).length then
          some ((body ++ reads.flatten).take contentLength) else none := by
  induction fuel with
  | zero => exact fun _ _ _ _ h => absurd h (Nat.not_lt_zero _)
  | succ _ ih =>
    intro body reads hreads hle hfuel
    unfold readBodyLoop
    by_cases hmore : body.length < contentLength
    · rw [if_pos hmore]
      have hroom : 0 < min (contentLength - body.length) 4096 := by omega
      obtain ⟨hsplit, hlen, hrest, hnil⟩ := readSome_split hreads hroom
      rcases hread : readSome (min (contentLength - body.length) 4096) reads with
        ⟨_ | ⟨b, chunk⟩, reads'⟩
      · rw [hread] at hnil
        simp only [hnil rfl, List.flatten_nil, List.append_nil]
        rw [if_neg (not_le.mpr hmore)]
      · rw [hread] at hsplit hlen hrest
        have hlonger : (body ++ b :: chunk).length = body.length + (chunk.length + 1) := by simp
        simp only [List.length_cons] at hlen
        simp only
        rw [ih (body ++ b :: chunk) reads' hrest (by omega) (by omega), List.append_assoc, hsplit]
    · obtain rfl : body.length = contentLength := le_antisymm hle (not_lt.mp hmore)
      rw [if_neg hmore, if_pos (by simp), List.take_left]

/-- The body does not depend on the pieces. -/
theorem readBody_eq (h : Delivered c.reads) (contentLength : Nat) :
    readBody contentLength c = takeBody contentLength (c.marks.map Prod.fst) := by
  unfold readBody takeBody
  rw [Connection.marks_fst]
  split
  · rfl
  · rw [readBodyLoop_eq contentLength _ _ _ (fun r hr => (h r hr).1)
      (List.length_take_le _ _) (Nat.lt_succ_of_le (Nat.sub_le _ _))]
    -- A buffer that holds the whole body already is cut off, and nothing is read.
    rcases Nat.le_total contentLength c.buf.length with hle | hle
    · have hlen : (c.buf.take contentLength).length = contentLength := by simp [hle]
      rw [if_pos (by rw [List.length_append]; omega), if_pos (by rw [List.length_append]; omega),
        List.take_append_of_le_length hlen.ge, List.take_append_of_le_length hle, List.take_take,
        min_self]
    · rw [List.take_of_length_le hle]

/-- The branch depends on the rest of the connection through the body only. -/
theorem dispatch_congr {τ : Type} {rb : Nat → σ → Option Bytes} {rb' : Nat → τ → Option Bytes}
    {head : Head} {c : σ} {c' : τ} (h : head.ending = .complete → ∀ n, rb n c = rb' n c') :
    dispatch rb head c = dispatch rb' head c' := by
  unfold dispatch
  split
  · rfl
  · rfl
  · rfl
  · rfl
  · rename_i hend
    rw [h hend]

/-! ### Framing -/

/-- A connection handles the request of the byte stream exactly when the line ends of the
request head come in one piece each. -/
theorem handleConnection_eq_iff (h : Delivered reads) :
    handleConnection reads = frame reads.flatten ↔ Intact reads := by
  have hmarks : (Connection.mk [] reads).marks = markReads reads := rfl
  have hlen : reads.flatten.length = (markReads reads).length := by
    rw [← markReads_fst, List.length_map]
  obtain ⟨hhead, hrest⟩ := readHead_reads (c := ⟨[], reads⟩) h (reads.flatten.length + 1)
  obtain ⟨-, hsame, huncut⟩ := readHead_compare (markReads reads) (reads.flatten.length + 1)
  rw [markReads_fst, ← hlen] at hsame huncut
  rw [hmarks] at hhead hrest
  constructor
  · intro heq
    exact huncut (hhead ▸ congrArg Prod.fst heq)
  · intro hintact
    obtain ⟨heq, hbytes⟩ := hsame hintact
    have hboth := hhead.trans heq
    refine Prod.ext hboth ?_
    simp only [handleConnection, frame, handleWith]
    rw [hboth]
    refine dispatch_congr fun hend n => ?_
    obtain ⟨hstate, hdelivered⟩ := hrest (hboth ▸ hend)
    rw [readBody_eq hdelivered, hstate, hbytes hend]

/-- Two ways of cutting one byte stream into reads give the same request line, the same
header lines, the same content length, the same body and the same branch, if neither cuts a
line end of the request head. A way that does cut one gives another result than the stream. -/
theorem framing {stream : Bytes} {reads reads' : List Bytes} (h : Delivered reads)
    (h' : Delivered reads') (hstream : reads.flatten = stream)
    (hstream' : reads'.flatten = stream) :
    (Intact reads → Intact reads' → handleConnection reads = handleConnection reads') ∧
    (handleConnection reads = frame stream ↔ Intact reads) := by
  subst hstream
  refine ⟨fun hi hi' => ?_, handleConnection_eq_iff h⟩
  rw [(handleConnection_eq_iff h).mpr hi, (handleConnection_eq_iff h').mpr hi', hstream']

/-- A chat request in two reads, cut between the headers and the body. -/
def chatReads : List Bytes :=
  [bytes "POST /v1/chat/completions HTTP/1.1\r\nContent-Length: 2\r\n\r\n", bytes "\x7b\x7d"]

/-- The same request with a cut inside the line end behind its headers. -/
def chatReadsCut : List Bytes :=
  [bytes "POST /v1/chat/completions HTTP/1.1\r\nContent-Length: 2\r\n\r", bytes "\n\x7b\x7d"]

theorem framing_chatReads : (Intact chatReads → Intact [chatReads.flatten] →
      handleConnection chatReads = handleConnection [chatReads.flatten]) ∧
    (handleConnection chatReads = frame chatReads.flatten ↔ Intact chatReads) :=
  framing (by with_unfolding_all decide) (by with_unfolding_all decide) rfl (by simp)

/-- One read more, and the body is taken for a header line: the handler is not called. -/
theorem framing_depends_on_reads :
    chatReads.flatten = chatReadsCut.flatten ∧ Delivered chatReads ∧ Delivered chatReadsCut ∧
    (handleConnection chatReads).2 = .chat (bytes "\x7b\x7d") ∧
    (handleConnection chatReadsCut).2 = .badRequest ∧
    (handleConnection chatReadsCut).1.headerLines = [bytes "Content-Length: 2", [cr]] := by
  with_unfolding_all decide

end CcInfer.Http
