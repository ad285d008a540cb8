import CcInfer.Proofs.Tokenizer.RoundTrip
import Mathlib.Data.List.TakeWhile

/-!
# `CcInfer.Proofs.Tokenizer.Boundary`: special tokens as boundaries of `encode`

A text `a ++ s ++ b` with a special token `s` in the middle is cut into the pieces of `a`, the
token, and the pieces of `b`, if the scanner stops at the token. Behind the token nothing looks
back: the loop on the whole text does what it does on `b`, at positions that are shifted
(`cut_shift`). In front of it the loop looks ahead, for the blanks of a run and for what follows
a run, and at the token that comes to the same as at the end of `a` (`cut_front`).
-/

set_option autoImplicit false

namespace CcInfer.ByteLevelBpeTokenizer

variable {a rest token : Bytes} {pos : Nat} {t : ByteLevelBpeTokenizer}
variable {special special' : Nat → Bool} {front s b : Bytes} {fuel : Nat}

/-! ### Behind the token -/

theorem getElem?_shift (front rest : Bytes) (pos : Nat) :
    (front ++ rest)[front.length + pos]? = rest[pos]? := by
  rw [List.getElem?_append_right (Nat.le_add_right _ _), Nat.add_sub_cancel_left]

theorem runEnd_shift (p : UInt8 → Bool) (front rest : Bytes) (pos : Nat) :
    runEnd p (front ++ rest) (front.length + pos) = front.length + runEnd p rest pos := by
  rw [runEnd, runEnd, List.drop_length_add_append, Nat.add_assoc]

theorem segmentAt_shift (front rest : Bytes) (first last : Nat) :
    segmentAt (front ++ rest) (front.length + first) (front.length + last) =
      segmentAt rest first last := by
  unfold segmentAt
  rw [List.drop_length_add_append, Nat.add_sub_add_left]
  simp only [Nat.add_le_add_iff_left]

theorem hasNext_shift (rest : Bytes)
    (h : ∀ pos, special (front.length + pos) = special' pos) (k fuel : Nat) :
    hasNext special (front ++ rest) (front.length + k) fuel = hasNext special' rest k fuel := by
  induction fuel generalizing k with
  | zero => rfl
  | succ _ ih => rw [hasNext, hasNext, getElem?_shift, h, Nat.add_assoc, ih]

section Behind

variable {special special' : Nat → Option Bytes} (rest : Bytes)
  (h : ∀ pos, special (front.length + pos) = special' pos)
include h

/-- The scanner behind a front. -/
theorem nextPos_shift (pos : Nat) : nextPos special (front ++ rest) (front.length + pos) =
      front.length + nextPos special' rest pos := by
  unfold nextPos
  rw [getElem?_shift, h, runEnd_shift, runEnd_shift]
  split
  · rfl
  · split
    · exact Nat.add_assoc _ _ _
    · split
      · rfl
      · split <;> rfl

/-- One round behind a front. -/
theorem roundCut_shift (pos segmentStart : Nat) {c : UInt8} (hc : rest[pos]? = some c) :
    roundCut special (front ++ rest) (front.length + pos) (front.length + segmentStart) c =
      ((roundCut special' rest pos segmentStart c).1,
        front.length + (roundCut special' rest pos segmentStart c).2) := by
  have hahead : ∀ k fuel, hasNext (fun k => (special k).isSome) (front ++ rest) (front.length + k)
      fuel = hasNext (fun k => (special' k).isSome) rest k fuel :=
    hasNext_shift rest fun pos => congrArg Option.isSome (h pos)
  simp only [roundCut, h, runEnd_shift, segmentAt_shift, hahead, List.length_append,
    Nat.add_sub_add_left]
  cases special' pos with
  | some => simp only [Nat.add_assoc]
  | none =>
    simp only
    split
    · rfl
    · split
      · rename_i hspace
        have hrun := lt_runEnd hc hspace
        split
        · rw [Nat.add_sub_assoc (by omega), segmentAt_shift]
        · rw [segmentAt_shift]
      · rfl

/-- The loop on a text with something in front of it. -/
theorem cut_shift (pos segmentStart fuel : Nat) :
    cut special (front ++ rest) (front.length + pos) (front.length + segmentStart) fuel =
      cut special' rest pos segmentStart fuel := by
  have hend : (front ++ rest).length = front.length + rest.length := List.length_append
  induction fuel generalizing pos segmentStart with
  | zero => rw [cut, cut, hend, segmentAt_shift]
  | succ _ ih =>
    rw [cut, cut, getElem?_shift]
    cases hc : rest[pos]? with
    | none =>
      simp only
      rw [hend, segmentAt_shift]
    | some =>
      simp only [roundCut_shift rest h pos segmentStart hc, nextPos_shift rest h, ih]

end Behind

/-! ### In front of the token -/

/-- A run of bytes of one kind, which begins in `a` where a round finds no special token, goes on
into `s`. -/
def JoinsRun (special : Nat → Option Bytes) (a s : Bytes) : Prop :=
  ∃ pos c y, Visited special a pos ∧ a[pos]? = some c ∧ special pos = none ∧ s.head? = some y ∧
    (isNewline c = true ∧ isNewline y = true ∧ runEnd isNewline a pos = a.length ∨
      isSpace c = true ∧ isSpace y = true ∧ runEnd isSpace a pos = a.length)

/-- A run that does not go on into what follows ends where it ends without it. -/
theorem runEnd_front {p : UInt8 → Bool} (hpos : pos < a.length)
    (hjoin : runEnd p a pos = a.length → ∀ y, rest.head? = some y → p y = false) :
    runEnd p (a ++ rest) pos = runEnd p a pos := by
  rw [runEnd, runEnd, List.drop_append_of_le_length hpos.le, List.takeWhile_append]
  split
  · rename_i hall
    have hnone : rest.takeWhile p = [] := by
      cases rest with
      | nil => rfl
      | cons y =>
        have hend : runEnd p a pos = a.length := by
          rw [runEnd, hall, List.length_drop]
          omega
        exact List.takeWhile_cons_of_neg (by simp [hjoin hend y rfl])
    rw [hnone, List.append_nil, (List.takeWhile_prefix p).eq_of_length hall]
  · rfl

/-- A run that goes on into what follows ends there. -/
theorem lt_runEnd_front {p : UInt8 → Bool} {y : UInt8} (hpos : pos < a.length)
    (hend : runEnd p a pos = a.length) (hy : rest.head? = some y) (hp : p y = true) :
    a.length < runEnd p (a ++ rest) pos := by
  have hall : ((a.drop pos).takeWhile p).length = (a.drop pos).length := by
    rw [runEnd] at hend
    rw [List.length_drop]
    omega
  obtain ⟨rest, rfl⟩ := List.head?_eq_some_iff.mp hy
  rw [runEnd, List.drop_append_of_le_length hpos.le, List.takeWhile_append, if_pos hall,
    List.takeWhile_cons_of_pos hp, List.length_append, List.length_drop, List.length_cons]
  omega

theorem segmentAt_front (a rest : Bytes) {first last : Nat} (h : last ≤ a.length) :
    segmentAt (a ++ rest) first last = segmentAt a first last := by
  unfold segmentAt
  split
  · rfl
  · rw [List.drop_append_of_le_length (by omega), List.take_append_of_le_length]
    rw [List.length_drop]
    omega

/-- Looking ahead for a word, a special token right behind `a` is like the end of the text. -/
theorem hasNext_front
    (hsame : ∀ pos < a.length, special pos = special' pos) (hstop : special a.length = true)
    {k : Nat} (hk : k ≤ a.length) (hfuel : a.length < k + fuel) :
    hasNext special (a ++ rest) k fuel = hasNext special' a k (a.length - k) := by
  induction fuel generalizing k with
  | zero => omega
  | succ _ ih =>
    rcases Nat.eq_or_lt_of_le hk with rfl | hlt
    · rw [Nat.sub_self, hasNext, hasNext, hstop]
      cases (a ++ rest)[a.length]? <;> rfl
    · obtain ⟨n, hn⟩ : ∃ n, a.length - k = n + 1 := ⟨a.length - k - 1, by omega⟩
      have hnext : n = a.length - (k + 1) := by omega
      rw [hn, hasNext, hasNext, List.getElem?_append_left hlt, hsame k hlt, hnext,
        ih (by omega) (by omega)]

section Front

variable {special special' : Nat → Option Bytes}

/-- A round at a position from which no run goes on into what follows does what it does at the end
of the text, if a special token follows. -/
theorem round_front (segmentStart : Nat) {c : UInt8} (hc : a[pos]? = some c) (hrest : rest ≠ [])
    (hsame : ∀ pos < a.length, special pos = special' pos)
    (hstop : (special a.length).isSome = true)
    (hruns : ∀ p : UInt8 → Bool, p = isNewline ∨ p = isSpace → p c = true → special' pos = none →
      runEnd p a pos = a.length → ∀ y, rest.head? = some y → p y = false) :
    roundCut special (a ++ rest) pos segmentStart c = roundCut special' a pos segmentStart c ∧
      nextPos special (a ++ rest) pos = nextPos special' a pos := by
  have hlt : pos < a.length := (List.getElem?_eq_some_iff.mp hc).1
  simp only [roundCut, nextPos, List.getElem?_append_left hlt, hc, hsame pos hlt,
    segmentAt_front a rest hlt.le]
  cases hfound : special' pos with
  | some => exact ⟨rfl, rfl⟩
  | none =>
    simp only
    split
    · rename_i hnewline
      rw [runEnd_front hlt (hruns _ (.inl rfl) hnewline hfound),
        segmentAt_front a rest (runEnd_le _ hlt.le)]
      exact ⟨rfl, rfl⟩
    · split
      · rename_i hspace
        have hrun := lt_runEnd hc hspace
        have hle := runEnd_le isSpace hlt.le
        have hahead : hasNext (fun k => (special k).isSome) (a ++ rest) (runEnd isSpace a pos)
            ((a ++ rest).length - runEnd isSpace a pos) =
            hasNext (fun k => (special' k).isSome) a (runEnd isSpace a pos)
              (a.length - runEnd isSpace a pos) := by
          have hlen := List.length_pos_of_ne_nil hrest
          refine hasNext_front (fun k hk => by rw [hsame k hk]) hstop hle ?_
          rw [List.length_append]
          omega
        rw [runEnd_front hlt (hruns _ (.inr rfl) hspace hfound), hahead]
        split
        · rw [segmentAt_front a rest (by omega)]
          exact ⟨rfl, rfl⟩
        · rw [segmentAt_front a rest hle]
          exact ⟨rfl, rfl⟩
      · exact ⟨rfl, rfl⟩

/-- The loop on a text with a special token in it cuts the part in front of the token as if the text
ended there. -/
theorem cut_front (hne : ∀ pos token, special pos = some token → token ≠ [])
    (hsame : ∀ pos < a.length, special pos = special' pos)
    (hfit : ∀ pos token, special' pos = some token → token ≠ [] ∧ pos + token.length ≤ a.length)
    (hstop : special a.length = some s) (hjoin : ¬ JoinsRun special' a s)
    {segmentStart : Nat} (hvisited : Visited special' a pos) (hpos : pos ≤ a.length)
    (hfuel : (a ++ (s ++ b)).length ≤ pos + fuel) :
    cut special (a ++ (s ++ b)) pos segmentStart fuel =
      cut special' a pos segmentStart (a.length - pos) ++ .special s ::
        cut special (a ++ (s ++ b)) (a.length + s.length) (a.length + s.length)
          ((a ++ (s ++ b)).length - (a.length + s.length)) := by
  have hs : s ≠ [] := hne _ _ hstop
  have hlen : (a ++ (s ++ b)).length = a.length + (s.length + b.length) := by
    simp only [List.length_append]
  have hslen := List.length_pos_of_ne_nil hs
  induction fuel generalizing pos segmentStart with
  | zero => omega
  | succ fuel ih =>
    rcases Nat.eq_or_lt_of_le hpos with rfl | hlt
    · -- at the token
      obtain ⟨c, rest, rfl⟩ := List.exists_cons_of_ne_nil hs
      have hc : (a ++ (c :: rest ++ b))[a.length]? = some c := by simp
      conv_lhs => rw [cut, hc]
      simp only [roundCut, nextPos, hc, hstop]
      rw [Nat.sub_self, cut, segmentAt_front a _ (Nat.le_refl _), cut_fuel hne (by omega),
        List.append_assoc]
      rfl
    · obtain ⟨n, hn⟩ : ∃ n, a.length - pos = n + 1 := ⟨a.length - pos - 1, by omega⟩
      obtain ⟨c, hc⟩ : ∃ c, a[pos]? = some c := ⟨_, List.getElem?_eq_getElem hlt⟩
      have hnext := lt_nextPos (fun token h => (hfit pos token h).1) hc
      have hruns : ∀ p : UInt8 → Bool, p = isNewline ∨ p = isSpace → p c = true →
          special' pos = none → runEnd p a pos = a.length →
          ∀ y, (s ++ b).head? = some y → p y = false := by
        intro p hp hkind hfound hend y hy
        rw [List.head?_append_of_ne_nil _ hs] at hy
        refine Bool.eq_false_iff.mpr fun hpy => hjoin ⟨pos, c, y, hvisited, hc, hfound, hy, ?_⟩
        rcases hp with rfl | rfl
        · exact .inl ⟨hkind, hpy, hend⟩
        · exact .inr ⟨hkind, hpy, hend⟩
      obtain ⟨hround, hmove⟩ :=
        round_front segmentStart hc (List.append_ne_nil_of_left_ne_nil hs b) hsame
        (by rw [hstop]; rfl) hruns
      have hle := nextPos_le (fun token h => (hfit pos token h).2) hlt
      conv_lhs => rw [cut, List.getElem?_append_left hlt, hc]
      rw [hn, cut, hc]
      simp only [hround, hmove]
      rw [ih hvisited.next hle (by omega), cut_fuel (fun pos token h => (hfit pos token h).1)
        (show a.length ≤ nextPos special' a pos + n by omega), List.append_assoc]

end Front

/-! ### The special tokens of the three parts -/

theorem matches_shift (front rest : Bytes) (pos : Nat) (token : Bytes) :
    Matches (front ++ rest) (front.length + pos) token ↔ Matches rest pos token := by
  rw [Matches, Matches, List.drop_length_add_append]

/-- A match that ends in the front. -/
theorem matches_front (hpos : pos < a.length) :
    Matches a pos token ↔ Matches (a ++ rest) pos token ∧ pos + token.length ≤ a.length := by
  rw [Matches, Matches, List.drop_append_of_le_length (Nat.le_of_lt hpos)]
  constructor
  · rintro ⟨hne, hprefix⟩
    have hle := hprefix.length_le
    rw [List.length_drop] at hle
    exact ⟨⟨hne, hprefix.trans (List.prefix_append _ _)⟩, by omega⟩
  · rintro ⟨⟨hne, hprefix⟩, hle⟩
    refine ⟨hne, List.prefix_of_prefix_length_le hprefix (List.prefix_append _ _) ?_⟩
    rw [List.length_drop]
    omega

theorem special?_shift (t : ByteLevelBpeTokenizer) (front rest : Bytes) (pos : Nat) :
    t.special? (front ++ rest) (front.length + pos) = t.special? rest pos := by
  refine Option.ext fun token => ?_
  rw [special?_eq_some_iff, special?_eq_some_iff]
  simp only [matches_shift]

/-- Where no special token reaches beyond `a`, those in `a` are found as in `a` alone. -/
theorem special?_front (hpos : pos < a.length)
    (hfits : ∀ token ∈ t.specialTokenToId, Matches (a ++ rest) pos token →
      pos + token.length ≤ a.length) : t.special? (a ++ rest) pos = t.special? a pos := by
  have hmatches : ∀ token ∈ t.specialTokenToId,
      (Matches (a ++ rest) pos token ↔ Matches a pos token) := fun token hmem =>
    ⟨fun h => (matches_front hpos).mpr ⟨h, hfits token hmem h⟩,
      fun h => ((matches_front hpos).mp h).1⟩
  refine Option.ext fun token => ?_
  rw [special?_eq_some_iff, special?_eq_some_iff]
  refine and_congr_right fun hmem => and_congr (hmatches token hmem) ?_
  exact forall₂_congr fun token' hmem' => imp_congr_left (hmatches token' hmem')

theorem special?_fits
    (h : t.special? a pos = some token) : token ≠ [] ∧ pos + token.length ≤ a.length := by
  obtain ⟨-, ⟨hne, hprefix⟩, -⟩ := special?_eq_some_iff.mp h
  have hle := hprefix.length_le
  have := List.length_pos_of_ne_nil hne
  rw [List.length_drop] at hle
  exact ⟨hne, by omega⟩

/-- The text around a special token, which stands where no other one reaches over it. -/
structure Parted (t : ByteLevelBpeTokenizer) (a s b : Bytes) : Prop where
  /-- No special token starts inside `a` and ends beyond it. -/
  before : ∀ pos < a.length, ∀ token ∈ t.specialTokenToId, Matches (a ++ s ++ b) pos token →
    pos + token.length ≤ a.length
  /-- `s` is the longest special token at its place. -/
  longest : ∀ token ∈ t.specialTokenToId, Matches (a ++ s ++ b) a.length token →
    token.length ≤ s.length

/-- The pieces of the text are those of its parts. -/
theorem itemsOf_parted (h : Parted t a s b)
    (hmem : s ∈ t.specialTokenToId) (hs : s ≠ []) (hjoin : ¬ JoinsRun (t.special? a) a s) :
    t.itemsOf (a ++ s ++ b) = t.itemsOf a ++ .special s :: t.itemsOf b := by
  have hstop : t.special? (a ++ (s ++ b)) a.length = some s := by
    rw [← List.append_assoc]
    refine special?_eq_some_iff.mpr ⟨hmem, ⟨hs, ?_⟩, h.longest⟩
    rw [List.append_assoc, List.drop_left]
    exact List.prefix_append _ _
  have hfront : cut (t.special? (a ++ (s ++ b))) (a ++ (s ++ b)) 0 0 (a ++ (s ++ b)).length =
      cut (t.special? a) a 0 0 a.length ++ .special s ::
        cut (t.special? (a ++ (s ++ b))) (a ++ (s ++ b)) (a.length + s.length)
          (a.length + s.length) ((a ++ (s ++ b)).length - (a.length + s.length)) :=
    cut_front (t.special?_ne_nil _)
      (fun pos hpos => special?_front hpos fun token hmem hmatch =>
        h.before pos hpos token hmem (by rwa [List.append_assoc]))
      (fun pos token => special?_fits) hstop hjoin ⟨0, rfl⟩ (Nat.zero_le _) (Nat.le_add_left _ _)
  have hbehind : cut (t.special? (a ++ (s ++ b))) (a ++ (s ++ b)) (a.length + s.length)
      (a.length + s.length) ((a ++ (s ++ b)).length - (a.length + s.length)) =
        cut (t.special? b) b 0 0 b.length := by
    have hrest : (a ++ s ++ b).length - (a ++ s).length = b.length := by
      simp only [List.length_append, Nat.add_sub_cancel_left]
    rw [← List.append_assoc, ← List.length_append, hrest]
    exact cut_shift b (t.special?_shift (a ++ s) b) 0 0 b.length
  rw [List.append_assoc, itemsOf, hfront, hbehind, List.flatMap_append, List.flatMap_cons]
  rfl

/-! ### A run that goes on into the token -/

theorem isNewline_of_isSpace {c : UInt8} (h : isSpace c = true) : isNewline c = false := by
  simp only [isSpace, Bool.or_eq_true, beq_iff_eq] at h
  rcases h with rfl | rfl <;> rfl

section Joined

variable {special special' : Nat → Option Bytes}

/-- A round that ends inside `a` does so with more text behind it. -/
theorem nextPos_front (hpos : pos < a.length) (hsame : special pos = special' pos)
    (hlt : nextPos special' a pos < a.length) :
    nextPos special (a ++ rest) pos = nextPos special' a pos := by
  unfold nextPos at hlt ⊢
  rw [List.getElem?_append_left hpos, hsame]
  cases hc : a[pos]? with
  | none => rfl
  | some c =>
    cases hfound : special' pos with
    | some => rfl
    | none =>
      simp only [hc, hfound] at hlt ⊢
      by_cases hnewline : isNewline c = true
      · rw [if_pos hnewline] at hlt ⊢
        rw [if_pos hnewline]
        exact runEnd_front hpos fun hend => absurd hend hlt.ne
      · rw [if_neg hnewline] at hlt ⊢
        rw [if_neg hnewline]
        by_cases hspace : isSpace c = true
        · rw [if_pos hspace] at hlt ⊢
          rw [if_pos hspace]
          exact runEnd_front hpos fun hend => absurd hend hlt.ne
        · rw [if_neg hspace, if_neg hspace]

theorem visited_front (hsame : ∀ pos < a.length, special pos = special' pos)
    (h : Visited special' a pos) (hpos : pos < a.length) : Visited special (a ++ rest) pos := by
  obtain ⟨rounds, rfl⟩ := h
  induction rounds with
  | zero => exact ⟨0, rfl⟩
  | succ rounds ih =>
    rw [Function.iterate_succ_apply'] at hpos ⊢
    have hlt := le_nextPos.trans_lt hpos
    rw [← nextPos_front hlt (hsame _ hlt) hpos]
    exact (ih hlt).next

/-- No round begins at the token. -/
theorem JoinsRun.not_visited (hsame : ∀ pos < a.length, special pos = special' pos)
    (h : JoinsRun special' a s) : ¬ Visited special (a ++ (s ++ b)) a.length := by
  intro hvisited
  obtain ⟨pos, c, y, hpos, hc, hfound, hy, hrun⟩ := h
  have hlt : pos < a.length := (List.getElem?_eq_some_iff.mp hc).1
  have hhead : (s ++ b).head? = some y := by rw [List.head?_append, hy]; rfl
  have hnext : a.length < nextPos special (a ++ (s ++ b)) pos := by
    simp only [nextPos, List.getElem?_append_left hlt, hc, hsame pos hlt, hfound]
    rcases hrun with ⟨hkind, hyKind, hend⟩ | ⟨hkind, hyKind, hend⟩
    · rw [if_pos hkind]
      exact lt_runEnd_front hlt hend hhead hyKind
    · rw [isNewline_of_isSpace hkind, if_neg Bool.false_ne_true, if_pos hkind]
      exact lt_runEnd_front hlt hend hhead hyKind
  have := (visited_front hsame hpos hlt).le_or_next_le hvisited
  omega

end Joined

/-- The first bytes of the characters of a symbol, each of which stands for a byte of the text. -/
def leads (s : Bytes) : Bytes := s.filter fun c => c < 128 || 192 ≤ c

/-- One mark for each byte. -/
theorem length_leads (text : Bytes) : (leads (text.flatMap byteToStr)).length = text.length := by
  have hchar : ∀ cp < 512, (leads (utf8FromCodepoint cp)).length = 1 := by decide +kernel
  have hbyte : ∀ b : UInt8, (leads (byteToStr b)).length = 1 := by
    intro b
    obtain ⟨e, he, -, hs⟩ := mem_byteTable (byteToStr_mem b)
    rw [hs, hchar e.2 (codepoint_lt he)]
  induction text with
  | nil => rfl
  | cons _ _ ih =>
    rw [List.flatMap_cons, leads, List.filter_append, List.length_append, ← leads, ← leads, hbyte,
      ih, List.length_cons, Nat.add_comm]

/-- A byte for each byte of the text that an item stands for. -/
def Item.marks : Item → Bytes
  | .special token => token
  | .symbol s => leads s

/-- The marks of all items. -/
theorem length_marks (t : ByteLevelBpeTokenizer) (pieces : List Piece) :
    ((pieces.flatMap t.items).flatMap Item.marks).length = (textOf pieces).length := by
  induction pieces with
  | nil => rfl
  | cons piece pieces ih =>
    have htext : textOf (piece :: pieces) = piece.text ++ textOf pieces := rfl
    rw [List.flatMap_cons, List.flatMap_append, List.length_append, ih, htext, List.length_append]
    congr 1
    cases piece with
    | special => rw [items, List.flatMap_singleton, Item.marks, Piece.text]
    | segment text =>
      have hmarks : (t.items (.segment text)).flatMap Item.marks =
          leads ((t.items (.segment text)).flatMap Item.stream) := by
        rw [leads, List.filter_flatMap, items, List.flatMap_map, List.flatMap_map]
        rfl
      rw [hmarks, stream_items_segment, length_leads, Piece.text]

/-- A special token among the items is one among the pieces. -/
theorem split_items {pieces : List Piece} {before after : List Item}
    (h : pieces.flatMap t.items = before ++ .special token :: after) :
    ∃ front behind, pieces = front ++ .special token :: behind ∧
      front.flatMap t.items = before := by
  induction pieces generalizing before with
  | nil => cases before <;> cases h
  | cons piece pieces ih =>
    rw [List.flatMap_cons] at h
    cases piece with
    | segment text =>
      obtain ⟨before, rfl, hrest⟩ := split_of_notMem (by simp [items]) h
      obtain ⟨front, behind, rfl, rfl⟩ := ih hrest
      exact ⟨.segment text :: front, behind, rfl, rfl⟩
    | special found =>
      cases before with
      | nil =>
        cases h
        exact ⟨[], pieces, rfl, rfl⟩
      | cons =>
        obtain ⟨rfl, hrest⟩ := List.cons.inj h
        obtain ⟨front, behind, rfl, rfl⟩ := ih hrest
        exact ⟨.special found :: front, behind, rfl, rfl⟩

/-- The items of the text are not those of its parts. -/
theorem itemsOf_joined (h : Parted t a s b) (hjoin : JoinsRun (t.special? a) a s) :
    t.itemsOf (a ++ s ++ b) ≠ t.itemsOf a ++ .special s :: t.itemsOf b := by
  intro heq
  obtain ⟨front, behind, hpieces, hfront⟩ := split_items heq
  have hlen : (textOf front).length = a.length := by
    rw [← t.length_marks, hfront, itemsOf, length_marks, textOf_pieces]
  have hvisited := visited_of_cut (t.special?_prefix _) (le_refl 0) ⟨0, rfl⟩ hpieces
  rw [hlen, Nat.zero_add, List.append_assoc] at hvisited
  refine hjoin.not_visited (fun pos hpos => ?_) hvisited
  exact special?_front hpos fun token hmem hmatch =>
    h.before pos hpos token hmem (by rwa [List.append_assoc])

/-! ### Ids -/

/-- A tokenizer in which the blank and the blank in front of a letter are special tokens. -/
def blankTokens : ByteLevelBpeTokenizer := ofLists [[120], [32], [32, 120]] [] [1, 3, 3] (-1) (-1)

/-- A tokenizer with a special token that begins with a blank. -/
def blankToken : ByteLevelBpeTokenizer :=
  ofLists [byteToStr 32, [120], [32, 120]] [] [1, 1, 3] (-1) (-1)

end CcInfer.ByteLevelBpeTokenizer
