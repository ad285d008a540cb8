import CcInfer.Tokenizer.ByteLevelBpe
import Mathlib.Order.Iterate

/-!
# `CcInfer.Proofs.Tokenizer.Pieces`: the pre-tokenizer as a function on texts

`encode` cuts the text into pieces and encodes each as soon as it is cut. Here the two are
taken apart: `cut` lists the pieces, special tokens and segments, and `encode_eq` says that
`encode` gives an id to each item of each piece, in order, and fails where an item has none.
-/

set_option autoImplicit false

namespace CcInfer.ByteLevelBpeTokenizer

variable {pos id first last segmentStart fuel : Nat} {t : ByteLevelBpeTokenizer} {token : Bytes}

/-! ### `try_match_special` finds the longest special token -/

/-- A special token that `try_match_special` may find at a position. -/
def Matches (text : Bytes) (pos : Nat) (token : Bytes) : Prop :=
  token ≠ [] ∧ token <+: text.drop pos

/-- `starts_with_at` is a prefix test. -/
theorem startsWithAt_iff {text pattern : Bytes} (hne : pattern ≠ []) :
    startsWithAt text pos pattern = true ↔ pattern <+: text.drop pos := by
  have hpos : 0 < pattern.length := List.length_pos_of_ne_nil hne
  unfold startsWithAt
  split
  · rename_i hshort
    refine iff_of_false (by simp) fun hpre => ?_
    have hle := hpre.length_le
    rw [List.length_drop] at hle
    omega
  · rw [beq_iff_eq, List.prefix_iff_eq_take, eq_comm]

/-- What the loop of `try_match_special` has found when it has seen `entries`. -/
structure Longest (text : Bytes) (pos : Nat) (entries : List (Sigma fun _ : Bytes => Nat))
    (best : Option (Bytes × Nat)) : Prop where
  found : ∀ token id, best = some (token, id) → ⟨token, id⟩ ∈ entries ∧ Matches text pos token
  longest : ∀ e ∈ entries, Matches text pos e.1 →
    e.1.length ≤ (best.map fun m => m.1.length).getD 0

/-- One more entry is compared. -/
theorem Longest.step {text : Bytes} {entries : List (Sigma fun _ : Bytes => Nat)}
    {best : Option (Bytes × Nat)} (h : Longest text pos entries best)
    (entry : Sigma fun _ : Bytes => Nat) :
    Longest text pos (entries ++ [entry]) (longerMatch text pos best entry) := by
  have hfound : ∀ token id, best = some (token, id) →
      ⟨token, id⟩ ∈ entries ++ [entry] ∧ Matches text pos token := fun token id heq =>
    ⟨List.mem_append_left _ (h.found token id heq).1, (h.found token id heq).2⟩
  -- the entry is passed over, so that only its own length has to be looked at
  have hkeep : (Matches text pos entry.1 →
      entry.1.length ≤ (best.map fun m => m.1.length).getD 0) →
      Longest text pos (entries ++ [entry]) best := by
    refine fun hentry => ⟨hfound, fun e he hmatch => ?_⟩
    rcases List.mem_append.mp he with hmem | hmem
    · exact h.longest e hmem hmatch
    · obtain rfl := List.mem_singleton.mp hmem
      exact hentry hmatch
  unfold longerMatch
  split
  · rename_i hempty
    exact hkeep fun hmatch => absurd (List.isEmpty_iff.mp hempty) hmatch.1
  · rename_i hne
    split
    · rename_i hle
      exact hkeep fun _ => hle
    · rename_i hlt
      have hne : entry.1 ≠ [] := fun heq => hne (List.isEmpty_iff.mpr heq)
      split
      · rename_i hstarts
        refine ⟨fun token id heq => ?_, fun e he hmatch => ?_⟩
        · obtain ⟨rfl, rfl⟩ := Prod.mk.inj (Option.some.inj heq)
          exact ⟨by simp, hne, (startsWithAt_iff hne).mp hstarts⟩
        · rcases List.mem_append.mp he with hmem | hmem
          · have := h.longest e hmem hmatch
            simp only [Option.map_some, Option.getD_some]
            omega
          · obtain rfl := List.mem_singleton.mp hmem
            exact Nat.le_refl _
      · rename_i hstarts
        exact hkeep fun hmatch => absurd ((startsWithAt_iff hne).mpr hmatch.2) hstarts

/-- `try_match_special` finds a longest match. -/
theorem tryMatchSpecial_longest (t : ByteLevelBpeTokenizer) (text : Bytes) (pos : Nat) :
    Longest text pos t.specialTokenToId.entries (t.tryMatchSpecial text pos) := by
  unfold tryMatchSpecial
  induction t.specialTokenToId.entries using List.reverseRecOn with
  | nil => exact ⟨by simp, by simp⟩
  | append_singleton _ entry ih =>
    rw [List.foldl_concat]
    exact ih.step entry

/-- The special token found at a position. -/
def special? (t : ByteLevelBpeTokenizer) (text : Bytes) (pos : Nat) : Option Bytes :=
  (t.tryMatchSpecial text pos).map Prod.fst

/-- The token found is the longest one that matches. -/
theorem special?_eq_some_iff {text : Bytes} : t.special? text pos = some token ↔
      token ∈ t.specialTokenToId ∧ Matches text pos token ∧
        ∀ token' ∈ t.specialTokenToId, Matches text pos token' → token'.length ≤ token.length := by
  have hlongest := tryMatchSpecial_longest t text pos
  have hle : ∀ token' ∈ t.specialTokenToId, Matches text pos token' →
      token'.length ≤ ((t.tryMatchSpecial text pos).map fun m => m.1.length).getD 0 := by
    intro token' hmem hmatch
    obtain ⟨id, hid⟩ := Option.isSome_iff_exists.mp (AList.lookup_isSome.mpr hmem)
    exact hlongest.longest ⟨token', id⟩ (AList.mem_lookup_iff.mp hid) hmatch
  unfold special?
  cases hfound : t.tryMatchSpecial text pos with
  | none =>
    refine iff_of_false (by simp) fun ⟨hmem, hmatch, _⟩ => hmatch.1 ?_
    have := hle token hmem hmatch
    simpa [hfound] using this
  | some m =>
    obtain ⟨found, id⟩ := m
    obtain ⟨hentry, hmatch⟩ := hlongest.found found id hfound
    have hmem : found ∈ t.specialTokenToId :=
      AList.lookup_isSome.mp (Option.isSome_of_mem (AList.mem_lookup_iff.mpr hentry))
    rw [hfound] at hle
    simp only [Option.map_some, Option.getD_some, Option.some.injEq] at hle ⊢
    constructor
    · rintro rfl
      exact ⟨hmem, hmatch, hle⟩
    · rintro ⟨hmem', hmatch', hle'⟩
      -- both are the beginning of the text at the position, of the same length
      have hlen : found.length = token.length :=
        Nat.le_antisymm (hle' found hmem hmatch) (hle token hmem' hmatch')
      rw [List.prefix_iff_eq_take.mp hmatch.2, List.prefix_iff_eq_take.mp hmatch'.2, hlen]

/-- The id found is that of the token. -/
theorem lookup_of_tryMatchSpecial {text : Bytes}
    (h : t.tryMatchSpecial text pos = some (token, id)) :
    t.specialTokenToId.lookup token = some id :=
  AList.mem_lookup_iff.mpr ((tryMatchSpecial_longest t text pos).found token id h).1

/-! ### Runs -/

/-- A run goes forward. -/
theorem le_runEnd (p : UInt8 → Bool) (text : Bytes) (pos : Nat) : pos ≤ runEnd p text pos :=
  Nat.le_add_right _ _

/-- A run that starts with a byte of its kind is not empty. -/
theorem lt_runEnd {p : UInt8 → Bool} {text : Bytes} {c : UInt8}
    (hc : text[pos]? = some c) (hp : p c = true) : pos < runEnd p text pos := by
  obtain ⟨hlt, rfl⟩ := List.getElem?_eq_some_iff.mp hc
  unfold runEnd
  rw [List.drop_eq_getElem_cons hlt, List.takeWhile_cons_of_pos hp, List.length_cons]
  omega

/-- A run stays in the text. -/
theorem runEnd_le (p : UInt8 → Bool) {text : Bytes} (h : pos ≤ text.length) :
    runEnd p text pos ≤ text.length := by
  have hle := (List.takeWhile_prefix p (l := text.drop pos)).length_le
  rw [List.length_drop] at hle
  unfold runEnd
  omega

/-! ### The pieces of a text -/

/-- A piece of a text: a special token, or a segment that is encoded by itself. -/
inductive Piece
  | special (token : Bytes)
  | segment (text : Bytes)

/-- The text that a piece stands for. -/
def Piece.text : Piece → Bytes
  | special token => token
  | segment text => text

/-- The segment from `first` up to `last`, if it is not empty. -/
def segmentAt (text : Bytes) (first last : Nat) : List Piece :=
  if last ≤ first then [] else [.segment ((text.drop first).take (last - first))]

/-- What a round of the loop of `encode` cuts off at a byte `c` when `special` tells the special
tokens, and where the segment starts that it leaves open. -/
def roundCut (special : Nat → Option Bytes) (text : Bytes) (pos segmentStart : Nat) (c : UInt8) :
    List Piece × Nat :=
  match special pos with
  | some token => (segmentAt text segmentStart pos ++ [.special token], pos + token.length)
  | none =>
    if isNewline c then
      let newlineEnd := runEnd isNewline text pos
      (segmentAt text segmentStart pos ++ segmentAt text pos newlineEnd, newlineEnd)
    else if isSpace c then
      let spaceEnd := runEnd isSpace text pos
      let ahead := hasNext (fun k => (special k).isSome) text spaceEnd (text.length - spaceEnd)
      let start := if ahead then spaceEnd - 1 else spaceEnd
      (segmentAt text segmentStart pos ++ segmentAt text pos start, start)
    else ([], segmentStart)

/-- The position at which the loop goes on. -/
def nextPos (special : Nat → Option Bytes) (text : Bytes) (pos : Nat) : Nat :=
  match text[pos]? with
  | none => pos
  | some c =>
    match special pos with
    | some token => pos + token.length
    | none =>
      if isNewline c then runEnd isNewline text pos
      else if isSpace c then runEnd isSpace text pos
      else pos + 1

/-- The pieces that the loop cuts. -/
def cut (special : Nat → Option Bytes) (text : Bytes) (pos segmentStart : Nat) :
    Nat → List Piece
  | 0 => segmentAt text segmentStart text.length
  | fuel + 1 =>
    match text[pos]? with
    | none => segmentAt text segmentStart text.length
    | some c =>
      let (pieces, start) := roundCut special text pos segmentStart c
      pieces ++ cut special text (nextPos special text pos) start fuel

/-- What a piece gives ids to: the special token, or the symbols of the segment. -/
inductive Item
  | special (token : Bytes)
  | symbol (symbol : Bytes)

/-- The items of a piece. -/
def items (t : ByteLevelBpeTokenizer) : Piece → List Item
  | .special token => [.special token]
  | .segment text => (t.applyBpe (byteEncodeSegment text)).map .symbol

/-- The id of an item. -/
def itemId (t : ByteLevelBpeTokenizer) : Item → Result Nat
  | .special token => (t.specialTokenToId.lookup token).elim (.error .modelLoadFailed) .ok
  | .symbol symbol => t.symbolId symbol

/-- The items of a text. -/
def itemsOf (t : ByteLevelBpeTokenizer) (text : Bytes) : List Item :=
  (cut (t.special? text) text 0 0 text.length).flatMap t.items

/-- The items depend on the merges and on the special tokens only, not on any id. -/
theorem itemsOf_congr {t' : ByteLevelBpeTokenizer}
    (hspecial : ∀ s, s ∈ t.specialTokenToId ↔ s ∈ t'.specialTokenToId)
    (hrank : t.mergeRank = t'.mergeRank) (text : Bytes) : t.itemsOf text = t'.itemsOf text := by
  have hfound : t.special? text = t'.special? text := by
    funext pos
    refine Option.ext fun token => ?_
    rw [special?_eq_some_iff, special?_eq_some_iff]
    simp only [hspecial]
  have hpair : t.pairRank = t'.pairRank := by
    funext a b
    rw [pairRank, pairRank, hrank]
  have hitems : t.items = t'.items := by
    funext piece
    cases piece with
    | special => rfl
    | segment => simp only [items, applyBpe, hpair]
  unfold itemsOf
  rw [hfound, hitems]

/-! ### `encode` gives an id to each item -/

/-- The ids of some pieces, behind those that are there. -/
def encodePieces (t : ByteLevelBpeTokenizer) (pieces : List Piece) (ids : List Nat) :
    Result (List Nat) :=
  ((pieces.flatMap t.items).mapM t.itemId).map (ids ++ ·)

/-- The pieces one after the other. -/
theorem encodePieces_append (t : ByteLevelBpeTokenizer) (pieces pieces' : List Piece)
    (ids : List Nat) : t.encodePieces (pieces ++ pieces') ids =
      t.encodePieces pieces ids >>= t.encodePieces pieces' := by
  unfold encodePieces
  rw [List.flatMap_append, List.mapM_append]
  cases (pieces.flatMap t.items).mapM t.itemId with
  | error => rfl
  | ok =>
    cases (pieces'.flatMap t.items).mapM t.itemId with
    | error => simp [Except.map, bind, Except.bind]
    | ok => simp [Except.map, bind, Except.bind, pure, Except.pure]

/-- A segment by its items. -/
theorem encodeNormalSegment_eq (t : ByteLevelBpeTokenizer) (text : Bytes) :
    t.encodeNormalSegment text = (t.items (.segment text)).mapM t.itemId := by
  simp only [encodeNormalSegment, items, List.mapM_map]
  rfl

/-- A flush encodes the segment so far. -/
theorem flushIfAny_eq (t : ByteLevelBpeTokenizer) (text : Bytes) (first last : Nat)
    (ids : List Nat) :
    t.flushIfAny text first last ids = t.encodePieces (segmentAt text first last) ids := by
  unfold flushIfAny segmentAt encodePieces
  split
  · simp [Except.map, pure, Except.pure]
  · rw [encodeNormalSegment_eq, List.flatMap_singleton]

/-- A special token that was found has its id. -/
theorem encodePieces_special
    (h : t.specialTokenToId.lookup token = some id) (pieces : List Piece) (ids : List Nat) :
    t.encodePieces (.special token :: pieces) ids = t.encodePieces pieces (ids ++ [id]) := by
  rw [← List.singleton_append, encodePieces_append]
  simp [encodePieces, items, itemId, h, Except.map, bind, Except.bind, pure, Except.pure]

/-- The loop encodes the pieces that `cut` gives. By induction on its fuel. -/
theorem encodeLoop_eq (t : ByteLevelBpeTokenizer) (text : Bytes) (pos segmentStart : Nat)
    (ids : List Nat) (fuel : Nat) : t.encodeLoop text pos segmentStart ids fuel =
      t.encodePieces (cut (t.special? text) text pos segmentStart fuel) ids := by
  induction fuel generalizing pos segmentStart ids with
  | zero => exact flushIfAny_eq t text segmentStart text.length ids
  | succ fuel ih =>
    have hsome : (fun k => (t.special? text k).isSome) =
        fun k => (t.tryMatchSpecial text k).isSome := by
      funext k
      rw [special?, Option.isSome_map]
    simp only [encodeLoop, cut, roundCut, nextPos, hsome]
    cases hc : text[pos]? with
    | none => exact flushIfAny_eq t text segmentStart text.length ids
    | some c =>
      simp only [flushIfAny_eq, ih]
      cases hfound : t.tryMatchSpecial text pos with
      | some m =>
        obtain ⟨_, _⟩ := m
        simp only [special?, hfound, Option.map_some, List.append_assoc, List.singleton_append]
        rw [encodePieces_append]
        refine bind_congr fun ids => ?_
        rw [encodePieces_special (lookup_of_tryMatchSpecial hfound)]
      | none =>
        simp only [special?, hfound, Option.map_none]
        split
        · rw [List.append_assoc, encodePieces_append]
          refine bind_congr fun ids => ?_
          rw [encodePieces_append]
        · split
          · rename_i hspace
            have hrun := lt_runEnd hc hspace
            rw [List.append_assoc, encodePieces_append]
            refine bind_congr fun ids => ?_
            cases hasNext _ text (runEnd isSpace text pos)
              (text.length - runEnd isSpace text pos) with
            | false => exact (encodePieces_append ..).symm
            | true =>
              simp only [Bool.not_true, Bool.false_eq_true, if_false, if_true]
              split
              · rename_i hone
                have hstart : runEnd isSpace text pos - 1 = pos := by
                  rw [beq_iff_eq] at hone
                  omega
                rw [hstart, segmentAt, if_pos le_rfl, List.nil_append]
              · have hstart : pos + (runEnd isSpace text pos - pos) - 1 =
                    runEnd isSpace text pos - 1 := by omega
                rw [hstart, encodePieces_append]
          · rfl

/-- `encode` gives an id to each item of the text, in order. -/
theorem encode_eq (t : ByteLevelBpeTokenizer) (text : Bytes) : t.encode text =
      if t.vocab.entries.isEmpty then .error .modelLoadFailed
      else (t.itemsOf text).mapM t.itemId := by
  unfold encode itemsOf
  rw [encodeLoop_eq]
  unfold encodePieces
  cases ((cut (t.special? text) text 0 0 text.length).flatMap t.items).mapM t.itemId <;> rfl

/-! ### What a round does -/

/-- The text of some pieces. -/
def textOf (pieces : List Piece) : Bytes := pieces.flatMap Piece.text

/-- The text of two lists of pieces. -/
theorem textOf_append (pieces pieces' : List Piece) :
    textOf (pieces ++ pieces') = textOf pieces ++ textOf pieces' :=
  List.flatMap_append

/-- The text of segments. -/
theorem textOf_segments (segments : List Bytes) :
    textOf (segments.map .segment) = segments.flatten := by
  rw [textOf, List.flatMap_map]
  exact List.flatMap_id

/-- The text of a special token. -/
theorem textOf_special (found : Option Bytes) :
    textOf (found.toList.map .special) = found.getD [] := by
  cases found with
  | none => rfl
  | some token => exact List.append_nil token

/-- The segments of a stretch of the text: one, or none if it is empty. -/
theorem segmentAt_eq_map (text : Bytes) (h : first ≤ last) (hlast : last ≤ text.length) :
    ∃ segments : List Bytes, segmentAt text first last = segments.map .segment ∧
      first + segments.flatten.length = last ∧
      segments.flatten ++ text.drop last = text.drop first := by
  unfold segmentAt
  split
  · rename_i hle
    obtain rfl := Nat.le_antisymm h hle
    exact ⟨[], rfl, rfl, rfl⟩
  · refine ⟨[(text.drop first).take (last - first)], rfl, ?_, ?_⟩
    · rw [List.flatten_singleton, List.length_take, List.length_drop]
      omega
    · rw [List.flatten_singleton]
      conv_rhs => rw [← List.take_append_drop (last - first) (text.drop first), List.drop_drop,
        Nat.add_sub_cancel' h]

section Rounds

variable {special : Nat → Option Bytes} {text : Bytes} {c : UInt8}

/-- A round cuts off `segments`, up to where it leaves the next segment open, and the special token
if there is one. -/
structure Round (special : Nat → Option Bytes) (text : Bytes) (pos segmentStart : Nat)
    (round : List Piece × Nat) (segments : List Bytes) : Prop where
  pieces : round.1 = segments.map .segment ++ (special pos).toList.map .special
  length : segmentStart + segments.flatten.length + ((special pos).getD []).length = round.2
  text_eq : segments.flatten ++ ((special pos).getD [] ++ text.drop round.2) =
    text.drop segmentStart

/-- A round without a special token cuts off the open segment, and one from its position on. -/
theorem Round.of_none {start : Nat} (hnone : special pos = none) (hstart : segmentStart ≤ pos)
    (hpos : pos ≤ start) (hend : start ≤ text.length) :
    ∃ segments, Round special text pos segmentStart
      (segmentAt text segmentStart pos ++ segmentAt text pos start, start) segments := by
  obtain ⟨segments, hsegments, _, htext⟩ := segmentAt_eq_map text hstart (hpos.trans hend)
  obtain ⟨segments', hsegments', _, htext'⟩ := segmentAt_eq_map text hpos hend
  refine ⟨segments ++ segments', ?_, ?_, ?_⟩
  · rw [hnone, hsegments, hsegments', Option.toList_none, List.map_nil, List.append_nil,
      List.map_append]
  · rw [hnone, Option.getD_none, List.flatten_append, List.length_append, List.length_nil]
    omega
  · rw [hnone, Option.getD_none, List.nil_append, List.flatten_append, List.append_assoc, htext',
      htext]

/-- One round, branch by branch. -/
theorem roundCut_round (hspecial : ∀ pos token, special pos = some token → token <+: text.drop pos)
    (hc : text[pos]? = some c) (hstart : segmentStart ≤ pos) :
    ∃ segments, Round special text pos segmentStart (roundCut special text pos segmentStart c)
      segments := by
  have hlt : pos < text.length := (List.getElem?_eq_some_iff.mp hc).1
  unfold roundCut
  cases hfound : special pos with
  | some token =>
    obtain ⟨segments, hsegments, hlen, htext⟩ := segmentAt_eq_map text hstart hlt.le
    obtain ⟨_, hrest⟩ := hspecial pos token hfound
    refine ⟨segments, ?_, ?_, ?_⟩
    · rw [hsegments, hfound]
      rfl
    · rw [hlen, hfound, Option.getD_some]
    · rw [hfound, Option.getD_some, ← List.drop_drop, ← htext, ← hrest, List.drop_left]
  | none =>
    simp only
    split
    · exact Round.of_none hfound hstart (le_runEnd _ _ _) (runEnd_le _ hlt.le)
    · split
      · rename_i hspace
        have hrun := lt_runEnd hc hspace
        have hle := runEnd_le isSpace hlt.le
        split <;> exact Round.of_none hfound hstart (by omega) (by omega)
      · refine ⟨[], ?_, ?_, ?_⟩ <;> simp [hfound]

/-- The next segment starts behind the round. -/
theorem roundCut_start_le (hc : text[pos]? = some c) (hstart : segmentStart ≤ pos) :
    (roundCut special text pos segmentStart c).2 ≤ nextPos special text pos := by
  unfold roundCut nextPos
  rw [hc]
  cases special pos with
  | some => exact le_rfl
  | none =>
    simp only
    split
    · exact le_rfl
    · split
      · simp only
        split <;> omega
      · exact hstart.trans (Nat.le_succ _)

/-- The scanner goes forward. -/
theorem le_nextPos : pos ≤ nextPos special text pos := by
  unfold nextPos
  split
  · exact le_rfl
  · split
    · exact Nat.le_add_right _ _
    · split
      · exact le_runEnd _ _ _
      · split
        · exact le_runEnd _ _ _
        · exact Nat.le_succ _

/-- A round moves forward. -/
theorem lt_nextPos (hne : ∀ token, special pos = some token → token ≠ [])
    (hc : text[pos]? = some c) : pos < nextPos special text pos := by
  simp only [nextPos, hc]
  cases hfound : special pos with
  | some token => exact Nat.lt_add_of_pos_right (List.length_pos_of_ne_nil (hne token hfound))
  | none =>
    simp only
    split
    · exact lt_runEnd hc ‹_›
    · split
      · exact lt_runEnd hc ‹_›
      · exact Nat.lt_succ_self _

/-- The scanner stays in the text. -/
theorem nextPos_le (hfit : ∀ token, special pos = some token → pos + token.length ≤ text.length)
    (hpos : pos < text.length) : nextPos special text pos ≤ text.length := by
  unfold nextPos
  split
  · exact hpos.le
  · split
    · exact hfit _ ‹_›
    · split
      · exact runEnd_le _ hpos.le
      · split
        · exact runEnd_le _ hpos.le
        · exact hpos

/-! ### What the loop does -/

/-- The pieces that the loop cuts make up the text from the start of the open segment on. -/
theorem textOf_cut (hspecial : ∀ pos token, special pos = some token → token <+: text.drop pos)
    (hstart : segmentStart ≤ pos) (hopen : segmentStart ≤ text.length) (fuel : Nat) :
    textOf (cut special text pos segmentStart fuel) = text.drop segmentStart := by
  have hlast : ∀ {first}, first ≤ text.length →
      textOf (segmentAt text first text.length) = text.drop first := by
    intro first hfirst
    obtain ⟨_, hsegments, -, htext⟩ := segmentAt_eq_map text hfirst le_rfl
    rw [hsegments, textOf_segments, ← htext, List.drop_length, List.append_nil]
  induction fuel generalizing pos segmentStart with
  | zero => exact hlast hopen
  | succ _ ih =>
    rw [cut]
    cases hc : text[pos]? with
    | none => exact hlast hopen
    | some c =>
      obtain ⟨_, hround⟩ := roundCut_round hspecial hc hstart
      have hle : (roundCut special text pos segmentStart c).2 ≤ text.length := by
        have := congrArg List.length hround.text_eq
        simp only [List.length_append, List.length_drop] at this
        have := hround.length
        omega
      simp only
      rw [textOf_append, hround.pieces, textOf_append, textOf_segments, textOf_special,
        ih (roundCut_start_le hc hstart) hle, List.append_assoc, hround.text_eq]

/-- A flush gives segments. -/
theorem mem_segmentAt {piece : Piece} (h : piece ∈ segmentAt text first last) :
    ∃ s, piece = .segment s := by
  unfold segmentAt at h
  split at h
  · cases h
  · exact ⟨_, List.mem_singleton.mp h⟩

/-- What the pieces are. -/
theorem mem_cut (hspecial : ∀ pos token, special pos = some token → token <+: text.drop pos)
    (hstart : segmentStart ≤ pos) {piece : Piece}
    (h : piece ∈ cut special text pos segmentStart fuel) :
    (∃ s, piece = .segment s) ∨ ∃ pos token, special pos = some token ∧ piece = .special token := by
  induction fuel generalizing pos segmentStart with
  | zero => exact .inl (mem_segmentAt h)
  | succ _ ih =>
    rw [cut] at h
    cases hc : text[pos]? with
    | none =>
      rw [hc] at h
      exact .inl (mem_segmentAt h)
    | some =>
      obtain ⟨_, hround⟩ := roundCut_round hspecial hc hstart
      simp only [hc, hround.pieces, List.mem_append, List.mem_map] at h
      rcases h with (⟨s, -, rfl⟩ | ⟨token, htoken, rfl⟩) | h
      · exact .inl ⟨s, rfl⟩
      · exact .inr ⟨pos, token, Option.mem_toList.mp htoken, rfl⟩
      · exact ih (roundCut_start_le hc hstart) h

/-- A round moves forward, so that more rounds than there are bytes left change nothing. -/
theorem cut_succ (hne : ∀ pos token, special pos = some token → token ≠ [])
    (hfuel : text.length ≤ pos + fuel) :
    cut special text pos segmentStart (fuel + 1) = cut special text pos segmentStart fuel := by
  induction fuel generalizing pos segmentStart with
  | zero =>
    have hend : text[pos]? = none := List.getElem?_eq_none hfuel
    conv_lhs => rw [cut, hend]
    rfl
  | succ _ ih =>
    rw [cut]
    conv_rhs => rw [cut]
    cases hc : text[pos]? with
    | none => rfl
    | some =>
      have := lt_nextPos (hne pos) hc
      simp only
      rw [ih (by omega)]

/-- As many rounds as there are bytes left are enough. -/
theorem cut_fuel (hne : ∀ pos token, special pos = some token → token ≠ [])
    (hfuel : text.length ≤ pos + fuel) : cut special text pos segmentStart fuel =
      cut special text pos segmentStart (text.length - pos) := by
  have hle : text.length - pos ≤ fuel := by omega
  induction fuel, hle using Nat.le_induction with
  | base => rfl
  | succ _ _ ih => rw [cut_succ hne (by omega), ih (by omega)]

/-! ### Where the rounds begin -/

/-- The positions at which a round of the loop begins. -/
def Visited (special : Nat → Option Bytes) (text : Bytes) (pos : Nat) : Prop :=
  ∃ rounds, (nextPos special text)^[rounds] 0 = pos

/-- The scanner goes on from where it was. -/
theorem Visited.next (h : Visited special text pos) :
    Visited special text (nextPos special text pos) := by
  obtain ⟨rounds, rfl⟩ := h
  exact ⟨rounds + 1, Function.iterate_succ_apply' _ _ _⟩

/-- No round begins between a position and the next one. -/
theorem Visited.le_or_next_le {pos' : Nat} (h : Visited special text pos)
    (h' : Visited special text pos') : pos' ≤ pos ∨ nextPos special text pos ≤ pos' := by
  obtain ⟨rounds, rfl⟩ := h
  obtain ⟨rounds', rfl⟩ := h'
  have hmono : Monotone fun n => (nextPos special text)^[n] 0 :=
    fun _ _ hle => Function.monotone_iterate_of_id_le (fun _ => le_nextPos) hle 0
  rcases Nat.lt_or_ge rounds rounds' with hlt | hle
  · right
    rw [← Function.iterate_succ_apply' (nextPos special text)]
    exact hmono hlt
  · exact .inl (hmono hle)

/-- An element that is not in the first part of a list is in the second. -/
theorem split_of_notMem {α : Type} {xs ys before after : List α} {z : α} (hz : z ∉ xs)
    (h : xs ++ ys = before ++ z :: after) :
    ∃ before', before = xs ++ before' ∧ ys = before' ++ z :: after := by
  rcases List.append_eq_append_iff.mp h with ⟨before', hbefore, hys⟩ | ⟨rest, hxs, hrest⟩
  · exact ⟨before', hbefore, hys⟩
  · cases rest with
    | nil =>
      rw [List.append_nil] at hxs
      exact ⟨[], by rw [hxs, List.append_nil], hrest.symm⟩
    | cons =>
      obtain ⟨rfl, -⟩ := List.cons.inj hrest
      exact absurd (hxs ▸ List.mem_append_right before List.mem_cons_self) hz

/-- A special token among the pieces stands where a round begins. -/
theorem visited_of_cut (hspecial : ∀ pos token, special pos = some token → token <+: text.drop pos)
    (hstart : segmentStart ≤ pos) (hpos : Visited special text pos) {before after : List Piece}
    (h : cut special text pos segmentStart fuel = before ++ .special token :: after) :
    Visited special text (segmentStart + (textOf before).length) := by
  have hlast : ∀ {first last before},
      segmentAt text first last ≠ before ++ .special token :: after := by
    intro first last before heq
    obtain ⟨_, hs⟩ := mem_segmentAt (heq ▸ List.mem_append_right before List.mem_cons_self)
    cases hs
  induction fuel generalizing pos segmentStart before with
  | zero => exact absurd h hlast
  | succ fuel ih =>
    rw [cut] at h
    cases hc : text[pos]? with
    | none =>
      rw [hc] at h
      exact absurd h hlast
    | some c =>
      obtain ⟨segments, hround⟩ := roundCut_round hspecial hc hstart
      have hle : (roundCut special text pos segmentStart c).2 ≤ nextPos special text pos :=
        roundCut_start_le hc hstart
      have hlen := hround.length
      simp only [hc, hround.pieces, List.append_assoc] at h
      obtain ⟨before, rfl, hrest⟩ := split_of_notMem (by simp) h
      rw [textOf_append, textOf_segments, List.length_append, ← Nat.add_assoc]
      cases hfound : special pos with
      | none =>
        rw [hfound] at hrest hlen
        have hvisited := ih hle hpos.next hrest
        rwa [← hlen] at hvisited
      | some found =>
        have hround' : (roundCut special text pos segmentStart c).2 = pos + found.length := by
          simp only [roundCut, hfound]
        rw [hfound, Option.getD_some] at hlen
        rw [hfound] at hrest
        cases before with
        | nil =>
          obtain rfl : segmentStart + segments.flatten.length = pos := by omega
          exact hpos
        | cons piece before =>
          obtain ⟨rfl, htail⟩ := List.cons.inj hrest
          have hvisited := ih hle hpos.next htail
          have htext : textOf (.special found :: before) = found ++ textOf before := rfl
          rw [htext, List.length_append, ← Nat.add_assoc, hlen]
          exact hvisited

end Rounds

/-! ### The pieces of a whole text -/

/-- A special token is not empty. -/
theorem special?_ne_nil (t : ByteLevelBpeTokenizer) (text : Bytes) (pos : Nat) (token : Bytes)
    (h : t.special? text pos = some token) : token ≠ [] :=
  (special?_eq_some_iff.mp h).2.1.1

/-- It stands in the text. -/
theorem special?_prefix (t : ByteLevelBpeTokenizer) (text : Bytes) (pos : Nat) (token : Bytes)
    (h : t.special? text pos = some token) : token <+: text.drop pos :=
  (special?_eq_some_iff.mp h).2.1.2

/-- The pieces of a text make up the text. -/
theorem textOf_pieces (t : ByteLevelBpeTokenizer) (text : Bytes) :
    textOf (cut (t.special? text) text 0 0 text.length) = text :=
  textOf_cut (t.special?_prefix text) (Nat.le_refl 0) (Nat.zero_le _) text.length

/-- A piece is a segment, or a special token that was found at some position. -/
theorem mem_pieces {text : Bytes} {piece : Piece}
    (h : piece ∈ cut (t.special? text) text 0 0 text.length) : (∃ s, piece = .segment s) ∨
      ∃ pos token, t.special? text pos = some token ∧ piece = .special token :=
  mem_cut (t.special?_prefix text) (Nat.le_refl 0) h

/-- The loop of `encode` ends at the end of the text, not for want of rounds. -/
theorem encodeLoop_fuel (t : ByteLevelBpeTokenizer) (text : Bytes) (hfuel : text.length ≤ fuel) :
    t.encodeLoop text 0 0 [] fuel = t.encodeLoop text 0 0 [] text.length := by
  rw [encodeLoop_eq, encodeLoop_eq, cut_fuel (t.special?_ne_nil text) (by omega), Nat.sub_zero]

end CcInfer.ByteLevelBpeTokenizer
