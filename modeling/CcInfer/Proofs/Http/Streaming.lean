import CcInfer.Http.Stream
import CcInfer.Proofs.Tokenizer.Spelling

/-!
# `CcInfer.Proofs.Http.Streaming`: which tokens can be streamed

A frame carries the text of one token. `dump` throws for a text that is not valid UTF-8
(`dump_isSome_iff`), and byte-level vocabularies have entries that stand for a part of a longer
character. So a frame is made exactly for the tokens whose entry spells valid UTF-8, and the
exception for any other one leaves `handle_connection` before its clean-up: the connection stays
in `active_conns_`, and a shutdown never finishes.
-/

set_option autoImplicit false

namespace CcInfer

/-! ### What `dump` accepts -/

/-- The loop behind `ByteArray.toList`. -/
theorem toList_loop_drop (bs : ByteArray) (i : Nat) (acc : List UInt8) :
    ByteArray.toList.loop bs i acc = acc.reverse ++ bs.data.toList.drop i := by
  induction i, acc using ByteArray.toList.loop.induct bs with
  | case1 i _ hi ih =>
    have hlt : i < bs.data.toList.length := by simpa using hi
    have hget : bs.get! i = bs.data.toList[i] := by
      simp [ByteArray.get!, getElem!_pos bs.data i hi]
    rw [ByteArray.toList.loop, if_pos hi, ih, List.drop_eq_getElem_cons hlt, hget]
    simp
  | case2 _ _ hi =>
    rw [ByteArray.toList.loop, if_neg hi, List.drop_eq_nil_of_le (by simpa using hi)]
    simp

/-- A text of the source is valid UTF-8. -/
theorem validUtf8_bytes (text : String) : ValidUtf8 (bytes text) := by
  have hlist : bytes text = text.toUTF8.data.toList := by
    show ByteArray.toList.loop text.toUTF8 0 [] = _
    rw [toList_loop_drop]
    rfl
  have harray : (bytes text).toByteArray = text.toUTF8 := by
    apply ByteArray.ext
    apply Array.ext'
    rw [List.toList_data_toByteArray, hlist]
  unfold ValidUtf8
  rw [harray]
  exact text.isValidUTF8

namespace Json

theorem dumpString_isSome {s : Bytes} : (dumpString s).isSome = true ↔ ValidUtf8 s := by
  unfold dumpString
  split <;> simp_all

variable (showFloat : Rat → Bytes)

mutual

/-- `dump` returns exactly if all strings and keys are valid UTF-8. -/
theorem dump_isSome_iff : (j : Json) →
    ((j.dump showFloat).isSome = true ↔ ∀ s ∈ j.strings, ValidUtf8 s)
  | null => by simp [dump, strings]
  | bool b => by simp [dump, strings]
  | integer n => by simp [dump, strings]
  | float x => by simp [dump, strings]
  | string s => by simp [dump, strings, dumpString_isSome]
  | array elements => by
    rw [dump, strings, Option.isSome_map, dumpElements_isSome_iff]
  | object fields => by
    rw [dump, strings, Option.isSome_map, dumpFields_isSome_iff]

theorem dumpElements_isSome_iff : (elements : List Json) →
    ((dumpElements showFloat elements).isSome = true ↔
      ∀ s ∈ elementStrings elements, ValidUtf8 s)
  | [] => by simp [dumpElements, elementStrings]
  | j :: rest => by
    rw [dumpElements, elementStrings, List.forall_mem_append, ← dump_isSome_iff j,
      ← dumpElements_isSome_iff rest]
    cases j.dump showFloat <;> cases dumpElements showFloat rest <;> simp

theorem dumpFields_isSome_iff : (fields : List (Bytes × Json)) →
    ((dumpFields showFloat fields).isSome = true ↔ ∀ s ∈ fieldStrings fields, ValidUtf8 s)
  | [] => by simp [dumpFields, fieldStrings]
  | (key, j) :: rest => by
    rw [dumpFields, fieldStrings, List.forall_mem_cons, List.forall_mem_append,
      ← dump_isSome_iff j, ← dumpFields_isSome_iff rest, ← dumpString_isSome]
    cases dumpString key <;> cases j.dump showFloat <;> cases dumpFields showFloat rest <;> simp

end

theorem strict_dump : StrictDump (dump showFloat) := dump_isSome_iff showFloat

end Json

namespace Http

variable {t : ByteLevelBpeTokenizer} {tok : GeneratedToken}

/-! ### One frame -/

/-- The entry of the token spells nothing but valid UTF-8. -/
def Serialisable (t : ByteLevelBpeTokenizer) (tok : GeneratedToken) : Prop :=
  tok.hasToken = true → ∀ s text, t.entry? tok.tokenId.toNat = some s → Spells s text →
    ValidUtf8 text

/-- The content of a token is what its entry spells, or nothing. -/
theorem validUtf8_tokenContent_iff : ValidUtf8 (tokenContent t tok) ↔
      ∀ s text, t.entry? tok.tokenId.toNat = some s → Spells s text → ValidUtf8 text := by
  unfold tokenContent
  cases hdecode : t.decode [tok.tokenId.toNat] false with
  | ok decoded =>
    obtain ⟨s, hs, hspells⟩ := ByteLevelBpeTokenizer.decode_singleton.mp hdecode
    constructor
    · intro hvalid s' text hs' hspells'
      have htext := ByteLevelBpeTokenizer.decode_singleton.mpr ⟨s', hs', hspells'⟩
      rw [hdecode] at htext
      exact Except.ok.inj htext ▸ hvalid
    · exact fun h => h s decoded hs hspells
  | error =>
    have hempty : ValidUtf8 [] := by decide +kernel
    refine iff_of_true hempty fun s text hs hspells => ?_
    have htext := ByteLevelBpeTokenizer.decode_singleton.mpr ⟨s, hs, hspells⟩
    rw [hdecode] at htext
    cases htext

variable {dump : Json → Option Bytes}

/-- The content is the only text of a frame that is not one of the source. -/
theorem makeSseFrame_isSome_iff (strict : Json.StrictDump dump) (requestId : String) :
    (makeSseFrame dump t tok requestId).isSome = true ↔ Serialisable t tok := by
  have hframe : (∀ s ∈ (frameJson t tok requestId).strings, ValidUtf8 s) ↔
      (tok.hasToken = true → ValidUtf8 (tokenContent t tok)) := by
    cases hfinished : tok.finished <;> cases htoken : tok.hasToken <;>
      simp [frameJson, Json.strings, Json.elementStrings, Json.fieldStrings, validUtf8_bytes,
        hfinished, htoken]
  rw [makeSseFrame, sseFrame, Option.isSome_map, strict, hframe,
    validUtf8_tokenContent_iff]
  rfl

/-- The frame of an error has only texts of the source. -/
theorem sseErrorFrame_isSome (strict : Json.StrictDump dump) (err : ErrorCode) :
    (sseErrorFrame dump err).isSome = true := by
  rw [sseErrorFrame, sseFrame, Option.isSome_map, strict]
  simp [Json.strings, Json.fieldStrings, validUtf8_bytes]

/-! ### The stream -/

/-- The loop is left by an exception only for a token that cannot be serialised. -/
theorem streamLoop_ne_thrown (strict : Json.StrictDump dump) {requestId : String}
    {turns : List StreamTurn}
    (h : ∀ tok written, .event (.ok tok) written ∈ turns → Serialisable t tok) :
    (streamLoop dump t requestId turns).2 ≠ .thrown := by
  induction turns with
  | nil => simp [streamLoop]
  | cons turn _ ih =>
    have ih := ih fun tok written hmem => h tok written (List.mem_cons_of_mem _ hmem)
    cases turn with
    | closed => simp [streamLoop]
    | event result written =>
      cases result with
      | ok tok =>
        have hsome := (makeSseFrame_isSome_iff strict requestId).mpr
          (h tok written List.mem_cons_self)
        obtain ⟨_, hframe⟩ := Option.isSome_iff_exists.mp hsome
        simp only [streamLoop, hframe]
        split
        · simp
        · split
          · simp
          · exact ih
      | error err =>
        obtain ⟨_, hframe⟩ := Option.isSome_iff_exists.mp (sseErrorFrame_isSome strict err)
        simp only [streamLoop, hframe]
        split <;> simp

/-- A stream that has come to an end without an exception is cleaned up. -/
theorem connectionEnd_activeConns {s : ServerState} {conn : Nat} {ending : StreamEnd}
    (hwaiting : ending ≠ .waiting) (hthrown : ending ≠ .thrown) :
    conn ∉ (connectionEnd s conn ending).activeConns := by
  have hfinish : ∀ s : ServerState, (tryFinishShutdown s).activeConns = s.activeConns := by
    intro s
    unfold tryFinishShutdown
    repeat' split
    all_goals rfl
  cases ending with
  | waiting => exact absurd rfl hwaiting
  | thrown => exact absurd rfl hthrown
  | finished => simp [connectionEnd, hfinish]
  | cancelled => simp [connectionEnd, hfinish]

/-- A token has a frame exactly if its entry spells valid UTF-8. If this holds for all tokens
that are received, the connection is cleaned up when its stream ends. -/
theorem streams_iff (strict : Json.StrictDump dump) (t : ByteLevelBpeTokenizer)
    (requestId : String) : (∀ tokens : List GeneratedToken,
      (∀ tok ∈ tokens, (makeSseFrame dump t tok requestId).isSome = true) ↔
        ∀ tok ∈ tokens, Serialisable t tok) ∧
      ∀ turns s conn, (∀ tok written, .event (.ok tok) written ∈ turns → Serialisable t tok) →
        (streamLoop dump t requestId turns).2 ≠ .waiting →
        conn ∉ (connectionEnd s conn (streamLoop dump t requestId turns).2).activeConns := by
  refine ⟨fun tokens => forall₂_congr fun tok _ => makeSseFrame_isSome_iff strict _, ?_⟩
  intro turns s conn h hwaiting
  exact connectionEnd_activeConns hwaiting (streamLoop_ne_thrown strict h)

/-- `dump` for values without floating-point numbers. -/
def plainDump : Json → Option Bytes := Json.dump fun _ => []

/-- A vocabulary with one letter. -/
def letterTokenizer : ByteLevelBpeTokenizer := .ofLists [[97]] [] [1] (-1) (-1)

/-- The last token of a request. -/
def lastToken : GeneratedToken := ⟨0, true, true⟩

theorem streams_lastToken :
    (makeSseFrame plainDump letterTokenizer lastToken "req-0").isSome = true ∧
      7 ∉ (connectionEnd ⟨{7}, true, false, false, false⟩ 7
        (streamLoop plainDump letterTokenizer "req-0"
          [.event (.ok lastToken) true]).2).activeConns := by
  have hframe : (makeSseFrame plainDump letterTokenizer lastToken "req-0").isSome = true := by
    decide +kernel
  refine ⟨hframe, (streams_iff (Json.strict_dump _) letterTokenizer "req-0").2 _ _ _ ?_ ?_⟩
  · intro tok written hmem
    obtain ⟨rfl, -⟩ : tok = lastToken ∧ written = true := by simpa using hmem
    exact (makeSseFrame_isSome_iff (Json.strict_dump _) "req-0").mp hframe
  · decide +kernel

/-- A vocabulary with one entry, the character of the byte C3. -/
def partTokenizer : ByteLevelBpeTokenizer := .ofLists [[0xC3, 0x83]] [] [1] (-1) (-1)

/-- The stream of a request whose only token is that byte. -/
def partStream : List Bytes × StreamEnd :=
  streamLoop plainDump partTokenizer "req-0" [.event (.ok lastToken) true]

/-- The token of a byte that begins a longer character has no frame. The connection stays open,
also for a shutdown that waits for it. -/
theorem stream_throws :
    ByteLevelBpeTokenizer.loadFromVocabAndMerges [[0xC3, 0x83]] [] [1] (-1) (-1) =
        .ok partTokenizer ∧ lastToken.tokenId.toNat < partTokenizer.vocabSize ∧
      makeSseFrame plainDump partTokenizer lastToken "req-0" = none ∧ partStream.2 = .thrown ∧
      connectionEnd ⟨{7}, false, true, true, false⟩ 7 partStream.2 =
        ⟨{7}, false, true, true, false⟩ := by
  refine ⟨rfl, ?_⟩
  decide +kernel

end Http

end CcInfer
