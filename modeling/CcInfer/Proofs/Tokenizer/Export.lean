import CcInfer.Proofs.Tokenizer.Tables
import CcInfer.Tokenizer.TokenizerJson

/-!
# `CcInfer.Proofs.Tokenizer.Export`: the tables of a tokenizer loaded from an exported file

What `load` leaves in the tables when the file is the one that `build_tokenizer_json` writes
for some lists, as a function of those lists (`Exported`, `load_export`). Vocabulary and merges
are those of `load_from_vocab_and_merges`. A special token has the last index of its string,
whatever the type of that entry is, and the unknown token goes by its name.
-/

set_option autoImplicit false

namespace CcInfer.ByteLevelBpeTokenizer

variable {tokens added : List Bytes} {token : Bytes} {id : Nat} {t : ByteLevelBpeTokenizer}

/-! ### The fields of the exported file -/

theorem jsonId_natCast {n : Nat} (h : n < 2 ^ 31 - 1) : jsonId n = some n := by
  have hraw : Json.getInt64 n = n := by
    unfold Json.getInt64
    rw [BitVec.toInt_ofInt]
    exact Int.bmod_eq_of_le (by omega) (by omega)
  simp only [jsonId, hraw]
  rw [if_neg (by omega)]
  simp

/-- The vocabulary field by field. -/
theorem foldlM_addVocabField {entries : List (Sigma fun _ : Bytes => Nat)}
    (hsmall : ∀ e ∈ entries, e.2 < 2 ^ 31 - 1) (t : ByteLevelBpeTokenizer) :
    (entries.map fun e => (e.1, Json.integer e.2)).foldlM addVocabField t =
      .ok (entries.foldl (fun t e => t.addToken e.1 e.2) t) := by
  induction entries generalizing t with
  | nil => rfl
  | cons e _ ih =>
    have hstep : addVocabField t (e.1, Json.integer e.2) = .ok (t.addToken e.1 e.2) := by
      simp only [addVocabField, jsonId_natCast (hsmall e List.mem_cons_self)]
    rw [List.map_cons, List.foldlM_cons, hstep, List.foldl_cons]
    exact ih (fun e he => hsmall e (List.mem_cons_of_mem _ he)) _

theorem mapM_mergeItem (merges : List Bytes) :
    (merges.map Json.string).mapM mergeItem = .ok (merges.map mergePair) := by
  induction merges with
  | nil => rfl
  | cons _ _ ih =>
    rw [List.map_cons, List.mapM_cons, ih]
    rfl

/-- What an exported added token enters. -/
def addExported (t : ByteLevelBpeTokenizer) (token : Bytes) (id : Nat) : ByteLevelBpeTokenizer :=
  ((t.addToken token id).addSpecial token id).addNamed token id

theorem addAdded_addedToken
    (hid : (exportedVocab tokens).lookup token = some id) (hsmall : id < 2 ^ 31 - 1)
    (t : ByteLevelBpeTokenizer) :
    t.addAdded (addedToken tokens token) = t.addExported token id := by
  have hkeys : (bytes "id" == bytes "content") = false ∧ (bytes "id" == bytes "special") = false ∧
      (bytes "content" == bytes "special") = false := by decide +kernel
  obtain ⟨hidContent, hidSpecial, hcontentSpecial⟩ := hkeys
  simp only [addAdded, addedToken, Json.get?, List.find?, hidContent, hidSpecial, hcontentSpecial,
    beq_self_eq_true, Option.map_some, hid, Option.getD_some, jsonId_natCast hsmall]
  rfl

/-- The special entries, as the exporter finds them. -/
theorem specialTokens_eq_zip (tokens : List Bytes) (tokenTypes : List Int) :
    specialTokens tokens tokenTypes =
      ((tokens.zip tokenTypes).filter fun e => 3 ≤ e.2).map Prod.fst := by
  have hfrom : ∀ start, ((tokens.zipIdx start).filter fun e => specialAt tokenTypes e.2).map
      Prod.fst = ((tokens.zip (tokenTypes.drop start)).filter fun e => 3 ≤ e.2).map Prod.fst := by
    induction tokens with
    | nil => intro start; rfl
    | cons _ _ ih =>
      intro start
      have hrest := ih (start + 1)
      rw [List.zipIdx_cons]
      by_cases hlt : start < tokenTypes.length
      · rw [List.drop_eq_getElem_cons hlt, List.zip_cons_cons]
        have hspecial : specialAt tokenTypes start = decide (3 ≤ tokenTypes[start]) := by
          simp [specialAt, List.getElem?_eq_getElem hlt]
        by_cases hthree : 3 ≤ tokenTypes[start]
        · simp [hspecial, hthree, hrest]
        · simp [hspecial, hthree, hrest]
      · have hspecial : specialAt tokenTypes start = false := by
          simp [specialAt, List.getElem?_eq_none (Nat.le_of_not_lt hlt)]
        have hdrop : tokenTypes.drop start = [] := List.drop_eq_nil_of_le (Nat.le_of_not_lt hlt)
        have hdrop' : tokenTypes.drop (start + 1) = [] := List.drop_eq_nil_of_le (by omega)
        rw [hdrop'] at hrest
        rw [hdrop, List.filter_cons_of_neg (by simp [hspecial]), hrest]
        simp
  exact hfrom 0

/-! ### The added tokens -/

/-- What is in the tables when the added tokens `added` have been entered and `v` gives the
ids of the vocabulary. -/
structure Exported (v : Bytes → Option Nat) (added : List Bytes) (t : ByteLevelBpeTokenizer) :
    Prop where
  vocab : ∀ s, t.vocab.lookup s = v s
  special : ∀ s, t.specialTokenToId.lookup s = if s ∈ added then v s else none
  unk : t.unkTokenId = (added.reverse.find? (· ∈ unkNames)).bind v

theorem eosNames_disjoint : ∀ s ∈ unkNames, s ∉ eosNames := by
  decide +kernel

/-- One more added token. -/
theorem Exported.step {v : Bytes → Option Nat} (h : Exported v added t) (hid : v token = some id) :
    Exported v (added ++ [token]) (t.addExported token id) := by
  have hvocab : (t.addExported token id).vocab = t.vocab.insert token id := by
    simp only [addExported, addNamed]
    repeat' split
    all_goals rfl
  have hspecial : (t.addExported token id).specialTokenToId =
      t.specialTokenToId.insert token id := by
    simp only [addExported, addNamed]
    repeat' split
    all_goals rfl
  refine ⟨fun s => ?_, fun s => ?_, ?_⟩
  · rw [hvocab]
    by_cases hs : s = token
    · rw [hs, AList.lookup_insert, hid]
    · rw [AList.lookup_insert_ne hs, h.vocab]
  · rw [hspecial]
    by_cases hs : s = token
    · rw [hs, AList.lookup_insert, if_pos (by simp), hid]
    · rw [AList.lookup_insert_ne hs, h.special]
      simp [hs]
  · rw [List.reverse_append, List.reverse_singleton, List.singleton_append]
    by_cases hname : token ∈ unkNames
    · rw [List.find?_cons_of_pos (by simpa using hname), Option.bind_some, hid, addExported,
        addNamed, if_neg (eosNames_disjoint token hname), if_pos hname]
    · rw [List.find?_cons_of_neg (by simpa using hname), ← h.unk, addExported, addNamed,
        if_neg hname]
      split <;> rfl

theorem mergeRank_addExported (t : ByteLevelBpeTokenizer) (token : Bytes) (id : Nat) :
    (t.addExported token id).mergeRank = t.mergeRank := by
  simp only [addExported, addNamed]
  repeat' split
  all_goals rfl

/-- All added tokens of the exported file. -/
theorem foldl_addAdded
    (hadded : ∀ token ∈ added, ∃ id, (exportedVocab tokens).lookup token = some id ∧
      id < 2 ^ 31 - 1) (h : Exported (exportedVocab tokens).lookup [] t) :
    Exported (exportedVocab tokens).lookup added
      ((added.map (addedToken tokens)).foldl addAdded t) ∧
      ((added.map (addedToken tokens)).foldl addAdded t).mergeRank = t.mergeRank := by
  induction added using List.reverseRecOn with
  | nil => exact ⟨h, rfl⟩
  | append_singleton _ token ih =>
    obtain ⟨hbefore, hrank⟩ := ih fun token hmem => hadded token (List.mem_append_left _ hmem)
    obtain ⟨_, hid, hsmall⟩ := hadded token (by simp)
    rw [List.map_append, List.foldl_append, List.map_singleton, List.foldl_cons, List.foldl_nil,
      addAdded_addedToken hid hsmall]
    exact ⟨hbefore.step hid, (mergeRank_addExported _ _ _).trans hrank⟩

/-! ### The loaded tokenizer -/

/-- The unknown token by name: of the added tokens the last one with such a name, and if there
is none, an entry of the vocabulary. -/
def namedUnknown (tokens : List Bytes) (tokenTypes : List Int) : Option Nat :=
  let v := fun s => (exportedVocab tokens).lookup s
  (((specialTokens tokens tokenTypes).reverse.find? (· ∈ unkNames)).bind v).or
    ((v (bytes "<unk>")).or (v (bytes "[UNK]")))

/-- The tables that `load` leaves for the file exported from the lists. -/
structure LoadedExport (tokens merges : List Bytes) (tokenTypes : List Int)
    (t : ByteLevelBpeTokenizer) : Prop where
  vocab : ∀ s, t.vocab.lookup s = (exportedVocab tokens).lookup s
  special : ∀ s, t.specialTokenToId.lookup s =
    if s ∈ specialTokens tokens tokenTypes then (exportedVocab tokens).lookup s else none
  unk : t.unkTokenId = namedUnknown tokens tokenTypes
  mergeRank : t.mergeRank = rankMerges (merges.filterMap mergePair)

section Load

variable {s : Bytes} {tokenTypes : List Int}

/-- The ids of the exported vocabulary are indices of the list. -/
theorem exportedVocab_lt {id : Nat} (h : (exportedVocab tokens).lookup s = some id) :
    id < tokens.length :=
  (List.getElem?_eq_some_iff.mp (LastIndex.lookup_indexOf.mp h).1.1).1

/-- Every token has an id in the exported vocabulary. -/
theorem exists_exportedVocab (h : s ∈ tokens) :
    ∃ id, (exportedVocab tokens).lookup s = some id := by
  obtain ⟨i, hi⟩ := List.mem_iff_getElem?.mp h
  obtain ⟨last, hlast⟩ := LastIndex.exists_lastAt
    (p := fun i => tokens[i]? = some s ∧ (fun _ => true) i = true) ⟨hi, rfl⟩
    (n := tokens.length) fun j hj hjs => by
      have hnone : tokens[j]? = none := List.getElem?_eq_none hj
      exact absurd (hnone.symm.trans hjs.1) (by simp)
  exact ⟨last, LastIndex.lookup_indexOf.mpr hlast⟩

theorem mem_of_mem_specialTokens (h : s ∈ specialTokens tokens tokenTypes) : s ∈ tokens := by
  obtain ⟨⟨_, _⟩, hmem, rfl⟩ := List.mem_map.mp h
  exact List.mem_of_getElem? (List.mk_mem_zipIdx_iff_getElem?.mp (List.mem_filter.mp hmem).1)

theorem foldl_addToken (entries : List (Sigma fun _ : Bytes => Nat)) (t : ByteLevelBpeTokenizer) :
    (entries.foldl (fun t e => t.addToken e.1 e.2) t).specialTokenToId = t.specialTokenToId ∧
      (entries.foldl (fun t e => t.addToken e.1 e.2) t).unkTokenId = t.unkTokenId := by
  induction entries generalizing t with
  | nil => exact ⟨rfl, rfl⟩
  | cons e _ ih => exact ih (t.addToken e.1 e.2)

/-- The vocabulary and the merges of the file. -/
def modelTables (tokens merges : List Bytes) : ByteLevelBpeTokenizer :=
  { (exportedVocab tokens).entries.foldl (fun (t : ByteLevelBpeTokenizer) e => t.addToken e.1 e.2)
      {} with
    mergeRank := rankMerges (merges.filterMap mergePair) }

/-- Before any added token. -/
theorem exported_modelTables (merges : List Bytes) :
    Exported (exportedVocab tokens).lookup [] (modelTables tokens merges) := by
  have hvocab : (modelTables tokens merges).vocab =
      (exportedVocab tokens).entries.foldl (fun m e => m.insert e.1 e.2) ∅ :=
    (List.foldl_hom ByteLevelBpeTokenizer.vocab fun t e => rfl).symm
  obtain ⟨hspecial, hunk⟩ := foldl_addToken (exportedVocab tokens).entries {}
  have hspecial : (modelTables tokens merges).specialTokenToId = ∅ := hspecial
  refine ⟨fun s => ?_, fun s => ?_, hunk⟩
  · rw [hvocab, LastIndex.lookup_insertAll (exportedVocab tokens).nodupKeys, AList.lookup_empty,
      Option.or_none]
    rfl
  · rw [hspecial]
    rfl

/-- A map is empty when nothing is found in it. -/
theorem isEmpty_of_lookup {m m' : AList fun _ : Bytes => Nat}
    (h : ∀ s, m.lookup s = m'.lookup s) (hempty : m'.entries.isEmpty = true) :
    m.entries.isEmpty = true := by
  rw [List.isEmpty_iff] at hempty ⊢
  rw [List.eq_nil_iff_forall_not_mem]
  intro e he
  have hfound := AList.mem_lookup_iff.mpr he
  rw [h, AList.lookup, hempty] at hfound
  cases hfound

theorem LoadedExport.isEmpty_vocab {merges : List Bytes}
    {t : ByteLevelBpeTokenizer} (h : LoadedExport tokens merges tokenTypes t) :
    t.vocab.entries.isEmpty = tokens.isEmpty := by
  have hempty := vocab_ofLists_isEmpty tokens merges tokenTypes 0 0
  rw [vocab_ofLists] at hempty
  rw [← hempty, Bool.eq_iff_iff]
  exact ⟨isEmpty_of_lookup fun s => (h.vocab s).symm, isEmpty_of_lookup h.vocab⟩

/-- The tables behind `parse_added_tokens` and `resolve_special_tokens`. -/
theorem loadedExport_resolve (merges : List Bytes) (tokenTypes : List Int)
    (hsmall : tokens.length < 2 ^ 31) {t : ByteLevelBpeTokenizer}
    (h : Exported (exportedVocab tokens).lookup [] t)
    (hrank : t.mergeRank = rankMerges (merges.filterMap mergePair)) :
    LoadedExport tokens merges tokenTypes
      (((specialTokens tokens tokenTypes).map (addedToken tokens)).foldl addAdded
        t).resolveSpecialTokens := by
  have hids : ∀ token ∈ specialTokens tokens tokenTypes,
      ∃ id, (exportedVocab tokens).lookup token = some id ∧ id < 2 ^ 31 - 1 := by
    intro token hmem
    obtain ⟨id, hid⟩ := exists_exportedVocab (mem_of_mem_specialTokens hmem)
    have := exportedVocab_lt hid
    exact ⟨id, hid, by omega⟩
  obtain ⟨hadded, hkeep⟩ := foldl_addAdded hids h
  refine ⟨hadded.vocab, hadded.special, ?_, hkeep.trans hrank⟩
  simp only [resolveSpecialTokens, unkNames, List.foldl_cons, List.foldl_nil, hadded.vocab]
  rw [hadded.unk, Option.or_assoc]
  rfl

/-- Loading the exported file fails for an empty list only. -/
theorem load_export (merges : List Bytes)
    (hlen : tokenTypes.length = tokens.length) (hsmall : tokens.length < 2 ^ 31) :
    ∃ t, LoadedExport tokens merges tokenTypes t ∧
      load (buildTokenizerJson tokens merges tokenTypes) =
        if tokens.isEmpty then .error .modelLoadFailed else .ok t := by
  have hkeys : (bytes "added_tokens" == bytes "model") = false ∧
      (bytes "type" == bytes "vocab") = false ∧ (bytes "type" == bytes "merges") = false ∧
      (bytes "vocab" == bytes "merges") = false := by decide +kernel
  obtain ⟨hmodel, hvocabKey, hmergesKey, hmergesKey'⟩ := hkeys
  have hentries : ∀ e ∈ (exportedVocab tokens).entries, e.2 < 2 ^ 31 - 1 := by
    intro e he
    have := exportedVocab_lt (AList.mem_lookup_iff.mpr he)
    omega
  have htables : LoadedExport tokens merges tokenTypes _ :=
    loadedExport_resolve merges tokenTypes hsmall (exported_modelTables merges) rfl
  refine ⟨_, htables, ?_⟩
  simp only [buildTokenizerJson, hlen, load, Json.get?, List.find?, hmodel, hvocabKey, hmergesKey,
    hmergesKey', beq_self_eq_true, Option.map_some, ne_eq, not_true_eq_false, if_false, loadModel,
    parseVocab, parseMerges, parseAddedTokens]
  have hadded : (((tokens.zip tokenTypes).filter fun e => decide (3 ≤ e.2)).map fun e =>
      addedToken tokens e.1) = (specialTokens tokens tokenTypes).map (addedToken tokens) := by
    rw [specialTokens_eq_zip, List.map_map]
    rfl
  have hpairs : (merges.map mergePair).filterMap id = merges.filterMap mergePair := by
    rw [List.filterMap_map]
    rfl
  rw [foldlM_addVocabField hentries, mapM_mergeItem, hadded, ← htables.isEmpty_vocab]
  simp only [Except.map, bind, Except.bind, hpairs]
  rfl

end Load

end CcInfer.ByteLevelBpeTokenizer
