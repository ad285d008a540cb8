import CcInfer.Base.JsonDump
import CcInfer.Checkpoint.SafetensorsReader
import CcInfer.Model.Qwen3Weights
import Mathlib.Algebra.BigOperators.Group.List.Basic

/-!
# `CcInfer.Proofs.Checkpoint.SafetensorsCopy`: what is copied for a tensor of a safetensors file

The header of a safetensors file says the shape of a tensor and the range of its bytes, one apart
from the other. `Reader::parse` checks the range against the file, `Qwen3Weights::load` checks the
shape against the configuration, and the copy to the device takes the number of bytes from the
shape. Nothing compares the two.
-/

set_option autoImplicit false

namespace CcInfer.Safetensors

open Fallible (bind_eq_ok_iff)

variable {shape : List Int} {available : Nat} {info : SafetensorsTensorInfo} {name : Bytes}
variable {fields : List (Bytes × Json)} {reader : Reader}

/-- The header has an entry for the tensor, with this shape and this range. -/
def Declares (header : Json) (name : Bytes) (shape : List Int) (first last : Nat) : Prop :=
  ∃ (entry : Json) (dims : List Int), header.get? name = some entry ∧
    entry.get? (bytes "shape") = some (.array (dims.map .integer)) ∧
    shape = dims.map Json.getInt64 ∧
    entry.get? (bytes "data_offsets") = some (.array [.integer first, .integer last])

/-! ### The reader -/

/-- A parsed shape is a list of integers. -/
theorem mapM_parseDim {values : List Json} (h : values.mapM parseDim = .ok shape) :
    ∃ dims : List Int, values = dims.map .integer ∧ shape = dims.map Json.getInt64 := by
  induction values generalizing shape with
  | nil =>
    obtain rfl := Except.ok.inj h
    exact ⟨[], rfl, rfl⟩
  | cons value _ ih =>
    rw [List.mapM_cons] at h
    obtain ⟨_, hdim, h⟩ := bind_eq_ok_iff.mp h
    obtain ⟨_, hrest, h⟩ := bind_eq_ok_iff.mp h
    obtain rfl := Except.ok.inj h
    obtain ⟨dims, rfl, rfl⟩ := ih hrest
    cases value with
    | integer n =>
      obtain rfl := Except.ok.inj hdim
      exact ⟨n :: dims, rfl, rfl⟩
    | _ => cases hdim

/-- An accepted range is one of numbers in order, inside the data section. -/
theorem parseRange_eq_ok {dtype : DType} {a b : Json}
    (h : parseRange available dtype shape a b = .ok info) :
    ∃ first last : Nat, a = .integer first ∧ b = .integer last ∧ first ≤ last ∧
      last ≤ available ∧ info = ⟨dtype, shape, first, last - first⟩ := by
  unfold parseRange at h
  split at h
  · rename_i first last
    split at h
    · cases h
    · split at h
      · cases h
      · simp only at h
        split at h
        · cases h
        · split at h
          · cases h
          · obtain rfl := Except.ok.inj h
            refine ⟨first.toNat, last.toNat, ?_, ?_, by omega, by omega, rfl⟩
            · rw [Int.toNat_of_nonneg (by omega)]
            · rw [Int.toNat_of_nonneg (by omega)]
  · cases h

/-- What an accepted entry says. -/
theorem parseEntry_eq_ok {entry : Json} (h : parseEntry available entry = .ok info) :
    ∃ (dims : List Int) (first last : Nat),
      entry.get? (bytes "shape") = some (.array (dims.map .integer)) ∧
      info.shape = dims.map Json.getInt64 ∧
      entry.get? (bytes "data_offsets") = some (.array [.integer first, .integer last]) ∧
      first ≤ last ∧ last ≤ available ∧ info.offset = first ∧ info.sizeBytes = last - first := by
  unfold parseEntry at h
  split at h
  · rename_i dt values a b _ hshape hrange
    obtain ⟨_, -, h⟩ := bind_eq_ok_iff.mp h
    obtain ⟨_, hdims, h⟩ := bind_eq_ok_iff.mp h
    obtain ⟨dims, rfl, rfl⟩ := mapM_parseDim hdims
    obtain ⟨first, last, rfl, rfl, hle, havailable, rfl⟩ := parseRange_eq_ok h
    exact ⟨dims, first, last, hshape, rfl, hrange, hle, havailable, rfl, rfl⟩
  · cases h

/-- The metadata are no tensor. -/
theorem parseFields_name : ∀ {tensors}, parseFields available fields = .ok tensors →
      ∀ t ∈ tensors, t.1 ≠ bytes "__metadata__" := by
  induction fields with
  | nil =>
    intro tensors h t ht
    obtain rfl := Except.ok.inj h
    cases ht
  | cons field rest ih =>
    intro tensors h t ht
    obtain ⟨name, info⟩ := field
    rw [parseFields] at h
    split at h
    · exact ih h t ht
    · obtain ⟨parsed, -, h⟩ := bind_eq_ok_iff.mp h
      obtain ⟨others, hothers, h⟩ := bind_eq_ok_iff.mp h
      obtain rfl := Except.ok.inj h
      rcases List.mem_cons.mp ht with rfl | ht
      · assumption
      · exact ih hothers t ht

/-- A tensor that is found was read from the entry of its name. -/
theorem parseFields_find : ∀ {tensors}, parseFields available fields = .ok tensors →
      (tensors.find? fun t => t.1 == name).map Prod.snd = some info →
      ∃ entry, (fields.find? fun f => f.1 == name).map Prod.snd = some entry ∧
        parseEntry available entry = .ok info := by
  induction fields with
  | nil =>
    intro tensors h hfind
    obtain rfl := Except.ok.inj h
    cases hfind
  | cons field rest ih =>
    intro tensors h hfind
    obtain ⟨key, value⟩ := field
    have hname : name ≠ bytes "__metadata__" := by
      obtain ⟨t, ht, -⟩ := Option.map_eq_some_iff.mp hfind
      have hkey : t.1 = name := by simpa using List.find?_some ht
      exact hkey ▸ parseFields_name h t (List.mem_of_find?_eq_some ht)
    rw [parseFields] at h
    split at h
    · rename_i hmeta
      have hne : (key == name) = false := by
        rw [hmeta]
        exact beq_false_of_ne (Ne.symm hname)
      rw [List.find?_cons_of_neg (by simp [hne])]
      exact ih h hfind
    · obtain ⟨_, hparsed, h⟩ := bind_eq_ok_iff.mp h
      obtain ⟨_, hothers, h⟩ := bind_eq_ok_iff.mp h
      obtain rfl := Except.ok.inj h
      by_cases hkey : key = name
      · rw [List.find?_cons_of_pos (by simp [hkey])] at hfind ⊢
        obtain rfl := Option.some.inj hfind
        exact ⟨value, rfl, hparsed⟩
      · rw [List.find?_cons_of_neg (by simp [hkey])] at hfind ⊢
        exact ih hothers hfind

/-- What a parsed file says of a tensor that is found in it. -/
theorem parse_declares {parseText : Bytes → Option Json} {file : Bytes}
    (hparse : parse parseText file = .ok reader) (hfind : reader.findTensor name = some info) :
    ∃ header first last, parseText (headerText file) = some header ∧
      Declares header name info.shape first last ∧ first ≤ last ∧
      reader.dataStart + last ≤ reader.file.length ∧
      info.offset = first ∧ info.sizeBytes = last - first := by
  unfold parse at hparse
  split at hparse
  · cases hparse
  · split at hparse
    · cases hparse
    · rename_i hsize hlen
      split at hparse
      · rename_i fields hheader
        obtain ⟨_, hfields, hparse⟩ := bind_eq_ok_iff.mp hparse
        split at hparse
        · cases hparse
        · obtain rfl := Except.ok.inj hparse
          obtain ⟨entry, hentry, hinfo⟩ := parseFields_find hfields hfind
          obtain ⟨dims, first, last, hdims, hshape, hrange, hle, havailable, hoffset, hbytes⟩ :=
            parseEntry_eq_ok hinfo
          refine ⟨.object fields, first, last, hheader,
            ⟨entry, dims, hentry, hdims, hshape, hrange⟩, hle, ?_, hoffset, hbytes⟩
          simp only at havailable ⊢
          omega
      · cases hparse

/-! ### The copy of a tensor -/

/-- What a loaded tensor has passed: the source has it with this shape, and its bytes are read. -/
theorem loadTensor_eq_ok {backend : Backend}
    {t : Tensor} (h : Qwen3Weights.loadTensor backend reader.weightSource name shape = .ok t) :
    ∃ info, reader.findTensor name = some info ∧ info.shape = shape ∧
      (t.nbytes : Int) = shape.prod * 2 := by
  unfold Qwen3Weights.loadTensor at h
  obtain ⟨sourceInfo, hinfo, h⟩ := bind_eq_ok_iff.mp h
  simp only [Reader.weightSource] at hinfo
  split at hinfo
  · cases hinfo
  · rename_i info hfind
    obtain rfl := Except.ok.inj hinfo
    split at h
    · cases h
    · rename_i hshape
      split at h
      · cases h
      · obtain ⟨_, -, h⟩ := bind_eq_ok_iff.mp h
        obtain ⟨_, hbytes, h⟩ := bind_eq_ok_iff.mp h
        obtain ⟨-, -, h⟩ := bind_eq_ok_iff.mp h
        obtain rfl := Except.ok.inj h
        exact ⟨info, hfind, not_not.mp hshape, (checkedNbytesDense_eq_ok_iff.mp hbytes).2.2.1⟩

/-- Every tensor of a parsed file that is loaded has a range in the header. The bytes that the
reader returns are this range, in the data section. The copy has two bytes for each element of the
shape. It is as long as the bytes exactly if the range has this length, and stays inside them
exactly if the range is no shorter. -/
theorem loadTensor_copies_iff {parseText : Bytes → Option Json} {file name : Bytes}
    {reader : Reader} {backend : Backend} {shape : List Int} {t : Tensor}
    (hparse : parse parseText file = .ok reader)
    (hload : Qwen3Weights.loadTensor backend reader.weightSource name shape = .ok t) :
    ∃ header first last span, parseText (headerText file) = some header ∧
      Declares header name shape first last ∧ reader.weightSource.read name = .ok span ∧
      (reader.dataStart ≤ span.start ∧ span.start + span.length ≤ reader.file.length) ∧
      (t.nbytes : Int) = shape.prod * 2 ∧
      (t.nbytes = span.length ↔ (last - first : Int) = shape.prod * 2) ∧
      (span.start + t.nbytes ≤ reader.dataStart + last ↔ shape.prod * 2 ≤
        (last - first : Int)) := by
  obtain ⟨info, hfind, rfl, hbytes⟩ := loadTensor_eq_ok hload
  obtain ⟨header, first, last, hheader, hdeclares, _, _, _, _⟩ :=
    parse_declares hparse hfind
  have hread : reader.weightSource.read name =
      .ok ⟨reader.file, reader.dataStart + info.offset, info.sizeBytes⟩ := by
    simp only [Reader.weightSource, hfind]
    exact if_neg (by omega)
  refine ⟨header, first, last, _, hheader, hdeclares, hread, ⟨?_, ?_⟩, hbytes, ?_, ?_⟩
  · exact Nat.le_add_right _ _
  · simp only
    omega
  · simp only
    omega
  · simp only
    omega

/-! ### A range that is too short -/

/-- An entry of a header. -/
def shortEntry (shape : List Int) (first last : Int) : Json :=
  .object [(bytes "data_offsets", .array [.integer first, .integer last]),
    (bytes "dtype", .string (bytes "BF16")), (bytes "shape", .array (shape.map .integer))]

/-- The header of a model with one layer and all sizes one. The tensors share two bytes, and the
last one has a range of a single byte behind them. -/
def shortHeader : Json :=
  .object
    [(bytes "lm_head.weight", shortEntry [1, 1] 0 2),
      (bytes "model.embed_tokens.weight", shortEntry [1, 1] 0 2),
      (bytes "model.layers.0.input_layernorm.weight", shortEntry [1] 0 2),
      (bytes "model.layers.0.mlp.down_proj.weight", shortEntry [1, 1] 0 2),
      (bytes "model.layers.0.mlp.gate_proj.weight", shortEntry [1, 1] 0 2),
      (bytes "model.layers.0.mlp.up_proj.weight", shortEntry [1, 1] 0 2),
      (bytes "model.layers.0.post_attention_layernorm.weight", shortEntry [1] 0 2),
      (bytes "model.layers.0.self_attn.k_proj.weight", shortEntry [1, 1] 0 2),
      (bytes "model.layers.0.self_attn.o_proj.weight", shortEntry [1, 1] 0 2),
      (bytes "model.layers.0.self_attn.q_proj.weight", shortEntry [1, 1] 0 2),
      (bytes "model.layers.0.self_attn.v_proj.weight", shortEntry [1, 1] 0 2),
      (bytes "model.norm.weight", shortEntry [1] 2 3)]

/-- The text of the header. -/
def shortText : Bytes := (shortHeader.dump fun _ => []).getD []

/-- What the JSON library does with this text. -/
def shortParse (text : Bytes) : Option Json := if text = shortText then some shortHeader else none

/-- The file: the header and a data section of three bytes. -/
def shortFile : Bytes := leBytes 8 shortText.length ++ shortText ++ [1, 2, 3]

/-- The configuration of the model. -/
def shortConfig : ModelConfig where
  arch := .qwen3
  nLayers := 1
  nQHeads := 1
  nKvHeads := 1
  dModel := 1
  headDim := 1
  dFf := 1
  vocabSize := 1
  maxSeqLen := 1

/-- A device that grants everything. -/
def grantingBackend : Backend := ⟨8, fun _ => .ok ()⟩

/-- The file is accepted and the model loads, with a copy of two bytes where the range has one and
the file ends. -/
theorem shortFile_overrun :
    (shortHeader.dump fun _ => []) = some shortText ∧ shortConfig.validate = .ok () ∧
    ∃ reader w span, parse shortParse shortFile = .ok reader ∧
      Qwen3Weights.load grantingBackend reader.weightSource shortConfig = .ok w ∧
      reader.weightSource.read (bytes "model.norm.weight") = .ok span ∧
      (span.length, w.rmsFinal.nbytes) = (1, 2) ∧
      reader.file.length < span.start + w.rmsFinal.nbytes := by
  have hrun : (do
      let reader ← parse shortParse shortFile
      let w ← Qwen3Weights.load grantingBackend reader.weightSource shortConfig
      let span ← reader.weightSource.read (bytes "model.norm.weight")
      return ((span.length, w.rmsFinal.nbytes),
        decide (reader.file.length < span.start + w.rmsFinal.nbytes))) =
      (.ok ((1, 2), true) : Result ((Nat × Nat) × Bool)) := by
    decide +kernel
  obtain ⟨reader, hparse, hrun⟩ := bind_eq_ok_iff.mp hrun
  obtain ⟨w, hload, hrun⟩ := bind_eq_ok_iff.mp hrun
  obtain ⟨span, hread, hrun⟩ := bind_eq_ok_iff.mp hrun
  obtain ⟨hsizes, hpast⟩ := Prod.ext_iff.mp (Except.ok.inj hrun)
  exact ⟨by decide +kernel, by decide +kernel, reader, w, span, hparse, hload, hread, hsizes,
    of_decide_eq_true hpast⟩

theorem loadTensor_copies_iff_lmHead : ∃ reader t, parse shortParse shortFile = .ok reader ∧
      Qwen3Weights.loadTensor grantingBackend reader.weightSource (bytes "lm_head.weight") [1, 1] =
        .ok t ∧ ∃ header first last span, shortParse (headerText shortFile) = some header ∧
        Declares header (bytes "lm_head.weight") [1, 1] first last ∧
        reader.weightSource.read (bytes "lm_head.weight") = .ok span ∧
        (reader.dataStart ≤ span.start ∧ span.start + span.length ≤ reader.file.length) ∧
        (t.nbytes : Int) = [(1 : Int), 1].prod * 2 ∧
        (t.nbytes = span.length ↔ (last - first : Int) = [(1 : Int), 1].prod * 2) ∧
        (span.start + t.nbytes ≤ reader.dataStart + last ↔
          [(1 : Int), 1].prod * 2 ≤ (last - first : Int)) := by
  have hrun : (do
      let reader ← parse shortParse shortFile
      let t ← Qwen3Weights.loadTensor grantingBackend reader.weightSource (bytes "lm_head.weight")
        [1, 1]
      return t.nbytes) = (.ok 2 : Result Nat) := by
    decide +kernel
  obtain ⟨reader, hparse, hrun⟩ := bind_eq_ok_iff.mp hrun
  obtain ⟨t, hload, -⟩ := bind_eq_ok_iff.mp hrun
  exact ⟨reader, t, hparse, hload, loadTensor_copies_iff hparse hload⟩

end CcInfer.Safetensors
