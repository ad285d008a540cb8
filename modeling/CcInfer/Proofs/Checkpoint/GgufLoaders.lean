import CcInfer.Checkpoint.GgufConfig
import CcInfer.Lib.Fallible
import CcInfer.Proofs.Checkpoint.GgufRoundTrip
import CcInfer.Tokenizer.GgufTokenizer

/-!
# `CcInfer.Proofs.Checkpoint.GgufLoaders`: when the loaders of a GGUF file let an exception out

`GGUFReader::parse` checks that a value has the form of its type, not that a key has the type that a
loader expects. For a key that has the wrong type most accessors give an empty optional, and the
loader returns an error code. `as_string` throws instead. The loaders call it on the architecture,
and on every element of the arrays of tokens and merges.
-/

set_option autoImplicit false

namespace CcInfer.Gguf

open GgufConfigLoader

variable {α β : Type}
variable {reader : GgufReader}

/-- A computation that goes on with a function that throws nothing returns if its first part
does. -/
theorem returns_bind_pure {x : Except Exception α} {f : α → β} :
    (∃ r, (do let a ← x; return f a) = (.ok r : Except Exception β)) ↔ ∃ a, x = .ok a := by
  cases x with
  | error => exact iff_of_false (fun ⟨_, h⟩ => by cases h) (fun ⟨_, h⟩ => by cases h)
  | ok a => exact iff_of_true ⟨f a, rfl⟩ ⟨a, rfl⟩

/-- The loop over an array of strings returns if all elements are strings. -/
theorem strings_eq_ok_iff {values : List MetadataValue} :
    (∃ ss, strings values = .ok ss) ↔ ∀ v ∈ values, v.IsString := by
  constructor
  · rintro ⟨_, h⟩ _ hv
    exact MetadataValue.asString_eq_ok_iff.mp (Fallible.exists_of_mapM h hv)
  · intro h
    exact Fallible.mapM_of_forall fun v hv => MetadataValue.asString_eq_ok_iff.mpr (h v hv)

theorem readMerges_eq_ok_iff : (∃ merges, readMerges reader = .ok merges) ↔
      ∀ values, reader.findArray "tokenizer.ggml.merges" = some values →
        ∀ v ∈ values, v.IsString := by
  unfold readMerges
  cases reader.findArray "tokenizer.ggml.merges" with
  | none => exact iff_of_true ⟨[], rfl⟩ (fun values h => by cases h)
  | some values =>
    refine strings_eq_ok_iff.trans ⟨?_, fun h => h values rfl⟩
    rintro h _ ⟨⟩
    exact h

theorem load_eq_ok_iff {toFloat : Rat → Option Rat} : (∃ r, load toFloat reader = .ok r) ↔
      ∀ v, reader.findMetadata "general.architecture" = some v → v.IsString := by
  unfold load
  cases reader.findMetadata "general.architecture" with
  | none => exact iff_of_true ⟨_, rfl⟩ (fun v h => by cases h)
  | some arch =>
    refine (returns_bind_pure.trans MetadataValue.asString_eq_ok_iff).trans
      ⟨?_, fun h => h arch rfl⟩
    rintro h _ ⟨⟩
    exact h

/-- No exception, if the arrays hold strings. -/
theorem createTokenizerFromGguf_eq_ok_iff : (∃ r, createTokenizerFromGguf reader = .ok r) ↔
      ∀ tokens, reader.findArray "tokenizer.ggml.tokens" = some tokens →
        (∀ v ∈ tokens, v.IsString) ∧
        ∀ merges, reader.findArray "tokenizer.ggml.merges" = some merges →
          ∀ v ∈ merges, v.IsString := by
  unfold createTokenizerFromGguf
  cases reader.findArray "tokenizer.ggml.tokens" with
  | none => exact iff_of_true ⟨_, rfl⟩ (fun tokens h => by cases h)
  | some values =>
    rw [← readMerges_eq_ok_iff]
    constructor
    · rintro ⟨r, h⟩ _ ⟨⟩
      obtain ⟨tokens, htokens, h⟩ := Fallible.bind_eq_ok_iff.mp h
      exact ⟨strings_eq_ok_iff.mp ⟨tokens, htokens⟩, returns_bind_pure.mp ⟨r, h⟩⟩
    · intro h
      obtain ⟨hvalues, hmerges⟩ := h values rfl
      obtain ⟨tokens, htokens⟩ := strings_eq_ok_iff.mpr hvalues
      obtain ⟨r, hr⟩ := returns_bind_pure.mpr hmerges
      exact ⟨r, Fallible.bind_eq_ok_iff.mpr ⟨tokens, htokens, hr⟩⟩

/-- The loaders return, with a value or an error code, exactly if the values that they read as
strings are strings. The merges count only where the tokens are an array of strings. -/
theorem loaders_return_iff (toFloat : Rat → Option Rat) (reader : GgufReader) :
    ((∃ r, load toFloat reader = .ok r) ↔
      ∀ v, reader.findMetadata "general.architecture" = some v → v.IsString) ∧
    ((∃ r, createTokenizerFromGguf reader = .ok r) ↔
      ∀ tokens, reader.findArray "tokenizer.ggml.tokens" = some tokens →
        (∀ v ∈ tokens, v.IsString) ∧
        ∀ merges, reader.findArray "tokenizer.ggml.merges" = some merges →
          ∀ v ∈ merges, v.IsString) :=
  ⟨load_eq_ok_iff, createTokenizerFromGguf_eq_ok_iff⟩

/-- A document with numbers for the architecture and for its one token. -/
def numberedDocument : Document where
  metadata := [(bytes "general.architecture", .u32 35),
    (bytes "tokenizer.ggml.tokens", .array .u32 [.u32 0])]
  tensors := []
  data := []
  homogeneous := by simp [DocValue.Homogeneous, DocValue.AllHomogeneous, DocValue.type]

/-- The reader accepts the file, and both loaders let the exception out. -/
theorem numberedDocument_throws : ∃ reader, parse numberedDocument.encode = .ok reader ∧
      load some reader = .error .badVariantAccess ∧
      createTokenizerFromGguf reader = .error .badVariantAccess := by
  refine ⟨numberedDocument.reader, parse_document _ (by decide +kernel), ?_, ?_⟩
  · have harch : numberedDocument.reader.findMetadata "general.architecture" = some (.u32 35) := by
      simp [GgufReader.findMetadata, Document.reader, numberedDocument, DocValue.meaning]
    rw [load, harch]
    rfl
  · have htokens : numberedDocument.reader.findArray "tokenizer.ggml.tokens" =
        some [.u32 0] := by
      have hkeys : bytes "general.architecture" ≠ bytes "tokenizer.ggml.tokens" := by
        decide +kernel
      simp [GgufReader.findArray, GgufReader.findMetadata, Document.reader, numberedDocument,
        hkeys, DocValue.meaning, DocValue.meanings, MetadataValue.asArray]
    rw [createTokenizerFromGguf, htokens]
    rfl

end CcInfer.Gguf
