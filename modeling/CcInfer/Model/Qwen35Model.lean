import CcInfer.Config.ModelConfig

/-!
# `CcInfer.Model.Qwen35Model`: the layers of a Qwen3.5 model by type

The embedding of `model/qwen35/qwen35_model.cpp`. Layers with full attention have a KV cache, and
GDN layers have a state; each kind is numbered on its own.
-/

set_option autoImplicit false

namespace CcInfer.Qwen35

/-- `count_layer_type`. -/
def countLayerType (config : ModelConfig) (type : LayerType) : Nat :=
  (config.layerTypes.take config.nLayers.toNat).count type

/-- `index_for_layer_type`. -/
def indexForLayerType (config : ModelConfig) (layer : Nat) (type : LayerType) : Nat :=
  (config.layerTypes.take layer).count type

/-- `num_kv_layers`. -/
def numKvLayers (config : ModelConfig) : Nat := countLayerType config .fullAttention

/-- `kv_layer_index`. -/
def kvLayerIndex (config : ModelConfig) (layer : Nat) : Nat :=
  indexForLayerType config layer .fullAttention

/-- `num_gdn_layers`. -/
def numGdnLayers (config : ModelConfig) : Nat := countLayerType config .gatedDeltaNet

/-- `gdn_layer_index`. -/
def gdnLayerIndex (config : ModelConfig) (layer : Nat) : Nat :=
  indexForLayerType config layer .gatedDeltaNet

end CcInfer.Qwen35
