import Plasmosome.Backend.CodecLaws
import Plasmosome.Serde.CodecLaws

/-!
# The written forms of the backend's records

What a record is written as holds no float and nests a few levels deep. Every
record that is written or read passes its own checks.
-/

namespace Plasmosome.Backend

open Serde

theorem CellId.codec_writes {bound : Nat} : CellId.codec.Writes bound :=
  Codec.writes_through Codec.writes_string

theorem PluginId.codec_writes {bound : Nat} : PluginId.codec.Writes bound :=
  Codec.writes_through Codec.writes_string

theorem GrantId.codec_writes {bound : Nat} : GrantId.codec.Writes bound := by
  rintro id _ ⟨⟩
  exact .string _

theorem named_writes {α : Type} {name : α → String} {read : String → Option α}
    {hread : ∀ a, read (name a) = some a} {bound : Nat} : (named name read hread).Writes bound := by
  rintro a _ ⟨⟩
  exact .string _

theorem CellOwner.codec_writes : CellOwner.codec.Writes 1 :=
  Codec.writes_through <| Codec.writes_object <|
    Fields.writes_field CellId.codec_writes <|
    Fields.writes_field PluginId.codec_writes Fields.writes_nil

theorem Handle.codec_writes : Handle.codec.Writes 1 :=
  Codec.writes_through <| Codec.writes_object <|
    Fields.writes_field named_writes <|
    Fields.writes_field GrantId.codec_writes Fields.writes_nil

/-! ## Recipes -/

theorem SessionFileRecipe.codec_writes : SessionFileRecipe.codec.Writes 2 :=
  Codec.writes_checked <| Codec.writes_through <| Codec.writes_object <|
    Fields.writes_field (Codec.writes_list Codec.writes_u8) <|
    Fields.writes_field named_writes <|
    Fields.writes_field Codec.writes_string Fields.writes_nil

theorem UdsRecipe.codec_writes : UdsRecipe.codec.Writes 2 :=
  Codec.writes_checked <| Codec.writes_through <| Codec.writes_object <|
    Fields.writes_field Codec.writes_string <|
    Fields.writes_field Codec.writes_string Fields.writes_nil

theorem ProxyRecipe.codec_writes : ProxyRecipe.codec.Writes 2 :=
  Codec.writes_checked <| Codec.writes_through <| Codec.writes_object <|
    Fields.writes_field named_writes <|
    Fields.writes_field Codec.writes_string <|
    Fields.writes_field Codec.writes_u16 <|
    Fields.writes_field Codec.writes_bool Fields.writes_nil

theorem MountRecipe.codec_writes : MountRecipe.codec.Writes 2 :=
  Codec.writes_checked <| Codec.writes_through <| Codec.writes_object <|
    Fields.writes_field named_writes Fields.writes_nil

theorem BrokerLaunch.codec_writes : BrokerLaunch.codec.Writes 2 :=
  Codec.writes_checked <| Codec.writes_through <| Codec.writes_object <|
    Fields.writes_field (Codec.writes_list Codec.writes_string) <|
    Fields.writes_field Codec.writes_string <|
    Fields.writes_field Codec.writes_string Fields.writes_nil

/-! ## Capabilities and operations -/

theorem Capability.codec_writes : Capability.codec.Writes 4 := by
  refine Codec.writes_checked (Codec.writes_variants fun name codec hcodec => ?_)
  unfold Capability.content at hcodec
  split at hcodec
  · cases hcodec
    exact Codec.writes_case <| Codec.writes_object <|
      Fields.writes_field Codec.writes_string <|
      Fields.writes_field SessionFileRecipe.codec_writes Fields.writes_nil
  · cases hcodec
    exact Codec.writes_case <| Codec.writes_object <|
      Fields.writes_field Codec.writes_string <|
      Fields.writes_field UdsRecipe.codec_writes Fields.writes_nil
  · cases hcodec
    exact Codec.writes_case <| Codec.writes_object <|
      Fields.writes_field Codec.writes_string <|
      Fields.writes_field Codec.writes_string <|
      Fields.writes_field ProxyRecipe.codec_writes Fields.writes_nil
  · cases hcodec
    exact Codec.writes_case <| Codec.writes_object <|
      Fields.writes_field Codec.writes_string <|
      Fields.writes_field BrokerLaunch.codec_writes Fields.writes_nil
  · cases hcodec
    exact Codec.writes_case <| Codec.writes_object <|
      Fields.writes_field Codec.writes_string <|
      Fields.writes_field Codec.writes_string <|
      Fields.writes_field MountRecipe.codec_writes Fields.writes_nil
  · cases hcodec

theorem Capability.codec_sound : Capability.codec.Sound := by
  intro value capability hdecode
  exact Capability.codec_valid (passes_iff.mp (Codec.check_of_checked hdecode))

theorem Capability.codec_honest : Capability.codec.Honest := by
  intro capability value hencode
  exact Capability.codec_valid (passes_iff.mp (Codec.check_of_encode hencode))

theorem UniverseOp.codec_writes : UniverseOp.codec.Writes 4 := by
  have howner : CellOwner.codec.Writes 2 := CellOwner.codec_writes.mono (by decide)
  refine Codec.writes_checked (Codec.writes_variants fun name codec hcodec => ?_)
  unfold UniverseOp.content at hcodec
  split at hcodec
  · cases hcodec
    exact Codec.writes_case <| Codec.writes_object <|
      Fields.writes_field GrantId.codec_writes <|
      Fields.writes_field Codec.writes_string <|
      Fields.writes_field SessionFileRecipe.codec_writes <|
      Fields.writes_field howner Fields.writes_nil
  · cases hcodec
    exact Codec.writes_case <| Codec.writes_object <|
      Fields.writes_field GrantId.codec_writes <|
      Fields.writes_field Codec.writes_string <|
      Fields.writes_field UdsRecipe.codec_writes <|
      Fields.writes_field howner Fields.writes_nil
  · cases hcodec
    exact Codec.writes_case <| Codec.writes_object <|
      Fields.writes_field GrantId.codec_writes <|
      Fields.writes_field Codec.writes_string <|
      Fields.writes_field Codec.writes_string <|
      Fields.writes_field ProxyRecipe.codec_writes <|
      Fields.writes_field howner Fields.writes_nil
  · cases hcodec
    exact Codec.writes_case <| Codec.writes_object <|
      Fields.writes_field GrantId.codec_writes <|
      Fields.writes_field Codec.writes_string <|
      Fields.writes_field BrokerLaunch.codec_writes <|
      Fields.writes_field howner Fields.writes_nil
  · cases hcodec
    exact Codec.writes_case <| Codec.writes_object <|
      Fields.writes_field GrantId.codec_writes <|
      Fields.writes_field Codec.writes_string <|
      Fields.writes_field Codec.writes_string <|
      Fields.writes_field MountRecipe.codec_writes <|
      Fields.writes_field howner Fields.writes_nil
  · cases hcodec

theorem UniverseOp.codec_sound : UniverseOp.codec.Sound := by
  intro value operation hdecode
  exact UniverseOp.codec_valid (passes_iff.mp (Codec.check_of_checked hdecode))

theorem UniverseOp.codec_honest : UniverseOp.codec.Honest := by
  intro operation value hencode
  exact UniverseOp.codec_valid (passes_iff.mp (Codec.check_of_encode hencode))

end Plasmosome.Backend
