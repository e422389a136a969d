import Plasmosome.Backend.CodecForms
import Plasmosome.Reversal.Effect

/-!
# The value form of an effect

An effect is written with how it can be reversed. The removals in it are written only
when their capabilities are valid.
-/

namespace Plasmosome.Reversal

open Backend
open Serde (Codec Fields Value)

def removalCodec : Codec UniverseRemoval :=
  .through (.object (.field "id" GrantId.codec (.field "capability" Capability.codec .nil)) (by decide))
    (fun removal => (removal.id, removal.capability, ()))
    (fun (id, capability, _) => ⟨id, capability⟩)
    fun _ => rfl

namespace InverseVia

def tag : InverseVia → String
  | .backend _ => "Backend"
  | .universe _ => "Universe"

def content : String → Option (Codec InverseVia)
  | "Backend" => some <| .case Handle.codec
      (fun
        | .backend handle => some handle
        | .universe _ => none)
      .backend (by rintro ⟨⟩ _ ⟨⟩; rfl)
  | "Universe" => some <| .case removalCodec
      (fun
        | .universe removal => some removal
        | .backend _ => none)
      .universe (by rintro ⟨⟩ _ ⟨⟩; rfl)
  | _ => none

def codec : Codec InverseVia := .variants tag content (by rintro ⟨⟩ <;> exact ⟨_, rfl⟩)

end InverseVia

def Inverse.codec : Codec Inverse :=
  .through
    (.object (.field "description" .string (.field "via" InverseVia.codec .nil)) (by decide))
    (fun inverse => (inverse.description, inverse.via, ()))
    (fun (description, via, _) => ⟨description, via⟩)
    fun _ => rfl

def Compensation.codec : Codec Compensation :=
  .through (.object (.field "witness" removalCodec .nil) (by decide))
    (fun compensation => (compensation.witness, ())) (fun (witness, _) => ⟨witness⟩) fun _ => rfl

def Outbox.codec : Codec Outbox :=
  .through
    (.object (.field "channel" .string (.field "payload" .string (.field "published" .bool .nil)))
      (by decide))
    (fun outbox => (outbox.channel, outbox.payload, outbox.published, ()))
    (fun (channel, payload, published, _) => ⟨channel, payload, published⟩) fun _ => rfl

def Policy.codec : Codec Policy :=
  .through (.object (.field "assertion" .string .nil) (by decide))
    (fun policy => (policy.assertion, ())) (fun (assertion, _) => ⟨assertion⟩) fun _ => rfl

namespace Reversibility

def tag : Reversibility → String
  | .exact _ => "Exact"
  | .compensating _ => "Compensating"
  | .delayed _ => "Delayed"
  | .external _ => "External"

def content : String → Option (Codec Reversibility)
  | "Exact" => some <| .case Inverse.codec
      (fun
        | .exact inverse => some inverse
        | _ => none)
      .exact (by rintro ⟨⟩ _ ⟨⟩; rfl)
  | "Compensating" => some <| .case Compensation.codec
      (fun
        | .compensating compensation => some compensation
        | _ => none)
      .compensating (by rintro ⟨⟩ _ ⟨⟩; rfl)
  | "Delayed" => some <| .case Outbox.codec
      (fun
        | .delayed outbox => some outbox
        | _ => none)
      .delayed (by rintro ⟨⟩ _ ⟨⟩; rfl)
  | "External" => some <| .case Policy.codec
      (fun
        | .external policy => some policy
        | _ => none)
      .external (by rintro ⟨⟩ _ ⟨⟩; rfl)
  | _ => none

def codec : Codec Reversibility := .variants tag content (by rintro ⟨⟩ <;> exact ⟨_, rfl⟩)

end Reversibility

def Effect.codec : Codec Effect :=
  .through
    (.object (.field "description" .string (.field "reversibility" Reversibility.codec .nil))
      (by decide))
    (fun effect => (effect.description, effect.reversibility, ()))
    (fun (description, reversibility, _) => ⟨description, reversibility⟩) fun _ => rfl

/-! ## What is written -/

theorem removalCodec_writes : removalCodec.Writes 5 :=
  Codec.writes_through <| Codec.writes_object <|
    Fields.writes_field GrantId.codec_writes <|
    Fields.writes_field Capability.codec_writes Fields.writes_nil

theorem InverseVia.codec_writes : InverseVia.codec.Writes 6 := by
  refine Codec.writes_variants fun name codec hcodec => ?_
  unfold InverseVia.content at hcodec
  split at hcodec
  · cases hcodec
    exact Codec.writes_case (Handle.codec_writes.mono (by decide))
  · cases hcodec
    exact Codec.writes_case removalCodec_writes
  · cases hcodec

theorem Inverse.codec_writes : Inverse.codec.Writes 7 :=
  Codec.writes_through <| Codec.writes_object <|
    Fields.writes_field Codec.writes_string <|
    Fields.writes_field InverseVia.codec_writes Fields.writes_nil

theorem Compensation.codec_writes : Compensation.codec.Writes 7 :=
  Codec.writes_through <| Codec.writes_object <|
    Fields.writes_field (removalCodec_writes.mono (by decide)) Fields.writes_nil

theorem Outbox.codec_writes : Outbox.codec.Writes 7 :=
  Codec.writes_through <| Codec.writes_object <|
    Fields.writes_field Codec.writes_string <|
    Fields.writes_field Codec.writes_string <|
    Fields.writes_field Codec.writes_bool Fields.writes_nil

theorem Policy.codec_writes : Policy.codec.Writes 7 :=
  Codec.writes_through <| Codec.writes_object <|
    Fields.writes_field Codec.writes_string Fields.writes_nil

theorem Reversibility.codec_writes : Reversibility.codec.Writes 8 := by
  refine Codec.writes_variants fun name codec hcodec => ?_
  unfold Reversibility.content at hcodec
  split at hcodec
  · cases hcodec
    exact Codec.writes_case Inverse.codec_writes
  · cases hcodec
    exact Codec.writes_case Compensation.codec_writes
  · cases hcodec
    exact Codec.writes_case Outbox.codec_writes
  · cases hcodec
    exact Codec.writes_case Policy.codec_writes
  · cases hcodec

theorem Effect.codec_writes : Effect.codec.Writes 9 :=
  Codec.writes_through <| Codec.writes_object <|
    Fields.writes_field Codec.writes_string <|
    Fields.writes_field Reversibility.codec_writes Fields.writes_nil

/-! ## What is read -/

theorem removalCodec_sound : removalCodec.Sound :=
  Codec.sound_through (fun _ => rfl) <| Codec.sound_object <|
    Fields.sound_field (Codec.sound_of_valid fun _ => trivial) <|
    Fields.sound_field Capability.codec_sound Fields.sound_nil

theorem InverseVia.codec_sound : InverseVia.codec.Sound := by
  refine Codec.sound_variants fun name codec value via hcodec hdecode => ?_
  unfold InverseVia.content at hcodec
  split at hcodec
  · cases hcodec
    obtain ⟨handle, -, rfl⟩ := Option.map_eq_some_iff.mp hdecode
    exact ⟨rfl, handle, rfl, trivial, trivial, trivial⟩
  · cases hcodec
    obtain ⟨removal, hremoval, rfl⟩ := Option.map_eq_some_iff.mp hdecode
    exact ⟨rfl, removal, rfl, removalCodec_sound value removal hremoval⟩
  · cases hcodec

theorem Inverse.codec_sound : Inverse.codec.Sound :=
  Codec.sound_through (fun _ => rfl) <| Codec.sound_object <|
    Fields.sound_field (Codec.sound_of_valid fun _ => trivial) <|
    Fields.sound_field InverseVia.codec_sound Fields.sound_nil

theorem Compensation.codec_sound : Compensation.codec.Sound :=
  Codec.sound_through (fun _ => rfl) <| Codec.sound_object <|
    Fields.sound_field removalCodec_sound Fields.sound_nil

theorem Reversibility.codec_sound : Reversibility.codec.Sound := by
  refine Codec.sound_variants fun name codec value reversibility hcodec hdecode => ?_
  unfold Reversibility.content at hcodec
  split at hcodec
  · cases hcodec
    obtain ⟨inverse, hinverse, rfl⟩ := Option.map_eq_some_iff.mp hdecode
    exact ⟨rfl, inverse, rfl, Inverse.codec_sound value inverse hinverse⟩
  · cases hcodec
    obtain ⟨compensation, hcompensation, rfl⟩ := Option.map_eq_some_iff.mp hdecode
    exact ⟨rfl, compensation, rfl, Compensation.codec_sound value compensation hcompensation⟩
  · cases hcodec
    obtain ⟨outbox, -, rfl⟩ := Option.map_eq_some_iff.mp hdecode
    exact ⟨rfl, outbox, rfl, trivial, trivial, trivial, trivial⟩
  · cases hcodec
    obtain ⟨policy, -, rfl⟩ := Option.map_eq_some_iff.mp hdecode
    exact ⟨rfl, policy, rfl, trivial, trivial⟩
  · cases hcodec

theorem Effect.codec_sound : Effect.codec.Sound :=
  Codec.sound_through (fun _ => rfl) <| Codec.sound_object <|
    Fields.sound_field (Codec.sound_of_valid fun _ => trivial) <|
    Fields.sound_field Reversibility.codec_sound Fields.sound_nil

/-! ## Nothing else is written -/

theorem removalCodec_honest : removalCodec.Honest :=
  Codec.honest_through <| Codec.honest_object <|
    Fields.honest_field (Codec.honest_of_valid fun _ => trivial) <|
    Fields.honest_field Capability.codec_honest Fields.honest_nil

theorem InverseVia.codec_honest : InverseVia.codec.Honest := by
  refine Codec.honest_variants fun name codec hcodec => ?_
  unfold InverseVia.content at hcodec
  split at hcodec
  · cases hcodec
    exact Codec.honest_case (Codec.honest_of_valid fun _ => ⟨trivial, trivial, trivial⟩)
  · cases hcodec
    exact Codec.honest_case removalCodec_honest
  · cases hcodec

theorem Inverse.codec_honest : Inverse.codec.Honest :=
  Codec.honest_through <| Codec.honest_object <|
    Fields.honest_field (Codec.honest_of_valid fun _ => trivial) <|
    Fields.honest_field InverseVia.codec_honest Fields.honest_nil

theorem Compensation.codec_honest : Compensation.codec.Honest :=
  Codec.honest_through <| Codec.honest_object <|
    Fields.honest_field removalCodec_honest Fields.honest_nil

theorem Reversibility.codec_honest : Reversibility.codec.Honest := by
  refine Codec.honest_variants fun name codec hcodec => ?_
  unfold Reversibility.content at hcodec
  split at hcodec
  · cases hcodec
    exact Codec.honest_case Inverse.codec_honest
  · cases hcodec
    exact Codec.honest_case Compensation.codec_honest
  · cases hcodec
    exact Codec.honest_case (Codec.honest_of_valid fun _ => ⟨trivial, trivial, trivial, trivial⟩)
  · cases hcodec
    exact Codec.honest_case (Codec.honest_of_valid fun _ => ⟨trivial, trivial⟩)
  · cases hcodec

theorem Effect.codec_honest : Effect.codec.Honest :=
  Codec.honest_through <| Codec.honest_object <|
    Fields.honest_field (Codec.honest_of_valid fun _ => trivial) <|
    Fields.honest_field Reversibility.codec_honest Fields.honest_nil

end Plasmosome.Reversal
