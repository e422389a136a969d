import Plasmosome.Backend.Digest
import Plasmosome.Reversal.Effect

/-!
# Journal records

A cell's journal is a sequence of records, each one event of one generation. A
prepare lists the changes a generation makes; the other events decide and end it.
-/

namespace Plasmosome.Journal

open Backend Reversal

/-! ## Where an attachment came from -/

/-- A registry's identity, never the nil UUID. -/
structure RegistryId where
  uuid : BitVec 128
  nonNil : uuid ≠ 0
deriving DecidableEq

inductive ArtifactKind where
  | plasmid
  | genome
deriving DecidableEq, Repr

inductive Population where
  | curated
  | user
deriving DecidableEq, Repr

structure ReleaseKey where
  kind : ArtifactKind
  population : Population
  publisher : String
  name : String
  version : String
deriving DecidableEq, Repr

structure ReleaseRef where
  key : ReleaseKey
  digest : Digest
deriving DecidableEq, Repr

inductive AttachmentSource where
  | local
  | registry (registryId : RegistryId) (root member : ReleaseRef)
deriving DecidableEq

/-! ## What a prepare installs -/

inductive MockMode where
  | simulate
  | capture
  | passthrough
deriving DecidableEq, Repr

/-- The removal that takes a universe effect or a compensation back. -/
def universeInverse (effect : Effect) : Option UniverseRemoval :=
  match effect.reversibility with
  | .exact inverse =>
      match inverse.via with
      | .universe removal => some removal
      | .backend _ => none
  | .compensating compensation => some compensation.witness
  | .delayed _ | .external _ => none

/-- An effect with the operation that created it. -/
structure RecordedEffect where
  effect : Effect
  operation : Option UniverseOp
deriving DecidableEq

/-- The exact address an effect holds. External and delayed effects hold none. -/
def RecordedEffect.address (recorded : RecordedEffect) : Option Handle :=
  match recorded.effect.reversibility with
  | .exact ⟨_, .backend handle⟩ => some handle
  | _ => (universeInverse recorded.effect).map UniverseRemoval.handle

/-- The complete attachment a change installs. -/
structure Replacement where
  mock : MockMode
  source : AttachmentSource
  effects : List RecordedEffect
deriving DecidableEq

/-- The addresses of the effects, in grant order. -/
def Replacement.addresses (replacement : Replacement) : List Handle :=
  replacement.effects.filterMap RecordedEffect.address

/-- One plugin's attachment after the prepare. No replacement removes it. -/
structure Change where
  plugin : PluginId
  replacement : Option Replacement
deriving DecidableEq

def Change.effects (change : Change) : List RecordedEffect :=
  change.replacement.toList.flatMap Replacement.effects

def Change.addresses (change : Change) : List Handle :=
  change.effects.filterMap RecordedEffect.address

structure ForceAssertion where
  operator : String
  reason : String
deriving DecidableEq, Repr

/-- The changes of a generation, each plugin named once. -/
structure Prepare where
  changes : List Change
  force : Option ForceAssertion
  nonempty : changes ≠ []
  distinct : (changes.map Change.plugin).Nodup
deriving DecidableEq

inductive JournalEvent where
  | prepare (prepare : Prepare)
  | commit
  | abort
  | finish
deriving DecidableEq

structure CellJournalRecord where
  generation : UInt64
  event : JournalEvent
deriving DecidableEq

/-! ## Refusals -/

inductive CellJournalFaultKind where
  | io
  | unparseable
  | unsupportedFormat
  | generationZero
  | generationOrder
  | eventOrder
  | invalidEffect
  | invalidSource
  | invalidClosure
  | invalidLifetime
deriving DecidableEq, Repr

structure JournalRuleError where
  kind : CellJournalFaultKind
  detail : String
deriving DecidableEq, Repr

end Plasmosome.Journal
