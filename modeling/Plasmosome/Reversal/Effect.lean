import Plasmosome.Backend.Enforcement

/-!
# Effects and their ledger

A ledger lists a plugin's effects in the order they were made, each with how it
can be reversed. Closing it decides whether detach needs an operator's force.
-/

namespace Plasmosome.Reversal

open Backend

/-- The one backend call that undoes an effect exactly. -/
inductive InverseVia where
  | backend (handle : Handle)
  | universe (removal : UniverseRemoval)
deriving DecidableEq, Repr

structure Inverse where
  description : String
  via : InverseVia
deriving DecidableEq, Repr

structure Compensation where
  witness : UniverseRemoval
deriving DecidableEq, Repr

structure Outbox where
  channel : String
  payload : String
  published : Bool
deriving DecidableEq, Repr

structure Policy where
  assertion : String
deriving DecidableEq, Repr

inductive Reversibility where
  | exact (inverse : Inverse)
  | compensating (compensation : Compensation)
  | delayed (outbox : Outbox)
  | external (policy : Policy)
deriving DecidableEq, Repr

structure Effect where
  description : String
  reversibility : Reversibility
deriving DecidableEq, Repr

namespace Effect

def exact (description : String) (via : InverseVia) : Effect :=
  ⟨description, .exact ⟨description, via⟩⟩

def compensating (description : String) (witness : UniverseRemoval) : Effect :=
  ⟨description, .compensating ⟨witness⟩⟩

def delayedUnpublished (channel payload : String) : Effect :=
  ⟨"delayed publication on " ++ channel, .delayed ⟨channel, payload, false⟩⟩

def delayedPublished (channel payload : String) : Effect :=
  ⟨"delayed publication on " ++ channel ++ " (already published)",
    .delayed ⟨channel, payload, true⟩⟩

def external (assertion : String) : Effect :=
  ⟨"external emission (" ++ assertion ++ ")", .external ⟨assertion⟩⟩

end Effect

structure Ledger where
  plugin : PluginId
  effects : List Effect
deriving DecidableEq, Repr

/-- A closed ledger: its cursor, what it has asserted so far, and the cell of its first detach. The
effects below the cursor are still to be reversed. -/
structure ClosedLedger where
  plugin : PluginId
  effects : List Effect
  pending : Nat
  asserted : List String
  began : Option CellId
  inBounds : pending ≤ effects.length
deriving DecidableEq

/-- A closed ledger that detaches without force. -/
structure SealedLedger extends ClosedLedger
deriving DecidableEq

/-- A closed ledger whose detach an operator must force. -/
structure ForcedLedger extends ClosedLedger
deriving DecidableEq

inductive Closure where
  | externalFree (sealed : SealedLedger)
  | outstandingExternal (forced : ForcedLedger)
deriving DecidableEq

/-- The effect left the boundary, so no call of the backend takes it back. -/
def Reversibility.outstanding : Reversibility → Bool
  | .exact _ | .compensating _ => false
  | .delayed outbox => outbox.published
  | .external _ => true

namespace Ledger

def new (plugin : PluginId) : Ledger := ⟨plugin, []⟩

def push (ledger : Ledger) (effect : Effect) : Ledger :=
  { ledger with effects := ledger.effects ++ [effect] }

/-- A closed ledger with every effect still to be reversed. -/
def closed (ledger : Ledger) : ClosedLedger where
  plugin := ledger.plugin
  effects := ledger.effects
  pending := ledger.effects.length
  asserted := []
  began := none
  inBounds := Nat.le_refl _

def close (ledger : Ledger) : Closure :=
  if ledger.effects.any fun effect => effect.reversibility.outstanding then
    .outstandingExternal ⟨ledger.closed⟩
  else .externalFree ⟨ledger.closed⟩

end Ledger

/-! ## What reversing one effect does -/

namespace Effect

/-- The backend call that undoes the effect, if one does. -/
def inverseCall (owner : CellOwner) (drain : DrainSpec) (effect : Effect) : Option HoldingCall :=
  match effect.reversibility with
  | .exact inverse =>
      match inverse.via with
      | .backend handle => some (.revoke handle drain)
      | .universe removal => some (.applyRemoval removal owner drain)
  | .compensating compensation => some (.applyRemoval compensation.witness owner drain)
  | .delayed _ | .external _ => none

/-- What is asserted of an effect that left the boundary. -/
def assertion (effect : Effect) : Option String :=
  match effect.reversibility with
  | .external policy => some policy.assertion
  | .delayed outbox => if outbox.published then some effect.description else none
  | .exact _ | .compensating _ => none

end Effect

/-! ## Reports and refusals of a detach -/

/-- An operator's assertion that the external effects are dealt with. -/
structure Force where
  operator : String
  reason : String
deriving DecidableEq, Repr

def Force.assertionLine (force : Force) : String :=
  "operator `" ++ force.operator ++ "` asserted: " ++ force.reason

structure DetachReport where
  plugin : PluginId
  replayed : List String
  delayedDiscarded : Nat
  asserted : List String
  forced : Option String
deriving DecidableEq, Repr

def DetachReport.new (plugin : PluginId) : DetachReport := ⟨plugin, [], 0, [], none⟩

/-- Why a detach stopped. -/
inductive DetachError where
  | backend (error : BackendError)
  | cellChanged (began requested : CellId)
deriving DecidableEq, Repr

end Plasmosome.Reversal
