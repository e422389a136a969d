import Plasmosome.Backend.Text

/-!
# Issued records, drains and refusals

The values the backend contract exchanges: an issued record and the object it
stands for, the drain a withdrawal runs under, and every way a call is refused.
-/

namespace Plasmosome.Backend

inductive GrantKind where
  | hot
  | generationBound
deriving DecidableEq, Repr

/-- An issued record: the withdrawal authority over one granted holding. -/
structure LedgerEntry where
  handle : Handle
  owner : CellOwner
  capability : Capability
  kind : GrantKind
deriving DecidableEq, Repr

def LedgerEntry.removal (entry : LedgerEntry) : UniverseRemoval :=
  ⟨entry.handle.id, entry.capability⟩

@[simp] theorem LedgerEntry.removal_capability (entry : LedgerEntry) :
    entry.removal.capability = entry.capability := rfl

def classMismatch : String := "ledger entry handle class does not match its capability"

inductive RevokePolicy where
  | graceful
  | force
deriving DecidableEq, Repr

/-- A span of time: whole seconds and the nanoseconds below one second. -/
structure Duration where
  secs : UInt64
  subsecNanos : Fin 1000000000
deriving DecidableEq, Repr

def Duration.zero : Duration := ⟨0, 0⟩

def Duration.asNanos (duration : Duration) : Nat :=
  duration.secs.toNat * 1000000000 + duration.subsecNanos

structure DrainSpec where
  deadline : Duration
  policy : RevokePolicy
deriving DecidableEq, Repr

namespace DrainSpec

def graceful (deadline : Duration) : DrainSpec := ⟨deadline, .graceful⟩

def forcing : DrainSpec := ⟨.zero, .force⟩

/-- The deadline in whole milliseconds, rounded up and saturated. -/
def deadlineMs (drain : DrainSpec) : UInt64 :=
  let millis := (drain.deadline.asNanos + 999999) / 1000000
  if millis < UInt64.size then UInt64.ofNat millis else UInt64.ofNat (UInt64.size - 1)

end DrainSpec

inductive BackendError where
  | unknownHandle (handle : Handle)
  | drainTimedOut (handle : Handle) (deadlineMs : UInt64)
  | unknownObject (className key : String) (owner : CellOwner) (id : GrantId)
  | identityConflict (className : String) (id : GrantId)
  | invalidOperation (className : String) (id : GrantId) (error : RecipeError)
  | incompleteEffect (className : String) (id : GrantId) (detail : String)
  | fault (cause : String)
  | unimplemented (what : String)
deriving DecidableEq, Repr

namespace BackendError

/-- The first effect happened and the operation did not finish. -/
def IsIncomplete : BackendError → Prop
  | .incompleteEffect .. => True
  | _ => False

instance : DecidablePred IsIncomplete
  | .incompleteEffect .. => .isTrue trivial
  | .unknownHandle _ | .drainTimedOut .. | .unknownObject .. | .identityConflict ..
  | .invalidOperation .. | .fault _ | .unimplemented _ => .isFalse id

end BackendError

/-- The conflict a call meets at an address another object holds. -/
def identityConflict (handle : Handle) : BackendError :=
  .identityConflict handle.class.asStr handle.id

end Plasmosome.Backend
