import Plasmosome.Backend.Enforcement

/-!
# The in-memory backend

Three maps hold the standing objects, the issued records and the unfinished
effects. Faults armed on owners or addresses make later calls fail before or
after their first effect, or make graceful withdrawals time out.
-/

namespace Plasmosome.Backend

open Foundation Std

/-- An operation whose first effect happened, and what went wrong after it. -/
structure Unfinished where
  operation : UniverseOp
  detail : String
deriving DecidableEq, Repr

def Unfinished.error (unfinished : Unfinished) : BackendError :=
  .incompleteEffect unfinished.operation.class.asStr unfinished.operation.id unfinished.detail

structure FakeBackend where
  state : OsState
  grants : OrderedMap Handle LedgerEntry
  incomplete : OrderedMap Handle Unfinished
  stuckHandles : OrderedSet Handle
  stalledOwners : OrderedSet CellOwner
  revocations : List Handle
  refusedOwners : OrderedMap CellOwner String
  doomedOwners : OrderedMap CellOwner String
  failingWithdrawals : OrderedMap Handle String
  observationFault : Option String

/-- Refuses an object whose capability breaks a rule. -/
def checked (object : OsObject) : Except BackendError Unit :=
  object.capability.validate.mapError (.invalidOperation object.class.asStr object.id)

namespace FakeBackend

def new : FakeBackend where
  state := .empty
  grants := ∅
  incomplete := ∅
  stuckHandles := ∅
  stalledOwners := ∅
  revocations := []
  refusedOwners := ∅
  doomedOwners := ∅
  failingWithdrawals := ∅
  observationFault := none

/-! ## Armed faults -/

def failBeforeEffectForOwner (backend : FakeBackend) (owner : CellOwner) (cause : String) :
    FakeBackend :=
  { backend with refusedOwners := backend.refusedOwners.insert owner cause }

def failAfterEffectForOwner (backend : FakeBackend) (owner : CellOwner) (detail : String) :
    FakeBackend :=
  { backend with doomedOwners := backend.doomedOwners.insert owner detail }

def failNextWithdrawal (backend : FakeBackend) (handle : Handle) (detail : String) :
    FakeBackend :=
  { backend with failingWithdrawals := backend.failingWithdrawals.insert handle detail }

def markStuck (backend : FakeBackend) (handle : Handle) : FakeBackend :=
  { backend with stuckHandles := backend.stuckHandles.insert handle }

def stallGracefulDrainsForOwner (backend : FakeBackend) (owner : CellOwner) : FakeBackend :=
  { backend with stalledOwners := backend.stalledOwners.insert owner }

def failNextObservation (backend : FakeBackend) (cause : String) : FakeBackend :=
  { backend with observationFault := some cause }

/-! ## The contract's methods -/

/-- Whether a grant or apply may reach the address at all. -/
def admitted (backend : FakeBackend) (operation : UniverseOp) : Except BackendError Unit :=
  match checked operation.object with
  | .error error => .error error
  | .ok () =>
      match backend.incomplete[operation.handle]? with
      | some unfinished =>
          if unfinished.operation = operation then .error unfinished.error
          else .error (identityConflict operation.handle)
      | none =>
          match backend.refusedOwners[operation.owner]? with
          | some cause => .error (.fault cause)
          | none => .ok ()

def occupied (backend : FakeBackend) (handle : Handle) : Bool :=
  backend.state.values.any fun held => held.class = handle.class && held.id = handle.id

/-- Leaves a doomed owner's operation unfinished. -/
def failAfterTheFirstEffect (backend : FakeBackend) (operation : UniverseOp) :
    Except BackendError Unit × FakeBackend :=
  match backend.doomedOwners[operation.owner]? with
  | none => (.ok (), backend)
  | some detail =>
      let unfinished : Unfinished := ⟨operation, detail⟩
      (.error unfinished.error,
        { backend with incomplete := backend.incomplete.insert operation.handle unfinished })

/-- The record a grant of this operation issues. -/
def issuedEntry (operation : UniverseOp) (kind : GrantKind) : LedgerEntry :=
  ⟨operation.handle, operation.object.owner, operation.object.capability, kind⟩

def grant (backend : FakeBackend) (operation : UniverseOp) (kind : GrantKind) :
    Except BackendError LedgerEntry × FakeBackend :=
  match backend.admitted operation with
  | .error error => (.error error, backend)
  | .ok () =>
      let entry := issuedEntry operation kind
      match backend.grants[entry.handle]? with
      | some issued =>
          if issued = entry then (.ok issued, backend)
          else (.error (identityConflict entry.handle), backend)
      | none =>
          if backend.occupied entry.handle then (.error (identityConflict entry.handle), backend)
          else
            match backend.failAfterTheFirstEffect operation with
            | (.error error, backend) => (.error error, backend)
            | (.ok (), backend) =>
                match backend.state.insert operation.object with
                | (.error error, state) => (.error error, { backend with state })
                | (.ok _, state) =>
                    (.ok entry,
                      { backend with state, grants := backend.grants.insert entry.handle entry })

def apply (backend : FakeBackend) (op : UniverseOp) : Except BackendError Unit × FakeBackend :=
  match backend.admitted op with
  | .error error => (.error error, backend)
  | .ok () =>
      match if backend.occupied op.handle then (.ok (), backend)
          else backend.failAfterTheFirstEffect op with
      | (.error error, backend) => (.error error, backend)
      | (.ok (), backend) =>
          let (inserted, state) := backend.state.insert op.object
          (inserted.map fun _ => (), { backend with state })

def applyRemoval (backend : FakeBackend) (removal : UniverseRemoval) (owner : CellOwner)
    (drain : DrainSpec) : Except BackendError Unit × FakeBackend :=
  let handle := removal.handle
  let selected := removal.object owner
  let unfinished :=
    backend.incomplete[handle]?.any fun unfinished => unfinished.operation.object = selected
  if !unfinished && !backend.state.selects removal owner then
    (.error (.unknownObject handle.class.asStr removal.key owner handle.id), backend)
  else
    let stalled := backend.stuckHandles.contains handle || backend.stalledOwners.contains owner
    if drain.policy = .graceful && stalled then
      (.error (.drainTimedOut handle drain.deadlineMs), backend)
    else
      let state := (backend.state.remove removal owner).2
      match backend.failingWithdrawals[handle]? with
      | some detail =>
          let failed : Unfinished := ⟨selected.operation, detail⟩
          (.error failed.error,
            { backend with
              state
              failingWithdrawals := backend.failingWithdrawals.erase handle
              incomplete := backend.incomplete.insert handle failed })
      | none =>
          (.ok (),
            { backend with
              state
              incomplete := backend.incomplete.erase handle
              grants := backend.grants.erase handle
              stuckHandles := backend.stuckHandles.erase handle })

def revoke (backend : FakeBackend) (handle : Handle) (drain : DrainSpec) :
    Except BackendError LedgerEntry × FakeBackend :=
  match backend.grants[handle]? with
  | none => (.error (.unknownHandle handle), backend)
  | some entry =>
      match backend.applyRemoval entry.removal entry.owner drain with
      | (.error error, backend) => (.error error, backend)
      | (.ok (), backend) =>
          (.ok entry, { backend with revocations := backend.revocations ++ [handle] })

def plant (backend : FakeBackend) (object : OsObject) : Except BackendError Unit × FakeBackend :=
  match checked object with
  | .error error => (.error error, backend)
  | .ok () =>
      let handle := object.operation.handle
      if handle ∈ backend.incomplete then (.error (identityConflict handle), backend)
      else
        let (inserted, state) := backend.state.insert object
        (inserted.map fun _ => (), { backend with state })

/-- The account of the three maps, when nothing makes the observation fail. -/
def account (backend : FakeBackend) : Except BackendError EnforcementSnapshot :=
  EnforcementSnapshot.new backend.state (OrderedMap.values backend.grants)
    ((OrderedMap.values backend.incomplete).map fun unfinished => ⟨unfinished.operation⟩)

def snapshotOsState (backend : FakeBackend) :
    Except BackendError EnforcementSnapshot × FakeBackend :=
  match backend.observationFault with
  | some cause => (.error (.fault cause), { backend with observationFault := none })
  | none => (backend.account, backend)

instance : EnforcementBackend FakeBackend where
  grant := grant
  revoke := revoke
  snapshotOsState := snapshotOsState
  apply := apply
  applyRemoval := applyRemoval
  plant := plant

end FakeBackend

/-! ## Runs -/

/-- A fault armed on one owner or one address. -/
inductive Fault where
  | failBeforeEffectForOwner (owner : CellOwner) (cause : String)
  | failAfterEffectForOwner (owner : CellOwner) (detail : String)
  | failNextWithdrawal (handle : Handle) (detail : String)
  | markStuck (handle : Handle)
  | stallGracefulDrainsForOwner (owner : CellOwner)

def FakeBackend.arm (backend : FakeBackend) : Fault → FakeBackend
  | .failBeforeEffectForOwner owner cause => backend.failBeforeEffectForOwner owner cause
  | .failAfterEffectForOwner owner detail => backend.failAfterEffectForOwner owner detail
  | .failNextWithdrawal handle detail => backend.failNextWithdrawal handle detail
  | .markStuck handle => backend.markStuck handle
  | .stallGracefulDrainsForOwner owner => backend.stallGracefulDrainsForOwner owner

/-- Anything a test may do to the backend: a call, or arming a fault. -/
inductive FakeInput where
  | call (call : BackendCall)
  | arm (fault : Fault)
  | failNextObservation (cause : String)

/-- The backend driven by calls and armed faults in any order. -/
def FakeBackend.machine : Machine FakeBackend FakeInput (Option BackendReply) where
  step backend
    | .call call => (EnforcementBackend.call backend call).map some id
    | .arm fault => (none, backend.arm fault)
    | .failNextObservation cause => (none, backend.failNextObservation cause)

/-- Some run from the empty backend ends here. -/
def FakeBackend.Reachable (backend : FakeBackend) : Prop :=
  ∃ inputs, FakeBackend.machine.final .new inputs = backend

end Plasmosome.Backend
