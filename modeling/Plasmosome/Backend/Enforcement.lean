import Plasmosome.Foundation.Machine
import Plasmosome.Backend.Account

/-!
# The backend contract

A backend answers the six methods of the contract, each of which may move it.
The calls are also data, so that runs, recordings and simulations range over
every order of them.
-/

namespace Plasmosome.Backend

open Foundation

class EnforcementBackend (Backend : Type) where
  grant : Backend → UniverseOp → GrantKind → Except BackendError LedgerEntry × Backend
  revoke : Backend → Handle → DrainSpec → Except BackendError LedgerEntry × Backend
  snapshotOsState : Backend → Except BackendError EnforcementSnapshot × Backend
  apply : Backend → UniverseOp → Except BackendError Unit × Backend
  applyRemoval :
    Backend → UniverseRemoval → CellOwner → DrainSpec → Except BackendError Unit × Backend
  plant : Backend → OsObject → Except BackendError Unit × Backend

/-- A call that may change what a backend holds, at one address. -/
inductive HoldingCall where
  | grant (operation : UniverseOp) (kind : GrantKind)
  | revoke (handle : Handle) (drain : DrainSpec)
  | apply (operation : UniverseOp)
  | applyRemoval (removal : UniverseRemoval) (owner : CellOwner) (drain : DrainSpec)
  | plant (object : OsObject)
deriving DecidableEq, Repr

inductive HoldingReply where
  | entry (result : Except BackendError LedgerEntry)
  | done (result : Except BackendError Unit)
deriving DecidableEq

inductive BackendCall where
  | change (call : HoldingCall)
  | snapshotOsState
deriving DecidableEq, Repr

inductive BackendReply where
  | change (reply : HoldingReply)
  | account (result : Except BackendError EnforcementSnapshot)
deriving DecidableEq

/-- The one address a call names. -/
def HoldingCall.handle : HoldingCall → Handle
  | .grant operation _ => operation.handle
  | .revoke handle _ => handle
  | .apply operation => operation.handle
  | .applyRemoval removal _ _ => removal.handle
  | .plant object => object.handle

def refusal? {Result : Type} : Except BackendError Result → Option BackendError
  | .error error => some error
  | .ok _ => none

/-- The refusal of a reply, if it is one. -/
def HoldingReply.error? : HoldingReply → Option BackendError
  | .entry result => refusal? result
  | .done result => refusal? result

namespace EnforcementBackend

variable {Backend : Type} [EnforcementBackend Backend]

def change (backend : Backend) : HoldingCall → HoldingReply × Backend
  | .grant operation kind => (grant backend operation kind).map .entry id
  | .revoke handle drain => (revoke backend handle drain).map .entry id
  | .apply operation => (apply backend operation).map .done id
  | .applyRemoval removal owner drain => (applyRemoval backend removal owner drain).map .done id
  | .plant object => (plant backend object).map .done id

def call (backend : Backend) : BackendCall → BackendReply × Backend
  | .change holding => (change backend holding).map .change id
  | .snapshotOsState => (snapshotOsState backend).map .account id

/-- A backend as a machine over its calls. -/
def machine (Backend : Type) [EnforcementBackend Backend] :
    Machine Backend BackendCall BackendReply := ⟨call⟩

end EnforcementBackend

end Plasmosome.Backend
