import Plasmosome.Backend.Enforcement

/-!
# One backend over three leaves

Every call goes to the leaf that owns its class. An observation reads all three
leaves, refuses rows of a class the leaf does not own, and joins the rest.
-/

namespace Plasmosome.Backend

inductive Leaf where
  | network
  | filesystem
  | broker
deriving DecidableEq, Repr

namespace Leaf

def debug : Leaf → String
  | .network => "Network"
  | .filesystem => "Filesystem"
  | .broker => "Broker"

/-- The order in which an observation reads the leaves. -/
def all : List Leaf := [.network, .filesystem, .broker]

end Leaf

structure CompositeBackend (Backend : Type) where
  network : Backend
  filesystem : Backend
  broker : Backend

def leafForClass : UniverseClass → Leaf
  | .proxyMap | .udsPath => .network
  | .sessionFile | .mount => .filesystem
  | .brokerPid => .broker

def classBelongsTo : Leaf → UniverseClass → Bool
  | .network, .proxyMap | .network, .udsPath => true
  | .filesystem, .sessionFile | .filesystem, .mount => true
  | .broker, .brokerPid => true
  | _, _ => false

/-- Refuses the first row of a class the leaf does not own: issued, standing, then incomplete. -/
def onlyItsOwnClasses (leaf : Leaf) (observed : EnforcementSnapshot) :
    Except BackendError Unit :=
  let foreign (row : String) : Except BackendError Unit :=
    .error (.fault (leaf.debug ++ " leaf observes out-of-class " ++ row))
  match observed.grants.find? fun entry => !classBelongsTo leaf entry.handle.class with
  | some entry =>
      foreign ("issued record " ++ entry.handle.display ++ " owned by `" ++
        entry.owner.display ++ "`")
  | none =>
      match observed.state.values.find? fun object => !classBelongsTo leaf object.class with
      | some object => foreign object.describe
      | none =>
          match observed.incomplete.find? fun effect =>
              !classBelongsTo leaf effect.handle.class with
          | some effect =>
              foreign ("incomplete effect " ++ effect.handle.display ++ " owned by `" ++
                effect.operation.owner.display ++ "`")
          | none => .ok ()

/-- Joins standing objects, refusing one whose address is already held. -/
def joinStanding : List OsObject → OsState → Except BackendError OsState
  | [], state => .ok state
  | object :: rest, state =>
      match state.insert object with
      | (.error error, _) => .error error
      | (.ok false, _) => .error (identityConflict object.handle)
      | (.ok true, state) => joinStanding rest state

namespace CompositeBackend

variable {Backend : Type} [EnforcementBackend Backend]

def leaf (composite : CompositeBackend Backend) : Leaf → Backend
  | .network => composite.network
  | .filesystem => composite.filesystem
  | .broker => composite.broker

def setLeaf (composite : CompositeBackend Backend) : Leaf → Backend → CompositeBackend Backend
  | .network, network => { composite with network }
  | .filesystem, filesystem => { composite with filesystem }
  | .broker, broker => { composite with broker }

/-- Runs a method on one leaf. -/
def onLeaf {Result : Type} (composite : CompositeBackend Backend) (leaf : Leaf)
    (method : Backend → Result × Backend) : Result × CompositeBackend Backend :=
  (method (composite.leaf leaf)).map id (composite.setLeaf leaf)

def leafSnapshot (composite : CompositeBackend Backend) (leaf : Leaf) :
    Except BackendError EnforcementSnapshot × CompositeBackend Backend :=
  composite.onLeaf leaf EnforcementBackend.snapshotOsState

/-- Observes the leaves still to be read and builds the account of all rows read. -/
def observeLeaves (composite : CompositeBackend Backend) :
    List Leaf → OsState → List LedgerEntry → List IncompleteEffect →
      Except BackendError EnforcementSnapshot × CompositeBackend Backend
  | [], state, grants, incomplete =>
      (EnforcementSnapshot.new state grants incomplete, composite)
  | leaf :: rest, state, grants, incomplete =>
      match composite.leafSnapshot leaf with
      | (.error error, composite) => (.error error, composite)
      | (.ok observed, composite) =>
          match onlyItsOwnClasses leaf observed with
          | .error error => (.error error, composite)
          | .ok () =>
              match joinStanding observed.state.values state with
              | .error error => (.error error, composite)
              | .ok state =>
                  composite.observeLeaves rest state (grants ++ observed.grants)
                    (incomplete ++ observed.incomplete)

def observeEveryLeaf (composite : CompositeBackend Backend) :
    Except BackendError EnforcementSnapshot × CompositeBackend Backend :=
  composite.observeLeaves Leaf.all .empty [] []

/-- Builds the composite and observes all three leaves once. -/
def new (network filesystem broker : Backend) : Except BackendError (CompositeBackend Backend) :=
  match observeEveryLeaf ⟨network, filesystem, broker⟩ with
  | (.error error, _) => .error error
  | (.ok _, composite) => .ok composite

def grant (composite : CompositeBackend Backend) (operation : UniverseOp) (kind : GrantKind) :
    Except BackendError LedgerEntry × CompositeBackend Backend :=
  composite.onLeaf (leafForClass operation.class) (EnforcementBackend.grant · operation kind)

def revoke (composite : CompositeBackend Backend) (handle : Handle) (drain : DrainSpec) :
    Except BackendError LedgerEntry × CompositeBackend Backend :=
  composite.onLeaf (leafForClass handle.class) (EnforcementBackend.revoke · handle drain)

def apply (composite : CompositeBackend Backend) (op : UniverseOp) :
    Except BackendError Unit × CompositeBackend Backend :=
  composite.onLeaf (leafForClass op.class) (EnforcementBackend.apply · op)

def applyRemoval (composite : CompositeBackend Backend) (removal : UniverseRemoval)
    (owner : CellOwner) (drain : DrainSpec) :
    Except BackendError Unit × CompositeBackend Backend :=
  composite.onLeaf (leafForClass removal.class)
    (EnforcementBackend.applyRemoval · removal owner drain)

def plant (composite : CompositeBackend Backend) (object : OsObject) :
    Except BackendError Unit × CompositeBackend Backend :=
  composite.onLeaf (leafForClass object.class) (EnforcementBackend.plant · object)

instance : EnforcementBackend (CompositeBackend Backend) where
  grant := grant
  revoke := revoke
  snapshotOsState := observeEveryLeaf
  apply := apply
  applyRemoval := applyRemoval
  plant := plant

end CompositeBackend

end Plasmosome.Backend
