import Plasmosome.Backend.Contract

/-!
# Standing objects and complete accounts

`OsState` holds the standing objects, each at its own address. An enforcement
snapshot is a complete account: standing objects, issued records and unfinished
effects, accepted only when the three agree.
-/

namespace Plasmosome.Backend

open Foundation Std

/-! ## Standing objects -/

/-- The standing objects by address. The key of an object is always its own address. -/
structure OsState where
  objects : OrderedMap Handle OsObject
  addressed : OrderedMap.Keyed OsObject.handle objects
deriving DecidableEq

namespace OsState

theorem ext_objects {left right : OsState} (h : left.objects = right.objects) : left = right := by
  cases left
  cases right
  cases h
  rfl

def empty : OsState := ⟨∅, by simp [OrderedMap.Keyed]⟩

/-- The objects in address order. -/
def values (state : OsState) : List OsObject := OrderedMap.values state.objects

/-- Stores an object at its address. `true` reports a vacant address, `false` the same object. -/
def insert (state : OsState) (object : OsObject) : Except BackendError Bool × OsState :=
  match state.objects[object.handle]? with
  | none =>
      (.ok true, ⟨state.objects.insert object.handle object,
        state.addressed.insert object.handle object rfl⟩)
  | some held =>
      if held = object then (.ok false, state)
      else (.error (identityConflict object.handle), state)

/-- Whether the exact address holds this full capability for this owner. -/
def selects (state : OsState) (removal : UniverseRemoval) (owner : CellOwner) : Bool :=
  state.objects[removal.handle]?.any fun object =>
    object.owner = owner && object.capability = removal.capability

/-- Takes the selected object, or changes nothing. -/
def remove (state : OsState) (removal : UniverseRemoval) (owner : CellOwner) :
    Option OsObject × OsState :=
  if state.selects removal owner then
    (state.objects[removal.handle]?,
      ⟨state.objects.erase removal.handle, state.addressed.erase removal.handle⟩)
  else (none, state)

theorem selects_iff (state : OsState) (removal : UniverseRemoval) (owner : CellOwner) :
    state.selects removal owner = true ↔
      state.objects[removal.handle]? = some (removal.object owner) := by
  cases hat : state.objects[removal.handle]? with
  | none => simp [selects, hat]
  | some object =>
      have haddress := state.addressed _ _ hat
      obtain ⟨id, holder, capability⟩ := object
      simp only [OsObject.handle, UniverseRemoval.handle, Handle.mk.injEq] at haddress
      simp only [selects, hat, Option.any_some, Bool.and_eq_true, decide_eq_true_eq,
        Option.some.injEq, UniverseRemoval.object, OsObject.mk.injEq, haddress.2, true_and]

theorem insert_of_vacant {state : OsState} {object : OsObject}
    (hvacant : state.objects[object.handle]? = none) :
    (state.insert object).1 = .ok true ∧
      (state.insert object).2.objects = state.objects.insert object.handle object := by
  unfold insert
  split
  · exact ⟨rfl, rfl⟩
  next held hheld => simp [hvacant] at hheld

theorem insert_of_held {state : OsState} {object held : OsObject}
    (hheld : state.objects[object.handle]? = some held) :
    state.insert object =
      if held = object then (.ok false, state)
      else (.error (identityConflict object.handle), state) := by
  unfold insert
  split
  next hnone => simp [hheld] at hnone
  next other hother =>
    cases Option.some.inj (hheld.symm.trans hother)
    rfl

@[simp] theorem remove_objects (state : OsState) (removal : UniverseRemoval)
    (owner : CellOwner) :
    (state.remove removal owner).2.objects =
      if state.objects[removal.handle]? = some (removal.object owner)
      then state.objects.erase removal.handle else state.objects := by
  unfold remove
  simp only [state.selects_iff removal owner]
  split <;> rfl

end OsState

/-- The objects that differ between two states, at their addresses. -/
structure Diff where
  added : List OsObject
  removed : List OsObject
deriving DecidableEq

namespace Diff

/-- The objects of `after` that `before` does not hold at the same address. -/
def missing (before after : OsState) : List OsObject :=
  (after.objects.toList.filter fun pair => before.objects[pair.1]? ≠ some pair.2).map Prod.snd

def between (before after : OsState) : Diff := ⟨missing before after, missing after before⟩

def isEmpty (diff : Diff) : Bool := diff.added.isEmpty && diff.removed.isEmpty

theorem between_self (state : OsState) : (between state state).isEmpty = true := by
  have hnone : missing state state = [] := by
    simp only [missing, List.map_eq_nil_iff, List.filter_eq_nil_iff, Prod.forall]
    intro address object hmem
    simp [ExtTreeMap.mem_toList_iff_getElem?_eq_some.mp hmem]
  simp [between, isEmpty, hnone]

end Diff

/-! ## Complete accounts -/

/-- An operation whose first effect happened and which did not finish. -/
structure IncompleteEffect where
  operation : UniverseOp
deriving DecidableEq, Repr

def IncompleteEffect.handle (effect : IncompleteEffect) : Handle := effect.operation.handle

/-- The standing holdings, the issued records in handle order and the unfinished effects in address
order. -/
structure EnforcementSnapshot where
  state : OsState
  grants : List LedgerEntry
  incomplete : List IncompleteEffect
deriving DecidableEq

def valid (address : Handle) (checked : Except RecipeError Unit) : Except BackendError Unit :=
  checked.mapError (.invalidOperation address.class.asStr address.id)

namespace EnforcementSnapshot

def checkStanding (state : OsState) : Except BackendError Unit :=
  state.values.forM fun object => valid object.operation.handle object.capability.validate

def checkIssued (grants : List LedgerEntry) : Except BackendError Unit :=
  grants.forM fun entry => do
    valid entry.handle entry.capability.validate
    if entry.handle.class ≠ entry.capability.class then
      .error (.fault ("issued record " ++ entry.handle.display ++ ": " ++ classMismatch))
    else .ok ()

def checkIncomplete (incomplete : List IncompleteEffect) : Except BackendError Unit :=
  incomplete.forM fun effect => valid effect.handle effect.operation.validate

/-- Collects rows by address and refuses an address met twice. -/
def collect {Row : Type} (address : Row → Handle) :
    List Row → OrderedMap Handle Row → Except BackendError (OrderedMap Handle Row)
  | [], rows => .ok rows
  | row :: rest, rows =>
      if address row ∈ rows then .error (identityConflict (address row))
      else collect address rest (rows.insert (address row) row)

/-- The owner and capability of each standing object by its address. -/
def standingRows (state : OsState) : OrderedMap Handle (CellOwner × Capability) :=
  ExtTreeMap.ofList (state.values.map fun object =>
    (object.handle, object.owner, object.capability)) compare

/-- The owner and capability of the standing or incomplete row at an address. -/
def row (standing : OrderedMap Handle (CellOwner × Capability))
    (unfinished : OrderedMap Handle IncompleteEffect) (handle : Handle) :
    Option (CellOwner × Capability) :=
  standing[handle]?.or (unfinished[handle]?.map fun effect =>
    (effect.operation.owner, effect.operation.capability))

/-- Builds the account, or refuses it with the first failure. -/
def new (state : OsState) (grants : List LedgerEntry) (incomplete : List IncompleteEffect) :
    Except BackendError EnforcementSnapshot := do
  checkStanding state
  checkIssued grants
  checkIncomplete incomplete
  let unfinished ← collect IncompleteEffect.handle incomplete ∅
  let standing := standingRows state
  match incomplete.find? fun effect => effect.handle ∈ standing with
  | some effect => .error (identityConflict effect.handle)
  | none =>
      let _ ← collect LedgerEntry.handle grants ∅
      let row := row standing unfinished
      match grants.find? fun entry =>
          (row entry.handle).any fun held => held ≠ (entry.owner, entry.capability) with
      | some entry => .error (identityConflict entry.handle)
      | none =>
          match grants.find? fun entry => (row entry.handle).isNone with
          | some entry =>
              .error (.fault ("issued record " ++ entry.handle.display ++
                " has no standing or incomplete holding"))
          | none =>
              .ok ⟨state, sortByKey LedgerEntry.handle grants,
                sortByKey IncompleteEffect.handle incomplete⟩

/-- The account of a backend that holds nothing. -/
def empty : EnforcementSnapshot := ⟨.empty, [], []⟩

end EnforcementSnapshot

end Plasmosome.Backend
