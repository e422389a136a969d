import Plasmosome.Foundation.OrderedMap
import Plasmosome.Foundation.Uuid
import Plasmosome.Backend.Recipe

/-!
# Addresses, capabilities and standing objects

A handle is the exact address of a holding: its class and grant identity. An
operation, the object it creates and the removal that takes it back all name
that address.
-/

namespace Plasmosome.Backend

open Foundation Std

/-! ## Identities -/

@[ext]
structure PluginId where
  name : String
deriving DecidableEq, Repr

structure CellId where
  name : String
deriving DecidableEq, Repr

/-- The owner of a holding: a plugin as attached to one cell. -/
structure CellOwner where
  cell : CellId
  plugin : PluginId
deriving DecidableEq, Repr

/-- A grant identity, drawn at random, ordered as the big-endian number its sixteen bytes spell. -/
structure GrantId where
  uuid : BitVec 128
  random : Uuid.Random uuid
deriving DecidableEq, Repr

inductive UniverseClass where
  | sessionFile
  | udsPath
  | proxyMap
  | brokerPid
  | mount
deriving DecidableEq, Repr

def UniverseClass.asStr : UniverseClass → String
  | .sessionFile => "session-file"
  | .udsPath => "uds-path"
  | .proxyMap => "proxy-map"
  | .brokerPid => "broker-pid"
  | .mount => "mount"

/-- The exact address of a holding. -/
structure Handle where
  «class» : UniverseClass
  id : GrantId
deriving DecidableEq, Repr

/-! Each order compares fields in declaration order, and an enumeration by its position. -/

instance : Ord PluginId := ⟨compareOn PluginId.name⟩
instance : Ord CellOwner := ⟨compareLex (compareOn (·.cell.name)) (compareOn (·.plugin.name))⟩
instance : Ord Handle := ⟨compareLex (compareOn (·.class.ctorIdx)) (compareOn (·.id.uuid))⟩

instance : TransOrd PluginId := inferInstanceAs (TransCmp (compareOn PluginId.name))
instance : TransOrd CellOwner := inferInstanceAs (TransCmp (compareLex _ _))
instance : TransOrd Handle := inferInstanceAs (TransCmp (compareLex _ _))

instance : LawfulEqOrd PluginId :=
  lawfulEqCmp_compareOn fun _ _ h => by simpa [PluginId.ext_iff] using h

instance : LawfulEqOrd CellOwner where
  eq_of_compare {a b} h := by
    obtain ⟨⟨_⟩, ⟨_⟩⟩ := a
    obtain ⟨⟨_⟩, ⟨_⟩⟩ := b
    obtain ⟨hcell, hplugin⟩ := compareLex_eq_eq.mp h
    cases LawfulEqOrd.eq_of_compare hcell
    cases LawfulEqOrd.eq_of_compare hplugin
    rfl

theorem UniverseClass.ctorIdx_injective : Function.Injective UniverseClass.ctorIdx := by
  intro a b h
  cases a <;> cases b <;> first | rfl | cases h

instance : LawfulEqOrd Handle where
  eq_of_compare {a b} h := by
    obtain ⟨_, ⟨_⟩⟩ := a
    obtain ⟨_, ⟨_⟩⟩ := b
    obtain ⟨hclass, hid⟩ := compareLex_eq_eq.mp h
    cases UniverseClass.ctorIdx_injective (LawfulEqOrd.eq_of_compare hclass)
    cases LawfulEqOrd.eq_of_compare hid
    rfl

/-! ## Capabilities -/

/-- A capability: its exact fields and the complete recipe or launch that creates it. -/
inductive Capability where
  | sessionFile (path : String) (recipe : SessionFileRecipe)
  | udsSocket (path : String) (recipe : UdsRecipe)
  | proxyMap (host route : String) (recipe : ProxyRecipe)
  | broker (name : String) (launch : BrokerLaunch)
  | mount (source target : String) (recipe : MountRecipe)
deriving DecidableEq, Repr

def Capability.«class» : Capability → UniverseClass
  | .sessionFile .. => .sessionFile
  | .udsSocket .. => .udsPath
  | .proxyMap .. => .proxyMap
  | .broker .. => .brokerPid
  | .mount .. => .mount

/-- The diagnostic key, not an address: two different capabilities can share it. -/
def Capability.key : Capability → String
  | .sessionFile path _ => "session/" ++ path
  | .udsSocket path _ => path
  | .proxyMap host _ _ => host
  | .broker name _ => "broker/" ++ name
  | .mount _ target _ => target

def sessionFileRules (path : String) (recipe : SessionFileRecipe) : Except RecipeError Unit := do
  canonicalPath "path" path
  recipe.validate

def udsSocketRules (path : String) (recipe : UdsRecipe) : Except RecipeError Unit := do
  canonicalPath "path" path
  recipe.validate

def proxyMapRules (host route : String) (recipe : ProxyRecipe) : Except RecipeError Unit := do
  nulFree "host" host
  nulFree "route" route
  recipe.validate

def brokerRules (name : String) (launch : BrokerLaunch) : Except RecipeError Unit := do
  nulFree "name" name
  launch.validate

def mountRules (source target : String) (recipe : MountRecipe) : Except RecipeError Unit := do
  canonicalPath "source" source
  canonicalPath "target" target
  recipe.validate

/-- The first rule a capability breaks: its own strings in field order, then its recipe. -/
def Capability.validate : Capability → Except RecipeError Unit
  | .sessionFile path recipe => sessionFileRules path recipe
  | .udsSocket path recipe => udsSocketRules path recipe
  | .proxyMap host route recipe => proxyMapRules host route recipe
  | .broker name launch => brokerRules name launch
  | .mount source target recipe => mountRules source target recipe

/-! ## Objects, operations and removals -/

/-- A standing object at its own address. -/
structure OsObject where
  id : GrantId
  owner : CellOwner
  capability : Capability
deriving DecidableEq, Repr

/-- One recorded operation: an address, its owner and the capability it creates. -/
inductive UniverseOp where
  | writeSessionFile (id : GrantId) (path : String) (recipe : SessionFileRecipe)
      (owner : CellOwner)
  | bindUds (id : GrantId) (path : String) (recipe : UdsRecipe) (owner : CellOwner)
  | setProxyMap (id : GrantId) (host route : String) (recipe : ProxyRecipe) (owner : CellOwner)
  | spawnBroker (id : GrantId) (name : String) (launch : BrokerLaunch) (owner : CellOwner)
  | addMount (id : GrantId) (source target : String) (recipe : MountRecipe) (owner : CellOwner)
deriving DecidableEq, Repr

/-- The exact address and capability a withdrawal names; its owner is given apart. -/
structure UniverseRemoval where
  id : GrantId
  capability : Capability
deriving DecidableEq, Repr

namespace OsObject

def «class» (object : OsObject) : UniverseClass := object.capability.class

def key (object : OsObject) : String := object.capability.key

/-- The address of an object. -/
def handle (object : OsObject) : Handle := ⟨object.class, object.id⟩

/-- The operation that creates this object at its own address. -/
def operation (object : OsObject) : UniverseOp :=
  match object.capability with
  | .sessionFile path recipe => .writeSessionFile object.id path recipe object.owner
  | .udsSocket path recipe => .bindUds object.id path recipe object.owner
  | .proxyMap host route recipe => .setProxyMap object.id host route recipe object.owner
  | .broker name launch => .spawnBroker object.id name launch object.owner
  | .mount source target recipe => .addMount object.id source target recipe object.owner

end OsObject

namespace UniverseOp

def id : UniverseOp → GrantId
  | .writeSessionFile id .. | .bindUds id .. | .setProxyMap id .. | .spawnBroker id ..
  | .addMount id .. => id

def «class» : UniverseOp → UniverseClass
  | .writeSessionFile .. => .sessionFile
  | .bindUds .. => .udsPath
  | .setProxyMap .. => .proxyMap
  | .spawnBroker .. => .brokerPid
  | .addMount .. => .mount

def owner : UniverseOp → CellOwner
  | .writeSessionFile _ _ _ owner | .bindUds _ _ _ owner | .setProxyMap _ _ _ _ owner
  | .spawnBroker _ _ _ owner | .addMount _ _ _ _ owner => owner

/-- The complete capability this operation creates. -/
def capability : UniverseOp → Capability
  | .writeSessionFile _ path recipe _ => .sessionFile path recipe
  | .bindUds _ path recipe _ => .udsSocket path recipe
  | .setProxyMap _ host route recipe _ => .proxyMap host route recipe
  | .spawnBroker _ name launch _ => .broker name launch
  | .addMount _ source target recipe _ => .mount source target recipe

def handle (operation : UniverseOp) : Handle := ⟨operation.class, operation.id⟩

def object (operation : UniverseOp) : OsObject :=
  ⟨operation.id, operation.owner, operation.capability⟩

def removal (operation : UniverseOp) : UniverseRemoval :=
  ⟨operation.id, operation.capability⟩

/-- The first rule the created capability breaks, without building that capability. -/
def validate : UniverseOp → Except RecipeError Unit
  | .writeSessionFile _ path recipe _ => sessionFileRules path recipe
  | .bindUds _ path recipe _ => udsSocketRules path recipe
  | .setProxyMap _ host route recipe _ => proxyMapRules host route recipe
  | .spawnBroker _ name launch _ => brokerRules name launch
  | .addMount _ source target recipe _ => mountRules source target recipe

end UniverseOp

namespace UniverseRemoval

def «class» (removal : UniverseRemoval) : UniverseClass := removal.capability.class

def key (removal : UniverseRemoval) : String := removal.capability.key

/-- The address the removal selects. -/
def handle (removal : UniverseRemoval) : Handle := ⟨removal.class, removal.id⟩

/-- The object the removal selects when `owner` holds it. -/
def object (removal : UniverseRemoval) (owner : CellOwner) : OsObject :=
  ⟨removal.id, owner, removal.capability⟩

end UniverseRemoval

@[simp] theorem OsObject.operation_object (object : OsObject) :
    object.operation.object = object := by
  obtain ⟨id, owner, capability⟩ := object
  cases capability <;> rfl

@[simp] theorem UniverseOp.object_operation (operation : UniverseOp) :
    operation.object.operation = operation := by
  cases operation <;> rfl

@[simp] theorem UniverseOp.object_handle (operation : UniverseOp) :
    operation.object.handle = operation.handle := by
  cases operation <;> rfl

@[simp] theorem OsObject.operation_handle (object : OsObject) :
    object.operation.handle = object.handle := by
  rw [← UniverseOp.object_handle, OsObject.operation_object]

@[simp] theorem OsObject.operation_capability (object : OsObject) :
    object.operation.capability = object.capability :=
  congrArg OsObject.capability object.operation_object

@[simp] theorem OsObject.operation_owner (object : OsObject) :
    object.operation.owner = object.owner :=
  congrArg OsObject.owner object.operation_object

@[simp] theorem UniverseOp.object_capability (operation : UniverseOp) :
    operation.object.capability = operation.capability := rfl

@[simp] theorem UniverseOp.object_owner (operation : UniverseOp) :
    operation.object.owner = operation.owner := rfl

@[simp] theorem UniverseOp.object_id (operation : UniverseOp) :
    operation.object.id = operation.id := rfl

@[simp] theorem UniverseOp.class_eq_capability_class (operation : UniverseOp) :
    operation.capability.class = operation.class := by
  cases operation <;> rfl

@[simp] theorem UniverseOp.validate_eq_capability_validate (operation : UniverseOp) :
    operation.validate = operation.capability.validate := by
  cases operation <;> rfl

@[simp] theorem UniverseRemoval.object_handle (removal : UniverseRemoval) (owner : CellOwner) :
    (removal.object owner).handle = removal.handle := rfl

@[simp] theorem UniverseRemoval.object_owner (removal : UniverseRemoval) (owner : CellOwner) :
    (removal.object owner).owner = owner := rfl

@[simp] theorem UniverseRemoval.object_capability (removal : UniverseRemoval)
    (owner : CellOwner) : (removal.object owner).capability = removal.capability := rfl

@[simp] theorem UniverseOp.removal_object (operation : UniverseOp) :
    operation.removal.object operation.owner = operation.object := rfl

@[simp] theorem UniverseOp.removal_handle (operation : UniverseOp) :
    operation.removal.handle = operation.handle := by
  cases operation <;> rfl

end Plasmosome.Backend
