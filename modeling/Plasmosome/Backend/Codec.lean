import Plasmosome.Backend.AccountLaws
import Plasmosome.Backend.Text
import Plasmosome.Serde.Codec

/-!
# The value form of an account

How the records of the backend are written as values and read back. A record is read
from an object of exactly its fields, and what fails its own check is neither written
nor read.
-/

namespace Plasmosome.Backend

open Foundation Std
open Serde (Value Codec Fields)

/-- Whether a check passes. -/
def passes {α ε : Type} (check : α → Except ε Unit) (value : α) : Bool := (check value).isOk

/-! ## Identities -/

def CellId.codec : Codec CellId := .through .string CellId.name CellId.mk fun _ => rfl

def PluginId.codec : Codec PluginId := .through .string PluginId.name PluginId.mk fun _ => rfl

def CellOwner.codec : Codec CellOwner :=
  .through (.object (.field "cell" CellId.codec (.field "plugin" PluginId.codec .nil)) (by decide))
    (fun owner => (owner.cell, owner.plugin, ())) (fun (cell, plugin, _) => ⟨cell, plugin⟩)
    fun _ => rfl

/-- The identity a text spells. Of the forms an identity can be read from, only the canonical one
is accepted. -/
def GrantId.parse (text : String) : Option GrantId := do
  let parsed ← Uuid.parse text
  if random : Uuid.Random parsed then
    let id : GrantId := ⟨parsed, random⟩
    if text ≠ id.display then none else some id
  else none

theorem GrantId.display_toList (id : GrantId) :
    id.display.toList = ['-'].intercalate (Uuid.groups (Uuid.digits id.uuid)) := by
  have htext : (hexDigits 32 id.uuid.toNat).toList = Uuid.digits id.uuid := by
    simp [hexDigits, Uuid.digits]
  rw [display, htext, String.toList_intercalate]
  simp only [List.map_cons, List.map_nil, String.toList_ofList, Uuid.groups, List.drop_zero]
  rfl

theorem GrantId.parse_display (id : GrantId) : GrantId.parse id.display = some id := by
  rw [GrantId.parse, Uuid.parse_groups id.uuid id.display_toList]
  simp [id.random]

def GrantId.codec : Codec GrantId where
  encode := fun id => some (.string id.display)
  decode := fun value => value.asStr.bind GrantId.parse
  Valid := fun _ => True
  reads := by
    intro id _
    refine ⟨.string id.display, rfl, ?_⟩
    rw [Serde.Value.asStr_string, Option.bind_some, id.parse_display]

/-- An enumeration written as the name of the variant. -/
def named {α : Type} (name : α → String) (read : String → Option α)
    (hread : ∀ a, read (name a) = some a) : Codec α where
  encode := fun a => some (.string (name a))
  decode := fun value => value.asStr.bind read
  Valid := fun _ => True
  reads := fun a _ => ⟨_, rfl, hread a⟩

def UniverseClass.codec : Codec UniverseClass :=
  named
    (fun
      | .sessionFile => "SessionFile"
      | .udsPath => "UdsPath"
      | .proxyMap => "ProxyMap"
      | .brokerPid => "BrokerPid"
      | .mount => "Mount")
    (fun
      | "SessionFile" => some .sessionFile
      | "UdsPath" => some .udsPath
      | "ProxyMap" => some .proxyMap
      | "BrokerPid" => some .brokerPid
      | "Mount" => some .mount
      | _ => none)
    (by rintro ⟨⟩ <;> rfl)

def Handle.codec : Codec Handle :=
  .through (.object (.field "class" UniverseClass.codec (.field "id" GrantId.codec .nil)) (by decide))
    (fun handle => (handle.class, handle.id, ())) (fun («class», id, _) => ⟨«class», id⟩)
    fun _ => rfl

def GrantKind.name : GrantKind → String
  | .hot => "Hot"
  | .generationBound => "GenerationBound"

def GrantKind.ofName : String → Option GrantKind
  | "Hot" => some .hot
  | "GenerationBound" => some .generationBound
  | _ => none

/-- A kind is also read from an object of its name and nothing. -/
def GrantKind.codec : Codec GrantKind where
  encode := fun kind => some (.string kind.name)
  decode
    | .string name => GrantKind.ofName name
    | .object [(name, .null)] => GrantKind.ofName name
    | _ => none
  Valid := fun _ => True
  reads := by rintro (_ | _) _ <;> exact ⟨_, rfl, rfl⟩

/-! ## Recipes -/

def FileAccess.codec : Codec FileAccess :=
  named
    (fun
      | .readOnly => "read_only"
      | .readWrite => "read_write")
    (fun
      | "read_only" => some .readOnly
      | "read_write" => some .readWrite
      | _ => none)
    (by rintro ⟨⟩ <;> rfl)

def ProxyTransport.codec : Codec ProxyTransport :=
  named
    (fun
      | .tcp => "tcp"
      | .udp => "udp")
    (fun
      | "tcp" => some .tcp
      | "udp" => some .udp
      | _ => none)
    (by rintro ⟨⟩ <;> rfl)

def SessionFileRecipe.codec : Codec SessionFileRecipe :=
  .checked (passes SessionFileRecipe.validate) <|
    .through
      (.object (.field "contents" (.list .u8) (.field "mode" FileAccess.codec
        (.field "guest_path" .string .nil))) (by decide))
      (fun recipe => (recipe.contents, recipe.mode, recipe.guestPath, ()))
      (fun (contents, mode, guestPath, _) => ⟨contents, mode, guestPath⟩) fun _ => rfl

def UdsRecipe.codec : Codec UdsRecipe :=
  .checked (passes UdsRecipe.validate) <|
    .through
      (.object (.field "upstream" .string (.field "guest_path" .string .nil)) (by decide))
      (fun recipe => (recipe.upstream, recipe.guestPath, ()))
      (fun (upstream, guestPath, _) => ⟨upstream, guestPath⟩) fun _ => rfl

def ProxyRecipe.codec : Codec ProxyRecipe :=
  .checked (passes ProxyRecipe.validate) <|
    .through
      (.object (.field "transport" ProxyTransport.codec (.field "destination" .string
        (.field "port" .u16 (.field "allow_private" .bool .nil)))) (by decide))
      (fun recipe => (recipe.transport, recipe.destination, recipe.port, recipe.allowPrivate, ()))
      (fun (transport, destination, port, allowPrivate, _) =>
        ⟨transport, destination, port, allowPrivate⟩) fun _ => rfl

def MountRecipe.codec : Codec MountRecipe :=
  .checked (passes MountRecipe.validate) <|
    .through (.object (.field "access" FileAccess.codec .nil) (by decide))
      (fun recipe => (recipe.access, ())) (fun (access, _) => ⟨access⟩) fun _ => rfl

def BrokerLaunch.codec : Codec BrokerLaunch :=
  .checked (passes BrokerLaunch.validate) <|
    .through
      (.object (.field "command" (.list .string) (.field "control_socket" .string
        (.field "data_socket" .string .nil))) (by decide))
      (fun launch => (launch.command, launch.controlSocket, launch.dataSocket, ()))
      (fun (command, controlSocket, dataSocket, _) => ⟨command, controlSocket, dataSocket⟩)
      fun _ => rfl

/-! ## Capabilities and operations -/

namespace Capability

def tag : Capability → String
  | .sessionFile .. => "SessionFile"
  | .udsSocket .. => "UdsSocket"
  | .proxyMap .. => "ProxyMap"
  | .broker .. => "Broker"
  | .mount .. => "Mount"

/-- The fields of each variant. -/
def content : String → Option (Codec Capability)
  | "SessionFile" => some <| .case
      (.object (.field "path" .string (.field "recipe" SessionFileRecipe.codec .nil)) (by decide))
      (fun
        | .sessionFile path recipe => some (path, recipe, ())
        | _ => none)
      (fun (path, recipe, _) => .sessionFile path recipe) (by rintro ⟨⟩ _ ⟨⟩; rfl)
  | "UdsSocket" => some <| .case
      (.object (.field "path" .string (.field "recipe" UdsRecipe.codec .nil)) (by decide))
      (fun
        | .udsSocket path recipe => some (path, recipe, ())
        | _ => none)
      (fun (path, recipe, _) => .udsSocket path recipe) (by rintro ⟨⟩ _ ⟨⟩; rfl)
  | "ProxyMap" => some <| .case
      (.object (.field "host" .string (.field "route" .string
        (.field "recipe" ProxyRecipe.codec .nil))) (by decide))
      (fun
        | .proxyMap host route recipe => some (host, route, recipe, ())
        | _ => none)
      (fun (host, route, recipe, _) => .proxyMap host route recipe) (by rintro ⟨⟩ _ ⟨⟩; rfl)
  | "Broker" => some <| .case
      (.object (.field "name" .string (.field "launch" BrokerLaunch.codec .nil)) (by decide))
      (fun
        | .broker name launch => some (name, launch, ())
        | _ => none)
      (fun (name, launch, _) => .broker name launch) (by rintro ⟨⟩ _ ⟨⟩; rfl)
  | "Mount" => some <| .case
      (.object (.field "source" .string (.field "target" .string
        (.field "recipe" MountRecipe.codec .nil))) (by decide))
      (fun
        | .mount source target recipe => some (source, target, recipe, ())
        | _ => none)
      (fun (source, target, recipe, _) => .mount source target recipe) (by rintro ⟨⟩ _ ⟨⟩; rfl)
  | _ => none

def codec : Codec Capability :=
  .checked (passes Capability.validate) <|
    .variants tag content (by rintro ⟨⟩ <;> exact ⟨_, rfl⟩)

end Capability

namespace UniverseOp

def tag : UniverseOp → String
  | .writeSessionFile .. => "WriteSessionFile"
  | .bindUds .. => "BindUds"
  | .setProxyMap .. => "SetProxyMap"
  | .spawnBroker .. => "SpawnBroker"
  | .addMount .. => "AddMount"

/-- The fields of each variant. -/
def content : String → Option (Codec UniverseOp)
  | "WriteSessionFile" => some <| .case
      (.object (.field "id" GrantId.codec (.field "path" .string
        (.field "recipe" SessionFileRecipe.codec (.field "owner" CellOwner.codec .nil)))) (by decide))
      (fun
        | .writeSessionFile id path recipe owner => some (id, path, recipe, owner, ())
        | _ => none)
      (fun (id, path, recipe, owner, _) => .writeSessionFile id path recipe owner)
      (by rintro ⟨⟩ _ ⟨⟩; rfl)
  | "BindUds" => some <| .case
      (.object (.field "id" GrantId.codec (.field "path" .string
        (.field "recipe" UdsRecipe.codec (.field "owner" CellOwner.codec .nil)))) (by decide))
      (fun
        | .bindUds id path recipe owner => some (id, path, recipe, owner, ())
        | _ => none)
      (fun (id, path, recipe, owner, _) => .bindUds id path recipe owner)
      (by rintro ⟨⟩ _ ⟨⟩; rfl)
  | "SetProxyMap" => some <| .case
      (.object (.field "id" GrantId.codec (.field "host" .string (.field "route" .string
        (.field "recipe" ProxyRecipe.codec (.field "owner" CellOwner.codec .nil))))) (by decide))
      (fun
        | .setProxyMap id host route recipe owner => some (id, host, route, recipe, owner, ())
        | _ => none)
      (fun (id, host, route, recipe, owner, _) => .setProxyMap id host route recipe owner)
      (by rintro ⟨⟩ _ ⟨⟩; rfl)
  | "SpawnBroker" => some <| .case
      (.object (.field "id" GrantId.codec (.field "name" .string
        (.field "launch" BrokerLaunch.codec (.field "owner" CellOwner.codec .nil)))) (by decide))
      (fun
        | .spawnBroker id name launch owner => some (id, name, launch, owner, ())
        | _ => none)
      (fun (id, name, launch, owner, _) => .spawnBroker id name launch owner)
      (by rintro ⟨⟩ _ ⟨⟩; rfl)
  | "AddMount" => some <| .case
      (.object (.field "id" GrantId.codec (.field "source" .string (.field "target" .string
        (.field "recipe" MountRecipe.codec (.field "owner" CellOwner.codec .nil))))) (by decide))
      (fun
        | .addMount id source target recipe owner => some (id, source, target, recipe, owner, ())
        | _ => none)
      (fun (id, source, target, recipe, owner, _) => .addMount id source target recipe owner)
      (by rintro ⟨⟩ _ ⟨⟩; rfl)
  | _ => none

def codec : Codec UniverseOp :=
  .checked (passes UniverseOp.validate) <|
    .variants tag content (by rintro ⟨⟩ <;> exact ⟨_, rfl⟩)

end UniverseOp

/-! ## Rows -/

def OsObject.codec : Codec OsObject :=
  .through
    (.object (.field "id" GrantId.codec (.field "owner" CellOwner.codec
      (.field "capability" Capability.codec .nil))) (by decide))
    (fun object => (object.id, object.owner, object.capability, ()))
    (fun (id, owner, capability, _) => ⟨id, owner, capability⟩) fun _ => rfl

def LedgerEntry.codec : Codec LedgerEntry :=
  .checked (fun entry => entry.handle.class = entry.capability.class) <|
    .through
      (.object (.field "handle" Handle.codec (.field "owner" CellOwner.codec
        (.field "capability" Capability.codec (.field "kind" GrantKind.codec .nil)))) (by decide))
      (fun entry => (entry.handle, entry.owner, entry.capability, entry.kind, ()))
      (fun (handle, owner, capability, kind, _) => ⟨handle, owner, capability, kind⟩) fun _ => rfl

def IncompleteEffect.codec : Codec IncompleteEffect :=
  .through (.object (.field "operation" UniverseOp.codec .nil) (by decide))
    (fun effect => (effect.operation, ())) (fun (operation, _) => ⟨operation⟩) fun _ => rfl

/-- Inserts objects one by one, and refuses an address met twice. -/
def OsState.insertVacant : List OsObject → OsState → Option OsState
  | [], state => some state
  | object :: rest, state =>
      if object.handle ∈ state.objects then none
      else
        match state.insert object with
        | (.ok _, state) => OsState.insertVacant rest state
        | (.error _, _) => none

/-! ## Objects read back -/

namespace OsState

theorem insertVacant_getElem? {objects : List OsObject} {state : OsState}
    (hnodup : (objects.map OsObject.handle).Nodup)
    (hfresh : ∀ object ∈ objects, state.objects[object.handle]? = none) :
    ∃ filled, insertVacant objects state = some filled ∧
      ∀ handle, filled.objects[handle]? =
        (objects.find? fun object => object.handle = handle).or state.objects[handle]? := by
  induction objects generalizing state with
  | nil => exact ⟨state, rfl, fun handle => by simp⟩
  | cons object rest ih =>
      obtain ⟨hnew, hrest⟩ := List.nodup_cons.mp hnodup
      have hvacant := hfresh object List.mem_cons_self
      have hout : object.handle ∉ state.objects := by
        rw [ExtTreeMap.mem_iff_isSome_getElem?, hvacant]
        simp
      obtain ⟨hok, hobjects⟩ := insert_of_vacant hvacant
      obtain ⟨filled, hfilled, hlookup⟩ := @ih (state.insert object).2 hrest (by
        intro other hother
        rw [hobjects, OrderedMap.getElem?_insert', if_neg]
        · exact hfresh other (List.mem_cons_of_mem _ hother)
        · intro heq
          exact hnew (List.mem_map.mpr ⟨other, hother, heq.symm⟩))
      refine ⟨filled, ?_, fun handle => ?_⟩
      · rw [insertVacant, if_neg hout]
        have hpair : state.insert object = (.ok true, (state.insert object).2) := Prod.ext hok rfl
        rw [hpair]
        exact hfilled
      · rw [hlookup, hobjects, OrderedMap.getElem?_insert', List.find?_cons]
        by_cases hsame : object.handle = handle
        · have hnone : (rest.find? fun other => other.handle = handle) = none := by
            rw [List.find?_eq_none]
            intro other hother heq
            refine hnew (List.mem_map.mpr ⟨other, hother, ?_⟩)
            rw [hsame]
            exact of_decide_eq_true heq
          rw [hnone]
          simp [hsame]
        · simp [hsame]

/-- The objects of a state rebuild it. -/
theorem insertVacant_values (state : OsState) : insertVacant state.values empty = some state := by
  have hkeyed := state.addressed
  obtain ⟨filled, hfilled, hlookup⟩ := @insertVacant_getElem? state.values empty hkeyed.nodup
    (fun object _ => by simp [empty])
  have hsame : filled = state := by
    refine ext_objects (ExtTreeMap.ext_getElem? fun handle => ?_)
    rw [hlookup, values, hkeyed.find?_values]
    simp [empty]
  rw [hfilled, hsame]

/-- The object of a state's standing objects. -/
def objectsCodec : Codec (List OsObject × Unit) :=
  .object (.field "objects" (.list OsObject.codec) .nil) (by decide)

def codec : Codec OsState where
  encode := fun state => (objectsCodec.encode (state.values, ()))
  decode := fun value => do
    let (objects, _) ← objectsCodec.decode value
    insertVacant objects empty
  Valid := fun state => objectsCodec.Valid (state.values, ())
  reads := by
    intro state hvalid
    obtain ⟨value, hencode, hdecode⟩ := objectsCodec.reads _ hvalid
    refine ⟨value, hencode, ?_⟩
    rw [hdecode]
    exact state.insertVacant_values

end OsState

namespace EnforcementSnapshot

def fields : Fields (OsState × List LedgerEntry × List IncompleteEffect × Unit) :=
  .field "state" OsState.codec (.field "grants" (.list LedgerEntry.codec)
    (.field "incomplete" (.list IncompleteEffect.codec) .nil))

def wire : Codec (OsState × List LedgerEntry × List IncompleteEffect × Unit) :=
  .object fields (by decide)

def encode (snapshot : EnforcementSnapshot) : Option Value :=
  wire.encode (snapshot.state, snapshot.grants, snapshot.incomplete, ())

/-- The account a value spells, after every check of a new one. -/
def decode (value : Value) : Option EnforcementSnapshot := do
  let (state, grants, incomplete, _) ← wire.decode value
  (new state grants incomplete).toOption

end EnforcementSnapshot

end Plasmosome.Backend
