import Plasmosome.Foundation.Saturation
import Plasmosome.Serde.Value

/-!
# The derived facts of a dependency record

What `cargo metadata` says of one crate: the packages it brings, the code that
runs when it is built, and the packages that leave the lockfile with it. The keys
of a hash table are met in any order.
-/

namespace Plasmosome.RecordFacts

open Foundation Std
open Serde (Value)

inductive Refusal where
  | matches (count : Nat)
  | failed (reason : String)
deriving DecidableEq

/-- An order the keys of a hash table are met in. -/
structure Meeting where
  order : List String → List String
  perm : ∀ keys, (order keys).Perm keys

/-! ## Reading values -/

def member (value : Value) (key : String) : Option Value :=
  match value with
  | .object members => members.lookup key
  | _ => none

/-- Whether Python reads the value as true. -/
def truthy : Value → Bool
  | .null => false
  | .bool value => value
  | .number (.posInt value) => value ≠ 0
  | .number (.negInt value) => value ≠ 0
  | .number (.float bits) => bits ≠ 0 && bits ≠ 0x8000000000000000
  | .string text => text ≠ ""
  | .array items => !items.isEmpty
  | .object members => !members.isEmpty

def isText (value : Value) (text : String) : Bool :=
  match value with
  | .string found => found = text
  | _ => false

def debug (key : String) : String := "\"" ++ key ++ "\""

def notA (what kind : String) : String := debug what ++ " is not " ++ kind

def get (value : Value) (key : String) : Except String Value :=
  match member value key with
  | some found => .ok found
  | none => .error ("an object has no key " ++ debug key)

def text (value : Value) (key : String) : Except String String := do
  match ← get value key with
  | .string found => return found
  | _ => .error (notA key "a string")

def list (value : Value) (key : String) : Except String (List Value) := do
  match ← get value key with
  | .array items => return items
  | _ => .error (notA key "a list")

def node (nodes : OrderedMap String Value) (id : String) : Except String Value :=
  match nodes[id]? with
  | some found => .ok found
  | none => .error ("the resolve has no node " ++ id)

/-! ## Versions -/

/-- The number some decimal digits spell, when there are any and it fits. -/
def parseU64 (digits : List Char) : Option Nat :=
  if digits.isEmpty || !digits.all Char.isDigit then none
  else
    let value := digits.foldl (fun value digit => value * 10 + (digit.toNat - '0'.toNat)) 0
    if value < 2 ^ 64 then some value else none

/-- The semver-compatible part of a version. -/
def ranged (version : String) : Except String String :=
  let core := (version.toList.splitOn '-').headD []
  match (((core.splitOn '+').headD []).splitOn '.').map parseU64 with
  | [some major, some minor, some patch] =>
      .ok (if major = 0 then
          if minor = 0 then "0.0." ++ toString patch else "0." ++ toString minor
        else toString major)
  | _ => .error ("the version " ++ version ++ " is not three numbers")

/-! ## The resolve -/

structure Resolve where
  packages : OrderedMap String Value
  nodes : OrderedMap String Value
  members : OrderedSet String

namespace Resolve

def index (items : List Value) : Except String (OrderedMap String Value) := do
  let entries ← items.mapM fun item => do return (← text item "id", item)
  return ExtTreeMap.ofList entries

def read (metadata : Value) : Except String Resolve := do
  let packages ← index (← list metadata "packages")
  let nodes ← index (← list (← get metadata "resolve") "nodes")
  let members ← (← list metadata "workspace_members").mapM fun item =>
    match item with
    | .string found => Except.ok found
    | _ => .error (notA "a member" "a string")
  return ⟨packages, nodes, ExtTreeSet.ofList members⟩

def of (metadata : Value) (path : String) : Except String Resolve :=
  (read metadata).mapError fun reason => path ++ " is not cargo metadata: " ++ reason

variable (resolve : Resolve)

def package (id : String) : Except String Value :=
  match resolve.packages[id]? with
  | some found => .ok found
  | none => .error ("no package has the id " ++ id)

def label (id : String) : Except String String := do
  let package ← resolve.package id
  let name ← text package "name"
  let range ← ranged (← text package "version")
  return name ++ "@" ++ range

/-- Whether a package is from outside the workspace, under the name, and of the range if one is
wanted. -/
def selects (name : String) (wanted : Option String) (package : Value) : Except String Bool := do
  let source ← get package "source"
  if truthy source then
    let found ← get package "name"
    if isText found name then
      match wanted with
      | none => return true
      | some wanted => return decide ((← ranged (← text package "version")) = wanted)
    else return false
  else return false

/-- The ids of the packages that are selected, in the order they are met. -/
def found (name : String) (wanted : Option String) : List String → Except String (List String)
  | [] => .ok []
  | id :: rest => do
      let package ← resolve.package id
      let selected ← selects name wanted package
      let others ← found name wanted rest
      return if selected then id :: others else others

def find (meeting : Meeting) (name : String) (wanted : Option String) :
    Except Refusal String := do
  match ← (resolve.found name wanted (meeting.order resolve.packages.keys)).mapError
    Refusal.failed with
  | [id] => return id
  | found => .error (.matches found.length)

end Resolve

/-! ## The worklists -/

/-- Whether an edge is a normal or a build edge. -/
def follows (dep : Value) : Except String Bool := do
  let kinds ← (← list dep "dep_kinds").mapM fun kind => get kind "kind"
  return kinds.any fun kind => !truthy kind || isText kind "normal" || isText kind "build"

def followed : List Value → Except String (List String)
  | [] => .ok []
  | dep :: rest => do
      if ← follows dep then
        let pkg ← text dep "pkg"
        let others ← followed rest
        return pkg :: others
      else followed rest

/-- What an edge is listed with, however well it is written. -/
def depsOf (node : Value) : List Value :=
  match member node "deps" with
  | some (.array deps) => deps
  | _ => []

/-- Each edge puts its package on a worklist at most once. -/
def edges (nodes : OrderedMap String Value) : Nat :=
  (nodes.toList.map fun entry => (depsOf entry.2).length).sum

/-- `none` stands for a search that did not end. -/
def closure (nodes : OrderedMap String Value) (root : String) :
    Except String (Option (OrderedSet String)) := do
  let seen ← Worklist.drainReading
    (fun here => do followed (← list (← node nodes here) "deps")) (edges nodes + 1) ∅ [root]
  return seen.map fun seen => seen.erase root

def keptWithout (meeting : Meeting) (resolve : Resolve) (root : String) :
    Except String (Option (OrderedSet String)) :=
  Worklist.drainReading
    (fun here => do
      let deps ← list (← node resolve.nodes here) "deps"
      let targets ← deps.mapM fun dep => text dep "pkg"
      return targets.filter fun pkg => !(resolve.members.contains here && pkg = root))
    (edges resolve.nodes + resolve.members.size) resolve.members
    (meeting.order resolve.members.toList)

/-! ## The facts -/

/-- What is named in the sources of the package whose manifest is at a path. -/
abbrev Linked : Type := String → Except String (List String)

def sorted (texts : List String) : List String := sortByKey (fun text => text) texts

section HostFacts

variable (linked : Linked)

def codeKinds : List (String × String) :=
  [("custom-build", "build script"), ("proc-macro", "proc macro")]

/-- The name of a build dependency. -/
def builder (dependency : Value) : Except String (List String) := do
  let kind ← get dependency "kind"
  if isText kind "build" then return [← text dependency "name"] else return []

/-- The code of one package that runs when it is built, and the hints of native code in it. -/
def hostRow (resolve : Resolve) (label id : String) :
    Except String (List String × List String) := do
  let package ← resolve.package id
  let kinds ← (← list package "targets").mapM fun target => list target "kind"
  let built := codeKinds.filterMap fun (kind, what) =>
    if kinds.flatten.any fun found => isText found kind then some (label ++ " " ++ what) else none
  let links ←
    match (member package "links").filter truthy with
    | none => pure []
    | some (.string links) => pure [label ++ " links " ++ links]
    | some _ => .error (notA "links" "a string")
  let builders ← (← list package "dependencies").mapM builder
  let builders := sorted builders.flatten
  let builds :=
    if builders.any fun name => ["cc", "cmake", "pkg-config"].contains name then
      [label ++ " builds with " ++ ", ".intercalate builders]
    else []
  let libraries ← linked (← text package "manifest_path")
  let named :=
    if libraries.isEmpty then []
    else [label ++ " names in link(name): " ++ ", ".intercalate libraries]
  return (built, links ++ builds ++ named)

def sortLabelled (labelled : List (String × String)) : List (String × String) :=
  sortByKey (fun entry => [entry.1, entry.2]) labelled

def hostFacts (meeting : Meeting) (hosts : Resolve) (root : String) :
    Except String (Option (List String × List String)) := do
  if !hosts.nodes.contains root then return some ([], [])
  else
    match ← closure hosts.nodes root with
    | none => return none
    | some onHosts =>
        let labelled ← (meeting.order (onHosts.insert root).toList).mapM fun id => do
          return (← hosts.label id, id)
        let rows ← (sortLabelled labelled).mapM fun entry =>
          hostRow linked hosts entry.1 entry.2
        return some ((rows.map Prod.fst).flatten, (rows.map Prod.snd).flatten)

end HostFacts

/-! ## The record -/

def quoted (items : List String) : String :=
  "[" ++ ", ".intercalate (items.map fun item => "\"" ++ item ++ "\"") ++ "]"

def orElse (joined empty : String) : String := if joined = "" then empty else joined

/-- The lines of a record. -/
def render (name range : String) (brings built gone hints : List String) : String :=
  "name = \"" ++ name ++ "\"\nrange = \"" ++ range ++ "\"\nbrings = " ++ quoted brings ++
    "\nbuild_time_code = " ++ quoted built ++ "\n# leaves Cargo.lock with it: " ++
    toString gone.length ++ ": " ++ orElse (", ".intercalate gone) "none, it stays" ++
    "\n# native-code hints to read, not a field: " ++ orElse ("; ".intercalate hints) "none" ++ "\n"

/-- The hash tables that are walked. -/
inductive Site where
  | find
  | brings
  | hosts
  | members
  | packages

def goneFrom (resolve : Resolve) (kept : OrderedSet String) : List String →
    Except String (List String)
  | [] => .ok []
  | id :: rest => do
      let package ← resolve.package id
      let source ← get package "source"
      if truthy source && !kept.contains id then
        let label ← resolve.label id
        let others ← goneFrom resolve kept rest
        return label :: others
      else goneFrom resolve kept rest

/-- The facts after the root is found. -/
def factsOf (linked : Linked) (meet : Site → Meeting) (all hosts : Resolve) (root name : String) :
    Except String (Option String) := do
  let range ← ranged (← text (← all.package root) "version")
  match ← closure all.nodes root with
  | none => return none
  | some brought => do
      let brings ← ((meet .brings).order brought.toList).mapM all.label
      match ← hostFacts linked (meet .hosts) hosts root with
      | none => return none
      | some (built, hints) => do
          match ← keptWithout (meet .members) all root with
          | none => return none
          | some kept => do
              let gone ← goneFrom all kept ((meet .packages).order all.packages.keys)
              return some (render name range (sorted brings) built (sorted gone) hints)

/-- `none` stands for a search that did not end. The two paths are only named in failures. -/
def facts (linked : Linked) (meet : Site → Meeting) (all hosts : Value)
    (allPath hostsPath name : String) (wanted : Option String) :
    Except Refusal (Option String) := do
  let all ← (Resolve.of all allPath).mapError Refusal.failed
  let hosts ← (Resolve.of hosts hostsPath).mapError Refusal.failed
  let root ← all.find (meet .find) name wanted
  (factsOf linked meet all hosts root name).mapError Refusal.failed

end Plasmosome.RecordFacts
