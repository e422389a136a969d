import Plasmosome.Foundation.Each
import Plasmosome.Tools.RecordFacts

/-!
# The derived facts are reachability

A dependency graph, the metadata that describes it in any order, and what a record
says of it: what a crate brings is what it reaches, and what leaves with it is what
the workspace no longer reaches.
-/

namespace Plasmosome.RecordFacts

open Foundation Std
open Serde (Value)

/-! ## Dependency graphs -/

inductive DepKind where
  | normal
  | build
  | dev
deriving DecidableEq

structure Edge where
  target : String
  kinds : List DepKind

/-- Whether an edge is a normal or a build edge, whatever else it is. -/
def Edge.follows (edge : Edge) : Bool := edge.kinds.any fun kind => kind ≠ .dev

structure Node where
  id : String
  edges : List Edge

structure Package where
  id : String
  name : String
  range : String
  thirdParty : Bool
  kinds : List String
  links : Option String
  builders : List String
  manifest : String

def Package.label (package : Package) : String := package.name ++ "@" ++ package.range

/-- Packages and nodes under distinct ids, every node of a package, every edge and every member at
a node. -/
structure Graph where
  packages : List Package
  nodes : List Node
  members : List String
  packages_distinct : (packages.map Package.id).Nodup
  nodes_distinct : (nodes.map Node.id).Nodup
  nodes_packaged : ∀ node ∈ nodes, node.id ∈ packages.map Package.id
  edges_known : ∀ node ∈ nodes, ∀ edge ∈ node.edges, edge.target ∈ nodes.map Node.id
  members_known : ∀ id ∈ members, id ∈ nodes.map Node.id

namespace Graph

variable (graph : Graph)

/-- A normal or build edge. -/
def Brings (first second : String) : Prop :=
  ∃ node ∈ graph.nodes, node.id = first ∧
    ∃ edge ∈ node.edges, edge.target = second ∧ edge.follows = true

/-- An edge of any kind, but none from a member to the root. -/
def Keeps (root first second : String) : Prop :=
  ∃ node ∈ graph.nodes, node.id = first ∧
    ∃ edge ∈ node.edges, edge.target = second ∧ ¬(first ∈ graph.members ∧ second = root)

/-- What a root reaches by normal and build edges, other than itself. -/
def Reached (root id : String) : Prop := id ≠ root ∧ Relation.TransGen graph.Brings root id

/-- What the members reach without their own edges to the root. -/
def Kept (root id : String) : Prop :=
  ∃ held ∈ graph.members, Relation.ReflTransGen (graph.Keeps root) held id

open Classical in
/-- The packages of which something holds. -/
noncomputable def those (holds : Package → Prop) : List Package :=
  graph.packages.filter fun package => decide (holds package)

noncomputable def brings (root : String) : List String :=
  sorted ((graph.those fun package => graph.Reached root package.id).map Package.label)

noncomputable def gone (root : String) : List String :=
  sorted ((graph.those fun package =>
    package.thirdParty = true ∧ ¬graph.Kept root package.id).map Package.label)

/-- The packages that are built with a root, by label: none where the root is not a node. -/
noncomputable def built (root : String) : List Package :=
  sortByKey (fun package => [package.label, package.id])
    (graph.those fun package => root ∈ graph.nodes.map Node.id ∧
      (package.id = root ∨ graph.Reached root package.id))

end Graph

/-- The build script and the proc macro of a package. -/
def Package.code (package : Package) : List String :=
  (if "custom-build" ∈ package.kinds then [package.label ++ " build script"] else []) ++
    if "proc-macro" ∈ package.kinds then [package.label ++ " proc macro"] else []

def Package.hints (package : Package) (libraries : List String) : List String :=
  let links :=
    match package.links with
    | some links => [package.label ++ " links " ++ links]
    | none => []
  let builders := sorted package.builders
  let builds :=
    if builders.any fun name => ["cc", "cmake", "pkg-config"].contains name then
      [package.label ++ " builds with " ++ ", ".intercalate builders]
    else []
  let named :=
    if libraries.isEmpty then []
    else [package.label ++ " names in link(name): " ++ ", ".intercalate libraries]
  links ++ builds ++ named

def Package.Selected (name : String) (wanted : Option String) (package : Package) : Prop :=
  package.thirdParty = true ∧ package.name = name ∧ ∀ range, wanted = some range →
    package.range = range

/-- What a record says of a crate, from the graph of all platforms and that of the hosts. -/
noncomputable def answer (linked : Linked) (graph hosts : Graph) (name : String)
    (wanted : Option String) : Except Refusal String :=
  match graph.those (Package.Selected name wanted) with
  | [root] =>
      if root.id ∈ graph.nodes.map Node.id then do
        let libraries ← ((hosts.built root.id).mapM fun package =>
          linked package.manifest).mapError Refusal.failed
        return render name root.range (graph.brings root.id)
          ((hosts.built root.id).flatMap Package.code) (graph.gone root.id)
          (List.zipWith Package.hints (hosts.built root.id) libraries).flatten
      else .error (.failed ("the resolve has no node " ++ root.id))
  | found => .error (.matches found.length)

/-! ## Metadata -/

inductive DescribesKind : Value → DepKind → Prop where
  | null : DescribesKind .null .normal
  | normal : DescribesKind (.string "normal") .normal
  | build : DescribesKind (.string "build") .build
  | dev : DescribesKind (.string "dev") .dev

structure DescribesEdge (dep : Value) (edge : Edge) : Prop where
  target : member dep "pkg" = some (.string edge.target)
  kinds : ∃ items, member dep "dep_kinds" = some (.array items) ∧
    List.Forall₂ (fun item kind => ∃ value, member item "kind" = some value ∧
      DescribesKind value kind) items edge.kinds

/-- Items that describe some things, in any order. -/
def Describing {α : Type} (describes : Value → α → Prop) (items : List Value) (all : List α) :
    Prop :=
  ∃ listed : List α, listed.Perm all ∧ List.Forall₂ describes items listed

structure DescribesNode (item : Value) (node : Node) : Prop where
  id : member item "id" = some (.string node.id)
  edges : ∃ deps, member item "deps" = some (.array deps) ∧
    Describing DescribesEdge deps node.edges

/-- The name of a build dependency, and nothing of another one. -/
inductive DescribesBuilder : Value → List String → Prop where
  | build {item : Value} {name : String} (hkind : member item "kind" = some (.string "build"))
      (hname : member item "name" = some (.string name)) : DescribesBuilder item [name]
  | other {item kind : Value} (hkind : member item "kind" = some kind)
      (hother : kind ≠ .string "build") : DescribesBuilder item []

structure DescribesPackage (item : Value) (package : Package) : Prop where
  id : member item "id" = some (.string package.id)
  name : member item "name" = some (.string package.name)
  version : ∃ version, member item "version" = some (.string version) ∧
    ranged version = .ok package.range
  source : ∃ source, member item "source" = some source ∧ truthy source = package.thirdParty
  targets : ∃ targets, member item "targets" = some (.array targets) ∧ ∃ kinds,
    List.Forall₂ (fun target kinds => member target "kind" = some (.array kinds)) targets kinds ∧
      ∀ kind, kind ∈ package.kinds ↔ Value.string kind ∈ kinds.flatten
  links : (member item "links").filter truthy = package.links.map Value.string
  builders : ∃ dependencies names, member item "dependencies" = some (.array dependencies) ∧
    List.Forall₂ DescribesBuilder dependencies names ∧ names.flatten.Perm package.builders
  manifest : member item "manifest_path" = some (.string package.manifest)

/-- A value describes a graph when it lists its packages, nodes, edges and members, in any
order. -/
structure Describes (metadata : Value) (graph : Graph) : Prop where
  packages : ∃ items, member metadata "packages" = some (.array items) ∧
    Describing DescribesPackage items graph.packages
  nodes : ∃ resolve items, member metadata "resolve" = some resolve ∧
    member resolve "nodes" = some (.array items) ∧ Describing DescribesNode items graph.nodes
  members : ∃ items, member metadata "workspace_members" = some (.array items) ∧
    Describing (fun item id => item = Value.string id) items graph.members

/-! ## Reading metadata -/

theorem get_eq {value found : Value} {key : String} (hmember : member value key = some found) :
    get value key = .ok found := by
  rw [get, hmember]

theorem text_eq {value : Value} {key found : String}
    (hmember : member value key = some (.string found)) : text value key = .ok found := by
  rw [text, get_eq hmember]
  rfl

theorem list_eq {value : Value} {key : String} {items : List Value}
    (hmember : member value key = some (.array items)) : list value key = .ok items := by
  rw [list, get_eq hmember]
  rfl

theorem exists_of_forall₂ {α β : Type} {related : α → β → Prop} {first : List α} {second : List β}
    (hlists : List.Forall₂ related first second) {a : α} (ha : a ∈ first) :
    ∃ b ∈ second, related a b := by
  induction hlists with
  | nil => cases ha
  | cons hhead _ ih =>
      rcases List.mem_cons.mp ha with rfl | ha
      · exact ⟨_, List.mem_cons_self, hhead⟩
      · obtain ⟨b, hb, hrelated⟩ := ih ha
        exact ⟨b, List.mem_cons_of_mem _ hb, hrelated⟩

/-- The table of some items under their ids. -/
theorem index_describing {α : Type} {describes : Value → α → Prop} {key : α → String}
    (hid : ∀ item a, describes item a → member item "id" = some (.string (key a)))
    {items : List Value} {all : List α} (hall : Describing describes items all)
    (hnodup : (all.map key).Nodup) :
    ∃ map, Resolve.index items = .ok map ∧
      (∀ a ∈ all, ∃ item, map[key a]? = some item ∧ describes item a) ∧
      ∀ id, id ∈ map ↔ id ∈ all.map key := by
  obtain ⟨listed, hperm, hlisted⟩ := hall
  obtain ⟨entries, hentries, hsame⟩ : ∃ entries : List (String × Value),
      items.mapM (fun item => do return (← text item "id", item)) =
        (.ok entries : Except String (List (String × Value))) ∧
      List.Forall₂ (fun a entry => entry.1 = key a ∧ describes entry.2 a) listed entries := by
    clear hperm
    induction hlisted with
    | nil => exact ⟨[], rfl, .nil⟩
    | @cons item a _ _ hhead _ ih =>
        obtain ⟨entries, hentries, hsame⟩ := ih
        refine ⟨(key a, item) :: entries, ?_, .cons ⟨rfl, hhead⟩ hsame⟩
        rw [List.mapM_cons]
        refine bind_eq_ok.mpr ⟨(key a, item), ?_, bind_eq_ok.mpr ⟨entries, hentries, rfl⟩⟩
        rw [text_eq (hid _ _ hhead)]
        rfl
  have hkeys : entries.map Prod.fst = listed.map key := by
    clear hperm hlisted hentries
    induction hsame with
    | nil => rfl
    | cons hhead _ ih => rw [List.map_cons, List.map_cons, ih, hhead.1]
  have hdistinct : (entries.map Prod.fst).Nodup :=
    hkeys ▸ ((hperm.map key).nodup_iff.mpr hnodup)
  refine ⟨ExtTreeMap.ofList entries, ?_, ?_, ?_⟩
  · rw [Resolve.index, hentries]
    rfl
  · intro a ha
    obtain ⟨entry, hentry, hkey, hdescribes⟩ :=
      exists_of_forall₂ hsame (hperm.mem_iff.mpr ha)
    refine ⟨entry.2, ?_, hdescribes⟩
    refine ExtTreeMap.getElem?_ofList_of_mem (by rw [← hkey]; exact compare_self) ?_ hentry
    exact (List.pairwise_map.mp hdistinct).imp fun hne heq => hne (LawfulEqOrd.eq_of_compare heq)
  · intro id
    rw [ExtTreeMap.mem_ofList, hkeys, List.contains_iff_mem, (hperm.map key).mem_iff]

/-- What a resolve holds of a graph. -/
structure Holds (resolve : Resolve) (graph : Graph) : Prop where
  package : ∀ package ∈ graph.packages, ∃ item, resolve.packages[package.id]? = some item ∧
    DescribesPackage item package
  packages : ∀ id, id ∈ resolve.packages ↔ id ∈ graph.packages.map Package.id
  node : ∀ node ∈ graph.nodes, ∃ item, resolve.nodes[node.id]? = some item ∧
    DescribesNode item node
  nodes : ∀ id, id ∈ resolve.nodes ↔ id ∈ graph.nodes.map Node.id
  members : ∀ id, id ∈ resolve.members ↔ id ∈ graph.members

/-- Metadata that describes a graph resolves to nodes and packages that hold it. -/
theorem Describes.holds {metadata : Value} {graph : Graph} (hmetadata : Describes metadata graph)
    (path : String) : ∃ resolve, Resolve.of metadata path = .ok resolve ∧ Holds resolve graph := by
  obtain ⟨packageItems, hpackageItems, hpackages⟩ := hmetadata.packages
  obtain ⟨resolveItem, nodeItems, hresolve, hnodeItems, hnodes⟩ := hmetadata.nodes
  obtain ⟨memberItems, hmemberItems, listed, hperm, hlisted⟩ := hmetadata.members
  obtain ⟨packages, hindex, hpackage, hpackageKeys⟩ :=
    index_describing (fun _ _ hitem => hitem.id) hpackages graph.packages_distinct
  obtain ⟨nodes, hnodeIndex, hnode, hnodeKeys⟩ :=
    index_describing (fun _ _ hitem => hitem.id) hnodes graph.nodes_distinct
  refine ⟨⟨packages, nodes, ExtTreeSet.ofList listed⟩, ?_,
    ⟨hpackage, hpackageKeys, hnode, hnodeKeys, fun id => ?_⟩⟩
  · rw [Resolve.of, mapError_eq_ok, Resolve.read, list_eq hpackageItems]
    refine bind_eq_ok.mpr ⟨_, rfl, bind_eq_ok.mpr ⟨_, hindex, ?_⟩⟩
    rw [get_eq hresolve]
    refine bind_eq_ok.mpr ⟨_, rfl, ?_⟩
    rw [list_eq hnodeItems]
    refine bind_eq_ok.mpr ⟨_, rfl, bind_eq_ok.mpr ⟨_, hnodeIndex, ?_⟩⟩
    rw [list_eq hmemberItems]
    refine bind_eq_ok.mpr ⟨_, rfl, bind_eq_ok.mpr ⟨listed, ?_, rfl⟩⟩
    refine mapM_eq_ok.mpr (hlisted.imp fun item id hitem => ?_)
    rw [hitem]
  · rw [ExtTreeSet.mem_ofList, List.contains_iff_mem, hperm.mem_iff]

/-! ## Edges -/

/-- The kinds the code follows are all but the dev dependencies. -/
theorem DescribesKind.follows {value : Value} {kind : DepKind} (hkind : DescribesKind value kind) :
    (!truthy value || isText value "normal" || isText value "build") = decide (kind ≠ .dev) := by
  cases hkind <;> decide

theorem DescribesEdge.follows {dep : Value} {edge : Edge} (hedge : DescribesEdge dep edge) :
    follows dep = .ok edge.follows := by
  obtain ⟨items, hitems, hkinds⟩ := hedge.kinds
  obtain ⟨values, hvalues, hsame⟩ : ∃ values : List Value,
      items.mapM (fun kind => get kind "kind") = (.ok values : Except String (List Value)) ∧
        List.Forall₂ DescribesKind values edge.kinds := by
    clear hitems
    generalize edge.kinds = kinds at hkinds
    induction hkinds with
    | nil => exact ⟨[], rfl, .nil⟩
    | cons hhead _ ih =>
        obtain ⟨value, hvalue, hkind⟩ := hhead
        obtain ⟨values, hvalues, hsame⟩ := ih
        refine ⟨value :: values, ?_, .cons hkind hsame⟩
        rw [List.mapM_cons]
        exact bind_eq_ok.mpr ⟨_, get_eq hvalue, bind_eq_ok.mpr ⟨_, hvalues, rfl⟩⟩
  rw [RecordFacts.follows, list_eq hitems]
  refine bind_eq_ok.mpr ⟨_, rfl, bind_eq_ok.mpr ⟨_, hvalues, congrArg Except.ok ?_⟩⟩
  rw [Edge.follows]
  clear hvalues
  generalize edge.kinds = kinds at hsame
  induction hsame with
  | nil => rfl
  | cons hhead _ ih => rw [List.any_cons, List.any_cons, ih, hhead.follows]

/-- The followed dependencies of a node are the targets of its followed edges. -/
theorem followed_of_edges {deps : List Value} {edges : List Edge}
    (hdeps : List.Forall₂ DescribesEdge deps edges) :
    followed deps = .ok ((edges.filter Edge.follows).map Edge.target) := by
  induction hdeps with
  | nil => rfl
  | @cons dep edge _ _ hhead _ ih =>
      rw [followed]
      refine bind_eq_ok.mpr ⟨_, hhead.follows, ?_⟩
      cases hfollows : edge.follows with
      | true =>
          rw [List.filter_cons_of_pos hfollows, List.map_cons, if_pos rfl]
          exact bind_eq_ok.mpr ⟨_, text_eq hhead.target, bind_eq_ok.mpr ⟨_, ih, rfl⟩⟩
      | false =>
          rw [List.filter_cons_of_neg (by simp [hfollows]), if_neg (by simp)]
          exact ih

theorem targets_of_edges {deps : List Value} {edges : List Edge}
    (hdeps : List.Forall₂ DescribesEdge deps edges) :
    deps.mapM (fun dep => text dep "pkg") = .ok (edges.map Edge.target) := by
  refine mapM_eq_ok.mpr (List.forall₂_map_right_iff.mpr ?_)
  exact hdeps.imp fun dep edge hedge => text_eq hedge.target

/-! ## The worklists end -/

def pkgOf (dep : Value) : Option String :=
  match member dep "pkg" with
  | some (.string pkg) => some pkg
  | _ => none

theorem pkgOf_eq {dep : Value} {pkg : String} (hpkg : text dep "pkg" = .ok pkg) :
    pkgOf dep = some pkg := by
  obtain ⟨found, hfound, hvalue⟩ := bind_eq_ok.mp hpkg
  rw [pkgOf]
  rw [get] at hfound
  split at hfound
  next value hmember =>
    cases hfound
    rw [hmember]
    cases found <;> cases hvalue
    rfl
  next => cases hfound

theorem depsOf_eq {item : Value} {deps : List Value} (hdeps : list item "deps" = .ok deps) :
    depsOf item = deps := by
  obtain ⟨found, hfound, hvalue⟩ := bind_eq_ok.mp hdeps
  rw [depsOf]
  rw [get] at hfound
  split at hfound
  next value hmember =>
    cases hfound
    rw [hmember]
    cases found <;> cases hvalue
    rfl
  next => cases hfound

/-- Everything an edge of the nodes leads to. -/
def mentioned (nodes : OrderedMap String Value) : Finset String :=
  (nodes.toList.flatMap fun entry => (depsOf entry.2).filterMap pkgOf).toFinset

/-- No more packages are mentioned than there are edges. -/
theorem card_mentioned (nodes : OrderedMap String Value) :
    (mentioned nodes).card ≤ edges nodes := by
  refine (List.toFinset_card_le _).trans ?_
  rw [List.length_flatMap, edges]
  exact List.sum_le_sum fun entry _ => List.length_filterMap_le ..

theorem mem_mentioned {nodes : OrderedMap String Value} {here pkg : String} {item dep : Value}
    (hitem : nodes[here]? = some item) (hdep : dep ∈ depsOf item) (hpkg : pkgOf dep = some pkg) :
    pkg ∈ mentioned nodes := by
  rw [mentioned, List.mem_toFinset, List.mem_flatMap]
  exact ⟨(here, item), ExtTreeMap.mem_toList_iff_getElem?_eq_some.mpr hitem,
    List.mem_filterMap.mpr ⟨dep, hdep, hpkg⟩⟩

theorem node_eq_ok {nodes : OrderedMap String Value} {here : String} {item : Value} :
    node nodes here = .ok item ↔ nodes[here]? = some item := by
  rw [node]
  cases nodes[here]? <;> simp

theorem followed_pkg {deps : List Value} {pkgs : List String} (hpkgs : followed deps = .ok pkgs) :
    ∀ pkg ∈ pkgs, ∃ dep ∈ deps, pkgOf dep = some pkg := by
  induction deps generalizing pkgs with
  | nil =>
      cases hpkgs
      exact nofun
  | cons dep rest ih =>
      rw [followed] at hpkgs
      obtain ⟨goes, -, hpkgs⟩ := bind_eq_ok.mp hpkgs
      cases goes with
      | false =>
          intro pkg hpkg
          obtain ⟨other, hother, hname⟩ := ih hpkgs pkg hpkg
          exact ⟨other, List.mem_cons_of_mem _ hother, hname⟩
      | true =>
          obtain ⟨first, hfirst, hpkgs⟩ := bind_eq_ok.mp hpkgs
          obtain ⟨others, hothers, heq⟩ := bind_eq_ok.mp hpkgs
          cases heq
          rw [List.forall_mem_cons]
          refine ⟨⟨dep, List.mem_cons_self, pkgOf_eq hfirst⟩, fun pkg hpkg => ?_⟩
          obtain ⟨other, hother, hname⟩ := ih hothers pkg hpkg
          exact ⟨other, List.mem_cons_of_mem _ hother, hname⟩

theorem targets_pkg {deps : List Value} {pkgs : List String}
    (hpkgs : deps.mapM (fun dep => text dep "pkg") = .ok pkgs) :
    ∀ pkg ∈ pkgs, ∃ dep ∈ deps, pkgOf dep = some pkg := by
  induction deps generalizing pkgs with
  | nil =>
      cases hpkgs
      exact nofun
  | cons dep rest ih =>
      rw [List.mapM_cons] at hpkgs
      obtain ⟨first, hfirst, hpkgs⟩ := bind_eq_ok.mp hpkgs
      obtain ⟨others, hothers, heq⟩ := bind_eq_ok.mp hpkgs
      cases heq
      rw [List.forall_mem_cons]
      refine ⟨⟨dep, List.mem_cons_self, pkgOf_eq hfirst⟩, fun pkg hpkg => ?_⟩
      obtain ⟨other, hother, hname⟩ := ih hothers pkg hpkg
      exact ⟨other, List.mem_cons_of_mem _ hother, hname⟩

/-- The packages a node's normal and build edges lead to. -/
def readFollowed (nodes : OrderedMap String Value) (here : String) : Except String (List String) :=
  do followed (← list (← node nodes here) "deps")

/-- The packages a node's edges lead to, but not the root from a member. -/
def readKept (resolve : Resolve) (root here : String) : Except String (List String) := do
  let deps ← list (← node resolve.nodes here) "deps"
  let targets ← deps.mapM fun dep => text dep "pkg"
  return targets.filter fun pkg => !(resolve.members.contains here && pkg = root)

/-- What a search follows is mentioned somewhere, so the search ends. -/
theorem readFollowed_mentioned {nodes : OrderedMap String Value} {here : String}
    {pkgs : List String} (hpkgs : readFollowed nodes here = .ok pkgs) :
    ∀ pkg ∈ pkgs, pkg ∈ mentioned nodes := by
  intro pkg hpkg
  obtain ⟨item, hitem, hrest⟩ := bind_eq_ok.mp hpkgs
  obtain ⟨deps, hdeps, hfollowed⟩ := bind_eq_ok.mp hrest
  obtain ⟨dep, hdep, hname⟩ := followed_pkg hfollowed pkg hpkg
  exact mem_mentioned (node_eq_ok.mp hitem) (depsOf_eq hdeps ▸ hdep) hname

theorem readKept_mentioned {resolve : Resolve} {root here : String} {pkgs : List String}
    (hpkgs : readKept resolve root here = .ok pkgs) :
    ∀ pkg ∈ pkgs, pkg ∈ mentioned resolve.nodes := by
  intro pkg hpkg
  obtain ⟨item, hitem, hrest⟩ := bind_eq_ok.mp hpkgs
  obtain ⟨deps, hdeps, hrest⟩ := bind_eq_ok.mp hrest
  obtain ⟨targets, htargets, heq⟩ := bind_eq_ok.mp hrest
  cases heq
  obtain ⟨dep, hdep, hname⟩ := targets_pkg htargets pkg (List.mem_filter.mp hpkg).1
  exact mem_mentioned (node_eq_ok.mp hitem) (depsOf_eq hdeps ▸ hdep) hname

/-- The fuel of the first search is enough on any nodes. -/
theorem closure_ends (nodes : OrderedMap String Value) (root : String) :
    closure nodes root ≠ .ok none := by
  intro hnone
  obtain ⟨seen, hseen, heq⟩ := bind_eq_ok.mp hnone
  have hends :
      Worklist.drainReading (readFollowed nodes) (edges nodes + 1) ∅ [root] ≠ .ok none := by
    refine Worklist.drainReading_ends (fun here pkgs hpkgs => readFollowed_mentioned hpkgs) _ ?_
    have hcard := Finset.card_le_card (Finset.filter_subset (· ∉ (∅ : OrderedSet String))
      (mentioned nodes))
    have hedges := card_mentioned nodes
    rw [List.length_singleton, untaken]
    omega
  cases seen with
  | none => exact hends hseen
  | some seen => cases heq

/-- The fuel of the second search is enough on any nodes. -/
theorem keptWithout_ends (meeting : Meeting) (resolve : Resolve) (root : String) :
    keptWithout meeting resolve root ≠ .ok none := by
  refine Worklist.drainReading_ends (fun here pkgs hpkgs => readKept_mentioned hpkgs) _ ?_
  have hcard := Finset.card_le_card (Finset.filter_subset (· ∉ resolve.members)
    (mentioned resolve.nodes))
  have hedges := card_mentioned resolve.nodes
  rw [(meeting.perm _).length_eq, ExtTreeSet.length_toList, untaken]
  omega

/-! ## What the worklists find -/

section Searches

variable {resolve : Resolve} {graph : Graph}

theorem Graph.node_unique {first second : Node} (hfirst : first ∈ graph.nodes)
    (hsecond : second ∈ graph.nodes) (hid : first.id = second.id) : first = second :=
  List.inj_on_of_nodup_map graph.nodes_distinct hfirst hsecond hid

/-- The code reads exactly the edges that bring a package along. -/
theorem Holds.readFollowed (hholds : Holds resolve graph) {here : String}
    (hhere : here ∈ graph.nodes.map Node.id) :
    ∃ pkgs, readFollowed resolve.nodes here = .ok pkgs ∧ ∀ pkg, pkg ∈ pkgs ↔
    graph.Brings here pkg := by
  obtain ⟨node, hnode, rfl⟩ := List.mem_map.mp hhere
  obtain ⟨item, hitem, hdescribes⟩ := hholds.node node hnode
  obtain ⟨deps, hdeps, listed, hperm, hlisted⟩ := hdescribes.edges
  refine ⟨_, bind_eq_ok.mpr ⟨item, node_eq_ok.mpr hitem, bind_eq_ok.mpr ⟨deps, list_eq hdeps,
    followed_of_edges hlisted⟩⟩, fun pkg => ?_⟩
  rw [List.mem_map]
  constructor
  · rintro ⟨edge, hedge, rfl⟩
    obtain ⟨hedge, hfollows⟩ := List.mem_filter.mp hedge
    exact ⟨node, hnode, rfl, edge, hperm.mem_iff.mp hedge, rfl, hfollows⟩
  · rintro ⟨other, hother, hid, edge, hedge, rfl, hfollows⟩
    rw [graph.node_unique hother hnode hid] at hedge
    exact ⟨edge, List.mem_filter.mpr ⟨hperm.mem_iff.mpr hedge, hfollows⟩, rfl⟩

/-- The code reads exactly the edges that keep a package when the root is left out. -/
theorem Holds.readKept (hholds : Holds resolve graph) (root : String) {here : String}
    (hhere : here ∈ graph.nodes.map Node.id) :
    ∃ pkgs, readKept resolve root here = .ok pkgs ∧
      ∀ pkg, pkg ∈ pkgs ↔ graph.Keeps root here pkg := by
  obtain ⟨node, hnode, rfl⟩ := List.mem_map.mp hhere
  obtain ⟨item, hitem, hdescribes⟩ := hholds.node node hnode
  obtain ⟨deps, hdeps, listed, hperm, hlisted⟩ := hdescribes.edges
  refine ⟨_, bind_eq_ok.mpr ⟨item, node_eq_ok.mpr hitem, bind_eq_ok.mpr ⟨deps, list_eq hdeps,
    bind_eq_ok.mpr ⟨_, targets_of_edges hlisted, rfl⟩⟩⟩, fun pkg => ?_⟩
  have hdropped : (!(resolve.members.contains node.id && decide (pkg = root))) = true ↔
      ¬(node.id ∈ graph.members ∧ pkg = root) := by
    rw [Bool.not_eq_true', Bool.eq_false_iff, Ne, Bool.and_eq_true, decide_eq_true_eq,
      ← ExtTreeSet.mem_iff_contains, hholds.members]
  rw [List.mem_filter, List.mem_map, hdropped]
  constructor
  · rintro ⟨⟨edge, hedge, rfl⟩, hkept⟩
    exact ⟨node, hnode, rfl, edge, hperm.mem_iff.mp hedge, rfl, hkept⟩
  · rintro ⟨other, hother, hid, edge, hedge, rfl, hkept⟩
    rw [graph.node_unique hother hnode hid] at hedge
    exact ⟨⟨edge, hperm.mem_iff.mpr hedge, rfl⟩, hkept⟩

theorem Graph.brings_known {first second : String} (hbrings : graph.Brings first second) :
    second ∈ graph.nodes.map Node.id := by
  obtain ⟨node, hnode, -, edge, hedge, rfl, -⟩ := hbrings
  exact graph.edges_known node hnode edge hedge

theorem Graph.keeps_known {root first second : String} (hkeeps : graph.Keeps root first second) :
    second ∈ graph.nodes.map Node.id := by
  obtain ⟨node, hnode, -, edge, hedge, rfl, -⟩ := hkeeps
  exact graph.edges_known node hnode edge hedge

/-- The search from a root takes what the root reaches. -/
theorem Holds.closure (hholds : Holds resolve graph) {root : String}
    (hroot : root ∈ graph.nodes.map Node.id) :
    ∃ seen, closure resolve.nodes root = .ok (some seen) ∧
      ∀ id, id ∈ seen ↔ graph.Reached root id := by
  obtain ⟨pkgs, hpkgs, hmem⟩ := hholds.readFollowed hroot
  -- The root is popped first, and is not taken until an edge leads back to it.
  have hfirst := Worklist.mem_visitAll pkgs (∅ : OrderedSet String) []
  have hstacked := Worklist.mem_visitAll_stack pkgs (∅ : OrderedSet String) []
  have hcost := Worklist.visitAll_cost pkgs (readFollowed_mentioned hpkgs)
    (∅ : OrderedSet String) []
  obtain ⟨result, hresult, hreaches⟩ := Worklist.drainReading_reaches
    (fun here hhere => hholds.readFollowed hhere)
    (fun here _ pkg hpkg => graph.brings_known hpkg)
    (fun here found hfound => readFollowed_mentioned hfound) (edges resolve.nodes)
    (fun id => by rw [hfirst, hstacked]; simp)
    (fun id hid => by
      have hpkg := ((hstacked id).mp hid).resolve_left List.not_mem_nil
      exact graph.brings_known ((hmem id).mp hpkg.2))
    (hcost.trans (by
      have hcard := Finset.card_le_card (Finset.filter_subset (· ∉ (∅ : OrderedSet String))
        (mentioned resolve.nodes))
      have hedges := card_mentioned resolve.nodes
      rw [List.length_nil, untaken]
      omega))
  refine ⟨result.erase root, ?_, fun id => ?_⟩
  · refine bind_eq_ok.mpr ⟨some result, ?_, rfl⟩
    change Worklist.drainReading (RecordFacts.readFollowed resolve.nodes) _ _ _ = _
    rw [Worklist.drainReading, hpkgs]
    exact hresult
  · have hpath : id ∈ result ↔ Relation.TransGen graph.Brings root id := by
      rw [hreaches, Relation.TransGen.head'_iff]
      refine exists_congr fun start => and_congr_left fun _ => ?_
      rw [hstacked, hmem]
      simp
    rw [ExtTreeSet.mem_erase, hpath, Graph.Reached, Ne, LawfulEqCmp.compare_eq_iff_eq, eq_comm]

/-- The search from the members takes what they reach without their own edges to the root. -/
theorem Holds.keptWithout (hholds : Holds resolve graph) (meeting : Meeting) (root : String) :
    ∃ seen, keptWithout meeting resolve root = .ok (some seen) ∧
      ∀ id, id ∈ seen ↔ graph.Kept root id := by
  have hmet : ∀ id, id ∈ resolve.members ↔ id ∈ meeting.order resolve.members.toList := by
    intro id
    rw [(meeting.perm _).mem_iff, ExtTreeSet.mem_toList]
  obtain ⟨result, hresult, hreaches⟩ := Worklist.drainReading_reaches
    (fun here hhere => hholds.readKept root hhere)
    (fun here _ pkg hpkg => graph.keeps_known hpkg)
    (fun here found hfound => readKept_mentioned hfound)
    (edges resolve.nodes + resolve.members.size) hmet
    (fun id hid => graph.members_known id ((hholds.members id).mp ((hmet id).mpr hid)))
    (by
      have hcard := Finset.card_le_card (Finset.filter_subset (· ∉ resolve.members)
        (mentioned resolve.nodes))
      have hedges := card_mentioned resolve.nodes
      rw [(meeting.perm _).length_eq, ExtTreeSet.length_toList, untaken]
      omega)
  refine ⟨result, hresult, fun id => ?_⟩
  rw [hreaches, Graph.Kept]
  refine exists_congr fun start => and_congr_left fun _ => ?_
  rw [← hmet, hholds.members]

/-! ## Packages -/

/-- Sorting forgets the order the texts were found in. -/
theorem sorted_of_perm {first second : List String} (hperm : first.Perm second) :
    sorted first = sorted second := by
  have hsorted : (sorted first).Perm (sorted second) :=
    (sortByKey_perm first).trans (hperm.trans (sortByKey_perm second).symm)
  refine hsorted.eq_of_pairwise ?_ (sortByKey_pairwise first) (sortByKey_pairwise second)
  intro a b _ _ hab hba
  exact LawfulEqOrd.eq_of_compare (OrientedCmp.isLE_antisymm hab hba)

/-- The packages with a property are those of the graph that have it. -/
theorem Graph.mem_those {holds : Package → Prop} {package : Package} :
    package ∈ graph.those holds ↔ package ∈ graph.packages ∧ holds package := by
  simp [Graph.those]

theorem Graph.those_sublist (holds : Package → Prop) : (graph.those holds).Sublist graph.packages :=
  List.filter_sublist

theorem Graph.those_distinct (holds : Package → Prop) :
    ((graph.those holds).map Package.id).Nodup :=
  (((graph.those_sublist holds).map Package.id)).nodup graph.packages_distinct

/-- Ids that are those of the packages of which something holds, in any order. -/
theorem Graph.ids_perm {holds : Package → Prop} {ids : List String} (hnodup : ids.Nodup)
    (hids : ∀ id, id ∈ ids ↔ ∃ package ∈ graph.packages, package.id = id ∧ holds package) :
    ids.Perm ((graph.those holds).map Package.id) := by
  refine (List.perm_ext_iff_of_nodup hnodup (graph.those_distinct holds)).mpr fun id => ?_
  rw [hids, List.mem_map]
  constructor
  · rintro ⟨package, hpackage, rfl, hholds⟩
    exact ⟨package, graph.mem_those.mpr ⟨hpackage, hholds⟩, rfl⟩
  · rintro ⟨package, hpackage, rfl⟩
    obtain ⟨hpackage, hholds⟩ := graph.mem_those.mp hpackage
    exact ⟨package, hpackage, rfl, hholds⟩

theorem Holds.package_eq (hholds : Holds resolve graph) {package : Package}
    (hpackage : package ∈ graph.packages) :
    ∃ item, resolve.package package.id = .ok item ∧ DescribesPackage item package := by
  obtain ⟨item, hitem, hdescribes⟩ := hholds.package package hpackage
  refine ⟨item, ?_, hdescribes⟩
  rw [Resolve.package, hitem]

theorem Holds.label (hholds : Holds resolve graph) {package : Package}
    (hpackage : package ∈ graph.packages) : resolve.label package.id = .ok package.label := by
  obtain ⟨item, hitem, hdescribes⟩ := hholds.package_eq hpackage
  obtain ⟨version, hversion, hrange⟩ := hdescribes.version
  exact bind_eq_ok.mpr ⟨item, hitem, bind_eq_ok.mpr ⟨_, text_eq hdescribes.name,
    bind_eq_ok.mpr ⟨version, text_eq hversion, bind_eq_ok.mpr ⟨_, hrange, rfl⟩⟩⟩⟩

/-- A step on the ids of some packages, where it has a value for each. -/
theorem mapM_ids {α : Type} {packages : List Package} {ids : List String}
    {read : String → Except String α} {value : Package → α}
    (hperm : ids.Perm (packages.map Package.id))
    (hread : ∀ package ∈ packages, read package.id = .ok (value package)) :
    ∃ values, ids.mapM read = .ok values ∧ values.Perm (packages.map value) := by
  obtain ⟨listed, rfl, hlisted⟩ :=
    (congrFun (congrFun (List.eq_map_comp_perm Package.id) ids) packages).mpr hperm
  refine ⟨listed.map value, ?_, hlisted.map value⟩
  rw [List.mapM_map]
  exact mapM_eq_map fun package hpackage => hread package (hlisted.mem_iff.mp hpackage)

/-! ## Finding the root -/

theorem Holds.keys_perm (hholds : Holds resolve graph) (meeting : Meeting) :
    (meeting.order resolve.packages.keys).Perm (graph.packages.map Package.id) := by
  refine (meeting.perm _).trans ((List.perm_ext_iff_of_nodup ExtTreeMap.nodup_keys
    graph.packages_distinct).mpr fun id => ?_)
  rw [ExtTreeMap.mem_keys, hholds.packages]

open Classical in
theorem selects_eq {item : Value} {package : Package} (hitem : DescribesPackage item package)
    (name : String) (wanted : Option String) :
    Resolve.selects name wanted item = .ok (decide (package.Selected name wanted)) := by
  obtain ⟨source, hsource, hthird⟩ := hitem.source
  refine bind_eq_ok.mpr ⟨source, get_eq hsource, ?_⟩
  rw [hthird]
  cases hparty : package.thirdParty with
  | false =>
      refine congrArg Except.ok (decide_eq_false ?_).symm
      exact fun hselected => by cases hparty.symm.trans hselected.1
  | true =>
      rw [if_pos rfl]
      refine bind_eq_ok.mpr ⟨_, get_eq hitem.name, ?_⟩
      rw [isText]
      by_cases hname : package.name = name
      · rw [decide_eq_true hname, if_pos rfl]
        cases wanted with
        | none => exact congrArg Except.ok (decide_eq_true ⟨hparty, hname, nofun⟩).symm
        | some wanted =>
            obtain ⟨version, hversion, hrange⟩ := hitem.version
            refine bind_eq_ok.mpr ⟨version, text_eq hversion, bind_eq_ok.mpr ⟨_, hrange, ?_⟩⟩
            refine congrArg Except.ok (decide_eq_decide.mpr ?_)
            constructor
            · rintro rfl
              exact ⟨hparty, hname, fun range hrange => Option.some.inj hrange⟩
            · exact fun hselected => hselected.2.2 wanted rfl
      · rw [decide_eq_false hname, if_neg (by simp)]
        exact congrArg Except.ok (decide_eq_false fun hselected => hname hselected.2.1).symm

open Classical in
/-- The packages the code selects are those of the name and the range. -/
theorem Holds.found (hholds : Holds resolve graph) (name : String) (wanted : Option String)
    {listed : List Package} (hlisted : ∀ package ∈ listed, package ∈ graph.packages) :
    resolve.found name wanted (listed.map Package.id) =
      .ok ((listed.filter fun package =>
        decide (package.Selected name wanted)).map Package.id) := by
  induction listed with
  | nil => rfl
  | cons package rest ih =>
      obtain ⟨hpackage, hrest⟩ := List.forall_mem_cons.mp hlisted
      obtain ⟨item, hitem, hdescribes⟩ := hholds.package_eq hpackage
      rw [List.map_cons, Resolve.found]
      refine bind_eq_ok.mpr ⟨item, hitem, bind_eq_ok.mpr ⟨_, selects_eq hdescribes name wanted,
        bind_eq_ok.mpr ⟨_, ih hrest, congrArg Except.ok ?_⟩⟩⟩
      by_cases hselected : package.Selected name wanted
      · simp [hselected]
      · simp [hselected]

/-- The root is the one package that is selected. -/
theorem Holds.find (hholds : Holds resolve graph) (meeting : Meeting) (name : String)
    (wanted : Option String) :
    resolve.find meeting name wanted = match graph.those (Package.Selected name wanted) with
      | [root] => .ok root.id
      | found => .error (.matches found.length) := by
  classical
  obtain ⟨listed, hids, hlisted⟩ := (congrFun (congrFun (List.eq_map_comp_perm Package.id)
    (meeting.order resolve.packages.keys)) graph.packages).mpr (hholds.keys_perm meeting)
  have hfound := hholds.found name wanted (fun package hpackage => hlisted.mem_iff.mp hpackage)
  have hsame : (listed.filter fun package => decide (package.Selected name wanted)).Perm
      (graph.those (Package.Selected name wanted)) := by
    have hthose : graph.those (Package.Selected name wanted) =
        graph.packages.filter fun package => decide (package.Selected name wanted) := by
      rw [Graph.those]
    rw [hthose]
    exact hlisted.filter _
  rw [Resolve.find, hids, hfound]
  generalize graph.those (Package.Selected name wanted) = selected at hsame
  generalize listed.filter (fun package => decide (package.Selected name wanted)) = met at hsame
  match selected, met, hsame with
  | [], [], _ => rfl
  | [root], [package], hsame =>
      rw [List.singleton_perm_singleton.mp hsame]
      rfl
  | first :: second :: rest, first' :: second' :: rest', hsame =>
      have hlength := hsame.length_eq
      change Except.error (Refusal.matches _) = Except.error (Refusal.matches _)
      simp only [List.length_cons, List.length_map] at hlength ⊢
      rw [hlength]
  | [], _ :: _, hsame => cases hsame.length_eq
  | [_], [], hsame => cases hsame.length_eq
  | [_], _ :: _ :: _, hsame => cases hsame.length_eq
  | _ :: _ :: _, [], hsame => cases hsame.length_eq
  | _ :: _ :: _, [_], hsame => cases hsame.length_eq

/-! ## Code that runs on a host -/

theorem isText_iff {value : Value} {text : String} :
    isText value text = true ↔ value = .string text := by
  cases value <;> simp [isText]

/-- The kinds the code finds among the targets are those of the package. -/
theorem DescribesPackage.kinds {item : Value} {package : Package}
    (hitem : DescribesPackage item package) : ∃ targets kinds,
      list item "targets" = .ok targets ∧
        targets.mapM (fun target => list target "kind") = .ok kinds ∧
        ∀ kind, (kinds.flatten.any fun found => isText found kind) = decide
        (kind ∈ package.kinds) := by
  obtain ⟨targets, htargets, kinds, hlisted, hkinds⟩ := hitem.targets
  refine ⟨targets, kinds, list_eq htargets,
    mapM_eq_ok.mpr (hlisted.imp fun _ _ hkind => list_eq hkind), fun kind => ?_⟩
  rw [Bool.eq_iff_iff, List.any_eq_true, decide_eq_true_eq, hkinds]
  constructor
  · rintro ⟨found, hfound, htext⟩
    exact isText_iff.mp htext ▸ hfound
  · exact fun hkind => ⟨_, hkind, isText_iff.mpr rfl⟩

/-- The build dependencies the code finds are those of the package. -/
theorem DescribesPackage.built {item : Value} {package : Package}
    (hitem : DescribesPackage item package) : ∃ dependencies names,
      list item "dependencies" = .ok dependencies ∧
        dependencies.mapM builder = .ok names ∧ sorted names.flatten = sorted package.builders := by
  obtain ⟨dependencies, names, hdependencies, hlisted, hperm⟩ := hitem.builders
  refine ⟨dependencies, names, list_eq hdependencies, mapM_eq_ok.mpr (hlisted.imp ?_),
    sorted_of_perm hperm⟩
  intro dependency found hfound
  cases hfound with
  | @build name hkind hname =>
      refine bind_eq_ok.mpr ⟨_, get_eq hkind, ?_⟩
      rw [if_pos (isText_iff.mpr rfl)]
      exact bind_eq_ok.mpr ⟨name, text_eq hname, rfl⟩
  | @other kind hkind hother =>
      refine bind_eq_ok.mpr ⟨_, get_eq hkind, ?_⟩
      rw [if_neg fun htext => hother (isText_iff.mp htext)]
      rfl

/-- The code's table of kinds gives the same code. -/
theorem Package.code_eq (package : Package) :
    package.code = codeKinds.filterMap fun (kind, what) =>
      if kind ∈ package.kinds then some (package.label ++ " " ++ what) else none := by
  have hscript : package.label ++ " " ++ "build script" = package.label ++ " build script" := by
    rw [String.append_assoc]
    rfl
  have hmacro : package.label ++ " " ++ "proc macro" = package.label ++ " proc macro" := by
    rw [String.append_assoc]
    rfl
  simp only [Package.code, codeKinds, List.filterMap_cons, List.filterMap_nil, hscript, hmacro]
  split <;> split <;> rfl

/-- The row of a package on the hosts has its code and its hints. -/
theorem Holds.hostRow (hholds : Holds resolve graph) (linked : Linked) {package : Package}
    (hpackage : package ∈ graph.packages) :
    hostRow linked resolve package.label package.id =
      (linked package.manifest).map fun libraries => (package.code, package.hints libraries) := by
  obtain ⟨item, hitem, hdescribes⟩ := hholds.package_eq hpackage
  obtain ⟨targets, kinds, htargets, hkinds, hcode⟩ := hdescribes.kinds
  obtain ⟨dependencies, names, hdependencies, hnames, hbuilders⟩ := hdescribes.built
  have hlinks := hdescribes.links
  simp only [RecordFacts.hostRow, hitem, htargets, hkinds, hcode, hlinks, hdependencies, hnames,
    hbuilders, text_eq hdescribes.manifest, bind, Except.bind, pure, Except.pure]
  cases hlinked : linked package.manifest with
  | error reason => cases package.links <;> rfl
  | ok libraries =>
      cases hheld : package.links <;>
        simp [Except.map, Package.code_eq, Package.hints, hheld]

/-- Reading each and joining is joining what was read. -/
theorem mapM_map_join {α β γ : Type} {read : α → Except String β} {join : α → β → γ}
    (list : List α) : list.mapM (fun a => (read a).map (join a)) =
      (list.mapM read).map (List.zipWith join list) := by
  induction list with
  | nil => rfl
  | cons head rest ih =>
      rw [List.mapM_cons, List.mapM_cons, ih]
      cases hhead : read head with
      | error fault => rfl
      | ok value => cases rest.mapM read <;> rfl

theorem mapM_congr {α β : Type} {first second : α → Except String β} {list : List α}
    (hsame : ∀ a ∈ list, first a = second a) : list.mapM first = list.mapM second := by
  induction list with
  | nil => rfl
  | cons head rest ih =>
      obtain ⟨hhead, hrest⟩ := List.forall_mem_cons.mp hsame
      rw [List.mapM_cons, List.mapM_cons, hhead, ih hrest]

theorem map_fst_rows {packages : List Package} {read : Package → Except String (List String)}
    {libraries : List (List String)} (hlibraries : packages.mapM read = .ok libraries) :
    (List.zipWith (fun package named => (package.code, package.hints named)) packages
      libraries).map Prod.fst = packages.map Package.code := by
  induction packages generalizing libraries with
  | nil => rfl
  | cons head rest ih =>
      rw [List.mapM_cons] at hlibraries
      obtain ⟨named, -, hrest⟩ := bind_eq_ok.mp hlibraries
      obtain ⟨others, hothers, heq⟩ := bind_eq_ok.mp hrest
      cases heq
      rw [List.zipWith_cons_cons, List.map_cons, List.map_cons, ih hothers]

theorem toList_nodup (set : OrderedSet String) : set.toList.Nodup :=
  ExtTreeSet.distinct_toList.imp fun {first second} hne heq => hne (by
    rw [heq]
    exact compare_self)

theorem Graph.built_perm (root : String) : (graph.built root).Perm
    (graph.those fun package => root ∈ graph.nodes.map Node.id ∧
      (package.id = root ∨ graph.Reached root package.id)) :=
  sortByKey_perm _

/-- Every node is a package. -/
theorem Graph.package_of_node {id : String} (hid : id ∈ graph.nodes.map Node.id) :
    ∃ package ∈ graph.packages, package.id = id := by
  obtain ⟨node, hnode, rfl⟩ := List.mem_map.mp hid
  obtain ⟨package, hpackage, heq⟩ := List.mem_map.mp (graph.nodes_packaged node hnode)
  exact ⟨package, hpackage, heq⟩

/-- What a root reaches is a node. -/
theorem Graph.reached_known {root id : String} (hreached : graph.Reached root id) :
    id ∈ graph.nodes.map Node.id := by
  obtain ⟨near, -, hedge⟩ := (Relation.TransGen.tail'_iff).mp hreached.2
  exact graph.brings_known hedge

/-- Packages are sorted by label, and by id among one label. -/
theorem sortLabelled_packages (packages : List Package) :
    sortLabelled (packages.map fun package => (package.label, package.id)) =
      (sortByKey (fun package => [package.label, package.id]) packages).map
        fun package => (package.label, package.id) := by
  rw [sortLabelled, sortByKey, sortByKey, List.map_mergeSort]
  exact fun _ _ _ _ => rfl

/-- The packages of a host graph that a root is built with, one by one. -/
theorem Holds.hostFacts (hholds : Holds resolve graph) (linked : Linked) (meeting : Meeting)
    (root : String) :
    hostFacts linked meeting resolve root =
      ((graph.built root).mapM fun package => linked package.manifest).map fun libraries =>
        some ((graph.built root).flatMap Package.code,
          (List.zipWith Package.hints (graph.built root) libraries).flatten) := by
  rw [RecordFacts.hostFacts]
  by_cases hroot : root ∈ graph.nodes.map Node.id
  · have hcontains : resolve.nodes.contains root = true :=
      ExtTreeMap.mem_iff_contains.mp ((hholds.nodes root).mpr hroot)
    obtain ⟨seen, hseen, hmem⟩ := hholds.closure hroot
    have hids : ∀ id, id ∈ (seen.insert root).toList ↔ ∃ package ∈ graph.packages,
        package.id = id ∧ (root ∈ graph.nodes.map Node.id ∧
          (package.id = root ∨ graph.Reached root package.id)) := by
      intro id
      rw [ExtTreeSet.mem_toList, mem_insert_iff, hmem]
      constructor
      · rintro (rfl | hreached)
        · obtain ⟨package, hpackage, rfl⟩ := graph.package_of_node hroot
          exact ⟨package, hpackage, rfl, hroot, .inl rfl⟩
        · obtain ⟨package, hpackage, rfl⟩ := graph.package_of_node (graph.reached_known hreached)
          exact ⟨package, hpackage, rfl, hroot, .inr hreached⟩
      · rintro ⟨package, -, rfl, -, rfl | hreached⟩
        · exact .inl rfl
        · exact .inr hreached
    have hperm := (meeting.perm (seen.insert root).toList).trans
      (graph.ids_perm (toList_nodup _) hids)
    obtain ⟨labelled, hlabelled, hsame⟩ := @mapM_ids (String × String) _ _
      (fun id => do return (← resolve.label id, id)) (fun package => (package.label, package.id))
      hperm fun package hpackage => by
        rw [hholds.label (graph.mem_those.mp hpackage).1]
        rfl
    have hsorted : sortLabelled labelled =
        (graph.built root).map fun package => (package.label, package.id) := by
      rw [Graph.built, ← sortLabelled_packages]
      refine sortByKey_eq_of_perm hsame ?_
      have hlast : ∀ packages : List Package,
          (((packages.map fun package => (package.label, package.id)).map fun entry =>
            [entry.1, entry.2]).map fun key => key.getLast?) = (packages.map Package.id).map some :=
        fun packages => by simp [Function.comp_def]
      refine (hsame.map _).nodup_iff.mpr (List.Nodup.of_map (fun key => key.getLast?) ?_)
      rw [hlast]
      exact (graph.those_distinct _).map (Option.some_injective _)
    rw [hcontains, hseen, if_neg (by simp)]
    change (Except.bind (List.mapM _ _) _) = _
    rw [hlabelled]
    change (Except.bind (List.mapM _ (sortLabelled labelled)) _) = _
    have hrows : ((graph.built root).map fun package => (package.label, package.id)).mapM
        (fun entry => RecordFacts.hostRow linked resolve entry.1 entry.2) =
        ((graph.built root).mapM fun package => linked package.manifest).map
          (List.zipWith (fun package named => (package.code, package.hints named))
            (graph.built root)) := by
      rw [List.mapM_map, ← mapM_map_join]
      refine mapM_congr fun package hpackage => hholds.hostRow linked ?_
      exact (graph.mem_those.mp ((graph.built_perm root).mem_iff.mp hpackage)).1
    rw [hsorted, hrows]
    cases hlibraries : (graph.built root).mapM fun package => linked package.manifest with
    | error reason => rfl
    | ok libraries =>
        refine congrArg (fun found => Except.ok (some found)) (Prod.ext ?_ ?_)
        · change (List.map Prod.fst (List.zipWith _ _ _)).flatten = _
          rw [map_fst_rows hlibraries, List.flatMap_def]
        · change (List.map Prod.snd (List.zipWith _ _ _)).flatten = (List.zipWith _ _ _).flatten
          rw [List.map_zipWith]
  · have hcontains : resolve.nodes.contains root = false := by
      rw [Bool.eq_false_iff, Ne, ← ExtTreeMap.mem_iff_contains, hholds.nodes]
      exact hroot
    have hnone : graph.built root = [] := by
      refine (List.Perm.eq_nil ((graph.built_perm root).trans ?_))
      rw [List.perm_nil, List.eq_nil_iff_forall_not_mem]
      exact fun package hpackage => hroot (graph.mem_those.mp hpackage).2.1
    rw [hcontains, hnone]
    rfl

/-! ## What leaves with the root -/

/-- The labels the code reports gone are those of third parties that are not kept. -/
theorem Holds.goneFrom (hholds : Holds resolve graph) (kept : OrderedSet String)
    {listed : List Package} (hlisted : ∀ package ∈ listed, package ∈ graph.packages) :
    goneFrom resolve kept (listed.map Package.id) = .ok ((listed.filter fun package =>
      package.thirdParty && !kept.contains package.id).map Package.label) := by
  induction listed with
  | nil => rfl
  | cons package rest ih =>
      obtain ⟨hpackage, hrest⟩ := List.forall_mem_cons.mp hlisted
      obtain ⟨item, hitem, hdescribes⟩ := hholds.package_eq hpackage
      obtain ⟨source, hsource, hthird⟩ := hdescribes.source
      rw [List.map_cons, RecordFacts.goneFrom]
      refine bind_eq_ok.mpr ⟨item, hitem, bind_eq_ok.mpr ⟨source, get_eq hsource, ?_⟩⟩
      rw [hthird, List.filter_cons]
      split
      next =>
        rw [List.map_cons]
        exact bind_eq_ok.mpr ⟨_, hholds.label hpackage, bind_eq_ok.mpr ⟨_, ih hrest, rfl⟩⟩
      next => exact ih hrest

/-- What would go with the root is what nothing else keeps. -/
theorem Holds.gone (hholds : Holds resolve graph) (meeting : Meeting) {root : String}
    {kept : OrderedSet String} (hkept : ∀ id, id ∈ kept ↔ graph.Kept root id) :
    ∃ gone, RecordFacts.goneFrom resolve kept (meeting.order resolve.packages.keys) = .ok gone ∧
      sorted gone = graph.gone root := by
  classical
  obtain ⟨listed, hids, hlisted⟩ := (congrFun (congrFun (List.eq_map_comp_perm Package.id)
    (meeting.order resolve.packages.keys)) graph.packages).mpr (hholds.keys_perm meeting)
  refine ⟨_, hids ▸ hholds.goneFrom kept fun package hpackage => hlisted.mem_iff.mp hpackage, ?_⟩
  refine sorted_of_perm (List.Perm.map _ ((hlisted.filter _).trans (.of_eq ?_)))
  rw [Graph.those]
  refine List.filter_congr fun package _ => ?_
  rw [Bool.eq_iff_iff, Bool.and_eq_true, Bool.not_eq_true', Bool.eq_false_iff, Ne,
    ← ExtTreeSet.mem_iff_contains, hkept]
  exact (@decide_eq_true_iff _ (_)).symm

/-- What a root brings along is what it reaches. -/
theorem Holds.brings (hholds : Holds resolve graph) (meeting : Meeting) {root : String}
    {seen : OrderedSet String} (hseen : ∀ id, id ∈ seen ↔ graph.Reached root id) :
    ∃ brings, (meeting.order seen.toList).mapM resolve.label = .ok brings ∧
      sorted brings = graph.brings root := by
  have hids : ∀ id, id ∈ seen.toList ↔ ∃ package ∈ graph.packages,
      package.id = id ∧ graph.Reached root package.id := by
    intro id
    rw [ExtTreeSet.mem_toList, hseen]
    constructor
    · intro hreached
      obtain ⟨package, hpackage, rfl⟩ := graph.package_of_node (graph.reached_known hreached)
      exact ⟨package, hpackage, rfl, hreached⟩
    · rintro ⟨package, -, rfl, hreached⟩
      exact hreached
  obtain ⟨brings, hbrings, hperm⟩ := mapM_ids
    ((meeting.perm seen.toList).trans (graph.ids_perm (toList_nodup seen) hids))
    fun package hpackage => hholds.label (graph.mem_those.mp hpackage).1
  exact ⟨brings, hbrings, sorted_of_perm hperm⟩

/-- A search from an unknown root names it. -/
theorem closure_unknown (hholds : Holds resolve graph) {root : String}
    (hroot : root ∉ graph.nodes.map Node.id) :
    closure resolve.nodes root = .error ("the resolve has no node " ++ root) := by
  have hnone : resolve.nodes[root]? = none :=
    ExtTreeMap.getElem?_eq_none fun hmem => hroot ((hholds.nodes root).mp hmem)
  have hread : RecordFacts.readFollowed resolve.nodes root =
      .error ("the resolve has no node " ++ root) := by
    rw [RecordFacts.readFollowed, node, hnone]
    rfl
  rw [RecordFacts.closure]
  change Except.bind (Worklist.drainReading (RecordFacts.readFollowed resolve.nodes) _ _ _) _ = _
  rw [Worklist.drainReading, hread]
  rfl

end Searches

variable {linked : Linked} {meet : Site → Meeting} {graph hosts : Graph}

/-- The facts of a root are read off the two graphs. -/
theorem factsOf_eq {all hostResolve : Resolve} (hall : Holds all graph)
    (hhosts : Holds hostResolve hosts) {root : Package} (hroot : root ∈ graph.packages)
    (name : String) :
    factsOf linked meet all hostResolve root.id name =
      if root.id ∈ graph.nodes.map Node.id then
        ((hosts.built root.id).mapM fun package => linked package.manifest).map fun libraries =>
          some (render name root.range (graph.brings root.id)
            ((hosts.built root.id).flatMap Package.code) (graph.gone root.id)
            (List.zipWith Package.hints (hosts.built root.id) libraries).flatten)
      else .error ("the resolve has no node " ++ root.id) := by
  obtain ⟨item, hitem, hdescribes⟩ := hall.package_eq hroot
  obtain ⟨version, hversion, hrange⟩ := hdescribes.version
  rw [factsOf, hitem]
  change Except.bind (text item "version") _ = _
  rw [text_eq hversion]
  change Except.bind (ranged version) _ = _
  rw [hrange]
  split
  next hnode =>
    obtain ⟨seen, hclosure, hseen⟩ := hall.closure hnode
    obtain ⟨kept, hkeptWithout, hkept⟩ := hall.keptWithout (meet .members) root.id
    obtain ⟨brings, hbrings, hsortedBrings⟩ := hall.brings (meet .brings) hseen
    obtain ⟨gone, hgone, hsortedGone⟩ := hall.gone (meet .packages) hkept
    change Except.bind (closure all.nodes root.id) _ = _
    rw [hclosure]
    change Except.bind (List.mapM all.label _) _ = _
    rw [hbrings]
    change Except.bind (hostFacts _ _ _ _) _ = _
    rw [hhosts.hostFacts linked]
    cases (hosts.built root.id).mapM fun package => linked package.manifest with
    | error reason => rfl
    | ok libraries =>
        change Except.bind (keptWithout (meet .members) all root.id) _ = _
        rw [hkeptWithout]
        change Except.bind (goneFrom all kept _) _ = _
        rw [hgone]
        change Except.ok (some (render _ _ (sorted brings) _ (sorted gone) _)) = _
        rw [hsortedBrings, hsortedGone]
        rfl
  next hnode =>
    change Except.bind (closure all.nodes root.id) _ = _
    rw [closure_unknown hall hnode]
    rfl

/-- The facts of a crate are the answer of the two graphs. -/
theorem facts_eq_answer {all hostValue : Value} (hall : Describes all graph)
    (hhosts : Describes hostValue hosts) (allPath hostsPath name : String)
    (wanted : Option String) :
    facts linked meet all hostValue allPath hostsPath name wanted =
      (answer linked graph hosts name wanted).map some := by
  obtain ⟨resolve, hresolve, hholds⟩ := hall.holds allPath
  obtain ⟨hostResolve, hhostResolve, hhostHolds⟩ := hhosts.holds hostsPath
  rw [facts, hresolve, hhostResolve]
  change Except.bind (resolve.find (meet .find) name wanted) _ = _
  rw [hholds.find, answer]
  cases hselected : graph.those (Package.Selected name wanted) with
  | nil => rfl
  | cons root rest =>
      cases rest with
      | cons _ _ => rfl
      | nil =>
          have hroot : root ∈ graph.packages :=
            (graph.mem_those.mp (hselected ▸ List.mem_cons_self)).1
          change (factsOf linked meet resolve hostResolve root.id name).mapError _ = _
          rw [factsOf_eq hholds hhostHolds hroot]
          simp only
          split
          next => cases (hosts.built root.id).mapM fun package => linked package.manifest <;> rfl
          next => rfl

/-- The search for the facts of the hosts ends. -/
theorem hostFacts_ends (linked : Linked) (meeting : Meeting) (resolve : Resolve) (root : String) :
    hostFacts linked meeting resolve root ≠ .ok none := by
  intro hnone
  rw [hostFacts] at hnone
  split at hnone
  next => cases hnone
  next =>
    obtain ⟨seen, hseen, hrest⟩ := bind_eq_ok.mp hnone
    cases seen with
    | none => exact closure_ends _ _ hseen
    | some seen =>
        obtain ⟨labelled, -, hrest⟩ := bind_eq_ok.mp hrest
        obtain ⟨rows, -, hrest⟩ := bind_eq_ok.mp hrest
        cases hrest

/-- Both searches end, whatever the metadata holds. -/
theorem facts_ends (linked : Linked) (meet : Site → Meeting) (all hosts : Value)
    (allPath hostsPath name : String) (wanted : Option String) :
    facts linked meet all hosts allPath hostsPath name wanted ≠ .ok none := by
  intro hnone
  obtain ⟨resolve, -, hrest⟩ := bind_eq_ok.mp hnone
  obtain ⟨hostResolve, -, hrest⟩ := bind_eq_ok.mp hrest
  obtain ⟨root, -, hrest⟩ := bind_eq_ok.mp hrest
  obtain ⟨item, -, hrest⟩ := bind_eq_ok.mp (mapError_eq_ok.mp hrest)
  obtain ⟨version, -, hrest⟩ := bind_eq_ok.mp hrest
  obtain ⟨range, -, hrest⟩ := bind_eq_ok.mp hrest
  obtain ⟨brought, hbrought, hrest⟩ := bind_eq_ok.mp hrest
  cases brought with
  | none => exact closure_ends _ _ hbrought
  | some brought =>
      obtain ⟨brings, -, hrest⟩ := bind_eq_ok.mp hrest
      obtain ⟨found, hfound, hrest⟩ := bind_eq_ok.mp hrest
      match found with
      | none => exact hostFacts_ends linked _ _ _ hfound
      | some (built, hints) =>
          obtain ⟨kept, hkept, hrest⟩ := bind_eq_ok.mp hrest
          cases kept with
          | none => exact keptWithout_ends _ _ _ hkept
          | some kept =>
              obtain ⟨gone, -, hrest⟩ := bind_eq_ok.mp hrest
              cases hrest

theorem sorted_pairwise (texts : List String) : (sorted texts).Pairwise (· ≤ ·) :=
  (sortByKey_pairwise texts).imp fun hle => LawfulBCmp.isLE_iff_le.mp hle

/-- What a record says is what the two graphs reach, each package once and in order of the labels;
it is the same for every metadata that describes the graphs; and the searches end. -/
theorem facts_are_exact_reachability (linked : Linked) (meet : Site → Meeting)
    (graph hosts : Graph) {all hostValue : Value} (hall : Describes all graph)
    (hhosts : Describes hostValue hosts) (allPath hostsPath name : String)
    (wanted : Option String) :
    facts linked meet all hostValue allPath hostsPath name wanted =
      (answer linked graph hosts name wanted).map some ∧
    (∀ root, (graph.brings root).Pairwise (· ≤ ·) ∧ (graph.brings root).Perm
      ((graph.those fun package => graph.Reached root package.id).map Package.label)) ∧
    (∀ (meet' : Site → Meeting) (all' hostValue' : Value), Describes all' graph →
      Describes hostValue' hosts →
        facts linked meet' all' hostValue' allPath hostsPath name wanted =
          facts linked meet all hostValue allPath hostsPath name wanted) ∧
    ∀ (meet' : Site → Meeting) (all' hostValue' : Value),
      facts linked meet' all' hostValue' allPath hostsPath name wanted ≠ .ok none := by
  have hanswer := @facts_eq_answer linked meet graph hosts all hostValue hall hhosts allPath
    hostsPath name wanted
  refine ⟨hanswer, fun root => ⟨sorted_pairwise _, sortByKey_perm _⟩, ?_, ?_⟩
  · intro meet' all' hostValue' hall' hhosts'
    rw [hanswer]
    exact facts_eq_answer hall' hhosts' allPath hostsPath name wanted
  · intro meet' all' hostValue'
    exact facts_ends linked meet' all' hostValue' allPath hostsPath name wanted

/-! ## A crate that a member uses -/

def samplePackage (id name : String) (source : Value) (kinds : List String) : Value :=
  .object [("id", .string id), ("name", .string name), ("version", .string "0.8.23"),
    ("source", source), ("targets", .array [.object [("kind", .array (kinds.map .string))]]),
    ("dependencies", .array []), ("manifest_path", .string "/src/Cargo.toml")]

def sampleNode (id : String) (deps : List (String × Value)) : Value :=
  .object [("id", .string id), ("deps", .array (deps.map fun dep => .object [("pkg", .string dep.1),
    ("dep_kinds", .array [.object [("kind", dep.2)]])]))]

/-- A member uses a crate; the crate uses another with a build script and a proc macro, which
uses the first again in its tests. -/
def sampleMetadata : Value :=
  .object [("packages", .array [samplePackage "app 0" "app" .null [],
      samplePackage "lib 0" "lib" (.string "registry") [],
      samplePackage "gen 0" "gen" (.string "registry") ["custom-build", "proc-macro"]]),
    ("resolve", .object [("nodes", .array [sampleNode "app 0" [("lib 0", .null)],
      sampleNode "lib 0" [("gen 0", .string "build")],
      sampleNode "gen 0" [("lib 0", .string "dev")]])]),
    ("workspace_members", .array [.string "app 0"])]

def sampleGraph : Graph where
  packages := [⟨"app 0", "app", "0.8", false, [], none, [], "/src/Cargo.toml"⟩,
    ⟨"lib 0", "lib", "0.8", true, [], none, [], "/src/Cargo.toml"⟩,
    ⟨"gen 0", "gen", "0.8", true, ["custom-build", "proc-macro"], none, [], "/src/Cargo.toml"⟩]
  nodes := [⟨"app 0", [⟨"lib 0", [.normal]⟩]⟩, ⟨"lib 0", [⟨"gen 0", [.build]⟩]⟩,
    ⟨"gen 0", [⟨"lib 0", [.dev]⟩]⟩]
  members := ["app 0"]
  packages_distinct := by decide
  nodes_distinct := by decide
  nodes_packaged := by decide
  edges_known := by decide
  members_known := by decide

theorem ranged_sample : ranged "0.8.23" = .ok "0.8" := by decide +kernel

theorem samplePackage_describes {package : Package} {source : Value}
    (hsource : truthy source = package.thirdParty) (hrange : package.range = "0.8")
    (hlinks : package.links = none) (hbuilders : package.builders = [])
    (hmanifest : package.manifest = "/src/Cargo.toml") :
    DescribesPackage (samplePackage package.id package.name source package.kinds) package where
  id := rfl
  name := rfl
  version := ⟨"0.8.23", rfl, hrange ▸ ranged_sample⟩
  source := ⟨source, rfl, hsource⟩
  targets := ⟨_, rfl, [package.kinds.map .string], .cons rfl .nil, fun kind => by simp⟩
  links := by rw [hlinks]; rfl
  builders := ⟨[], [], rfl, .nil, by rw [hbuilders]; exact .nil⟩
  manifest := by rw [hmanifest]; rfl

theorem sampleEdge_describes {target : String} {value : Value} {kind : DepKind}
    (hkind : DescribesKind value kind) :
    DescribesEdge (.object [("pkg", .string target),
      ("dep_kinds", .array [.object [("kind", value)]])]) ⟨target, [kind]⟩ where
  target := rfl
  kinds := ⟨_, rfl, .cons ⟨value, rfl, hkind⟩ .nil⟩

theorem sampleNode_describes {id target : String} {value : Value} {kind : DepKind}
    (hkind : DescribesKind value kind) :
    DescribesNode (sampleNode id [(target, value)]) ⟨id, [⟨target, [kind]⟩]⟩ :=
  ⟨rfl, _, rfl, _, .refl _, .cons (sampleEdge_describes hkind) .nil⟩

theorem sampleMetadata_describes : Describes sampleMetadata sampleGraph where
  packages := ⟨_, rfl, _, .refl _, .cons
    (@samplePackage_describes ⟨"app 0", "app", "0.8", false, [], none, [], "/src/Cargo.toml"⟩
      .null rfl rfl rfl rfl rfl)
    (.cons (@samplePackage_describes ⟨"lib 0", "lib", "0.8", true, [], none, [], "/src/Cargo.toml"⟩
      (.string "registry") (by decide) rfl rfl rfl rfl)
    (.cons (@samplePackage_describes ⟨"gen 0", "gen", "0.8", true,
      ["custom-build", "proc-macro"], none, [], "/src/Cargo.toml"⟩
      (.string "registry") (by decide) rfl rfl rfl rfl) .nil))⟩
  nodes := ⟨_, _, rfl, rfl, _, .refl _, .cons (sampleNode_describes .null)
    (.cons (sampleNode_describes .build) (.cons (sampleNode_describes .dev) .nil))⟩
  members := ⟨_, rfl, _, .refl _, .cons rfl .nil⟩

theorem facts_are_exact_reachability_sample :
    facts (fun _ => .ok []) (fun _ => ⟨fun keys => keys, fun _ => .refl _⟩) sampleMetadata
      sampleMetadata "all.json" "hosts.json" "lib" none =
        (answer (fun _ => .ok []) sampleGraph sampleGraph "lib" none).map some :=
  (facts_are_exact_reachability _ _ sampleGraph sampleGraph sampleMetadata_describes
    sampleMetadata_describes "all.json" "hosts.json" "lib" none).1

end Plasmosome.RecordFacts
