import Plasmosome.Foundation.Machine
import Plasmosome.Backend.Universe

/-!
# Who holds a tool

A registry maps each tool name of each cell to the plasmid that holds it there. A
registration takes all of its names or none, a withdrawal gives back exactly the
names of one owner, and no call is noticed in another cell.
-/

namespace Plasmosome.Cell

open Foundation Backend Std

/-- The name of a tool, in its cell. -/
@[ext]
structure ToolName where
  cell : CellId
  tool : String
deriving DecidableEq, Repr

instance : Ord ToolName := ⟨compareLex (compareOn (·.cell.name)) (compareOn (·.tool))⟩

instance : TransOrd ToolName := inferInstanceAs (TransCmp (compareLex _ _))

instance : LawfulEqOrd ToolName where
  eq_of_compare {a b} h := by
    obtain ⟨⟨_⟩, _⟩ := a
    obtain ⟨⟨_⟩, _⟩ := b
    obtain ⟨hcell, htool⟩ := compareLex_eq_eq.mp h
    cases LawfulEqOrd.eq_of_compare hcell
    cases LawfulEqOrd.eq_of_compare htool
    rfl

/-- Names of one cell are in the order of their tools. -/
theorem compare_tool {name other : ToolName} (hcell : name.cell = other.cell)
    (hlt : compare name other = .lt) : compare name.tool other.tool = .lt := by
  have hlex : (compare name.cell.name other.cell.name).then (compare name.tool other.tool) = .lt :=
    hlt
  rwa [hcell, ReflOrd.compare_self] at hlex

structure ToolDeclaration where
  name : String
  description : String
deriving DecidableEq, Repr

/-- One tool as its cell resolves it. -/
structure RegistryEntry where
  owner : CellOwner
  tool : String
  description : String
deriving DecidableEq, Repr

inductive LookupError where
  | unknownTool (cell : CellId) (tool : String)
deriving DecidableEq, Repr

inductive RegisterError where
  | toolHeld (cell : CellId) (tool : String) (holder : PluginId)
deriving DecidableEq, Repr

/-- The plasmid that holds each name, and the description it gave. -/
structure ToolRegistry where
  entries : OrderedMap ToolName (PluginId × String)

namespace ToolRegistry

def new : ToolRegistry := ⟨∅⟩

/-- The refusal of one name that another plasmid holds. -/
def refusal (registry : ToolRegistry) (owner : CellOwner) (tool : ToolDeclaration) :
    Option RegisterError :=
  (registry.entries[ToolName.mk owner.cell tool.name]?.filter fun held =>
    held.1 ≠ owner.plugin).map fun held => .toolHeld owner.cell tool.name held.1

def record (owner : CellOwner) (entries : OrderedMap ToolName (PluginId × String))
    (tool : ToolDeclaration) : OrderedMap ToolName (PluginId × String) :=
  entries.insert ⟨owner.cell, tool.name⟩ (owner.plugin, tool.description)

/-- Records every name, or refuses the first one that another plasmid holds. -/
def register (registry : ToolRegistry) (owner : CellOwner) (tools : List ToolDeclaration) :
    Except RegisterError Unit × ToolRegistry :=
  match tools.findSome? (registry.refusal owner) with
  | some refusal => (.error refusal, registry)
  | none => (.ok (), ⟨tools.foldl (record owner) registry.entries⟩)

def list (registry : ToolRegistry) (cell : CellId) : List String :=
  (registry.entries.keys.filter fun name => name.cell = cell).map ToolName.tool

def lookup (registry : ToolRegistry) (cell : CellId) (tool : String) :
    Except LookupError RegistryEntry :=
  match registry.entries[ToolName.mk cell tool]? with
  | some (plugin, description) => .ok ⟨⟨cell, plugin⟩, tool, description⟩
  | none => .error (.unknownTool cell tool)

def heldBy (owner : CellOwner) (name : ToolName) (entry : PluginId × String) : Bool :=
  name.cell = owner.cell && entry.1 = owner.plugin

/-- Removes the entries of one owner, and returns their names. -/
def withdraw (registry : ToolRegistry) (owner : CellOwner) : List String × ToolRegistry :=
  ((registry.entries.toList.filter fun pair => heldBy owner pair.1 pair.2).map (·.1.tool),
    ⟨registry.entries.filter fun name entry => !heldBy owner name entry⟩)

def len (registry : ToolRegistry) : Nat := registry.entries.size

/-! ## Calls -/

inductive Call where
  | register (owner : CellOwner) (tools : List ToolDeclaration)
  | withdraw (owner : CellOwner)

def Call.owner : Call → CellOwner
  | .register owner _ | .withdraw owner => owner

inductive Reply where
  | registered (result : Except RegisterError Unit)
  | withdrawn (tools : List String)

def step (registry : ToolRegistry) : Call → Reply × ToolRegistry
  | .register owner tools => (registry.register owner tools).map .registered id
  | .withdraw owner => (registry.withdraw owner).map .withdrawn id

def machine : Machine ToolRegistry Call Reply := ⟨step⟩

/-- The registry after calls to an empty one. -/
def after (calls : List Call) : ToolRegistry := machine.final new calls

/-! ## Registration -/

section Register

variable {registry : ToolRegistry} {owner : CellOwner} {tools : List ToolDeclaration}

/-- A tool is refused when another plasmid of the cell holds its name. -/
theorem refusal_eq_some {tool : ToolDeclaration} {error : RegisterError} :
    registry.refusal owner tool = some error ↔ ∃ holder description,
      registry.entries[ToolName.mk owner.cell tool.name]? = some (holder, description) ∧
        holder ≠ owner.plugin ∧ error = .toolHeld owner.cell tool.name holder := by
  unfold refusal
  constructor
  · intro hrefusal
    obtain ⟨⟨holder, description⟩, hheld, rfl⟩ := Option.map_eq_some_iff.mp hrefusal
    obtain ⟨hentry, hother⟩ := Option.filter_eq_some_iff.mp hheld
    exact ⟨holder, description, hentry, of_decide_eq_true hother, rfl⟩
  · rintro ⟨holder, description, hentry, hother, rfl⟩
    refine Option.map_eq_some_iff.mpr ⟨(holder, description), ?_, rfl⟩
    exact Option.filter_eq_some_iff.mpr ⟨hentry, decide_eq_true hother⟩

/-- A refused registration leaves the registry as it was. -/
theorem register_error {error : RegisterError}
    (hrefused : (registry.register owner tools).1 = .error error) :
    (registry.register owner tools).2 = registry ∧
    tools.findSome? (registry.refusal owner) = some error := by
  unfold register at hrefused ⊢
  split
  next refusal hrefusal =>
    simp only [hrefusal] at hrefused
    cases hrefused
    exact ⟨rfl, hrefusal⟩
  next hnone =>
    simp only [hnone] at hrefused
    cases hrefused

/-- A registration is accepted when none of its tools is refused. -/
theorem register_eq_ok : (registry.register owner tools).1 = .ok () ↔
    ∀ tool ∈ tools, registry.refusal owner tool = none := by
  unfold register
  rw [← List.findSome?_eq_none_iff]
  split
  next refusal hrefusal => simp [hrefusal]
  next hnone => simp [hnone]

theorem record_getElem? {entries : OrderedMap ToolName (PluginId × String)} {tool : ToolDeclaration}
    {name : ToolName} : (record owner entries tool)[name]? =
      if ToolName.mk owner.cell tool.name = name then some (owner.plugin, tool.description)
      else entries[name]? :=
  OrderedMap.getElem?_insert' _ _ _ _

/-- Recording leaves every name that was not asked for. -/
theorem recordAll_getElem?_of_ne {entries : OrderedMap ToolName (PluginId × String)}
    {name : ToolName} (hother : ∀ tool ∈ tools, ToolName.mk owner.cell tool.name ≠ name) :
    (tools.foldl (record owner) entries)[name]? = entries[name]? := by
  induction tools generalizing entries with
  | nil => rfl
  | cons tool rest ih =>
      obtain ⟨htool, hrest⟩ := List.forall_mem_cons.mp hother
      rw [List.foldl_cons, ih hrest, record_getElem?, if_neg htool]

/-- The last description given to a name is the one recorded. -/
theorem recordAll_getElem?_last {entries : OrderedMap ToolName (PluginId × String)}
    (before : List ToolDeclaration) (tool : ToolDeclaration) {rest : List ToolDeclaration}
    (hlast : ∀ later ∈ rest, later.name ≠ tool.name) :
    ((before ++ tool :: rest).foldl (record owner) entries)[ToolName.mk owner.cell tool.name]? =
      some (owner.plugin, tool.description) := by
  rw [List.foldl_append, List.foldl_cons, recordAll_getElem?_of_ne, record_getElem?, if_pos rfl]
  intro later hlater hsame
  exact hlast later hlater (congrArg ToolName.tool hsame)

/-- An accepted registration records each of its tools. -/
theorem register_of_ok (hok : (registry.register owner tools).1 = .ok ()) :
    (registry.register owner tools).2 = ⟨tools.foldl (record owner) registry.entries⟩ := by
  unfold register at hok ⊢
  split
  next refusal hrefusal =>
    simp only [hrefusal] at hok
    cases hok
  next => rfl

end Register

/-! ## Cells -/

/-- Two registries hold the same entries in one cell. -/
def Agree (cell : CellId) (first second : ToolRegistry) : Prop :=
  ∀ tool, first.entries[ToolName.mk cell tool]? = second.entries[ToolName.mk cell tool]?

section Agree

variable {cell : CellId} {first second : ToolRegistry} {owner : CellOwner}
  {tools : List ToolDeclaration}

theorem Agree.lookup_eq (hagree : Agree cell first second) (tool : String) :
    first.lookup cell tool = second.lookup cell tool := by
  unfold lookup
  rw [hagree tool]

/-- The names of a cell are listed in order, each once. -/
theorem list_pairwise (registry : ToolRegistry) (cell : CellId) :
    (registry.list cell).Pairwise fun first second => compare first second = .lt := by
  have hkeys := ExtTreeMap.ordered_keys (t := registry.entries)
  refine List.pairwise_map.mpr ?_
  refine (hkeys.filter _).imp_of_mem fun {name other} hname hother hlt => ?_
  have hname : name.cell = cell := by simpa using (List.mem_filter.mp hname).2
  have hother : other.cell = cell := by simpa using (List.mem_filter.mp hother).2
  exact compare_tool (hname.trans hother.symm) hlt

theorem mem_list {registry : ToolRegistry} {tool : String} : tool ∈ registry.list cell ↔
    (registry.entries[ToolName.mk cell tool]?).isSome = true := by
  unfold list
  rw [← ExtTreeMap.mem_iff_isSome_getElem?]
  constructor
  · intro hmem
    obtain ⟨⟨held, name⟩, hname, rfl⟩ := List.mem_map.mp hmem
    obtain ⟨hkey, hcell⟩ := List.mem_filter.mp hname
    have hcell : held = cell := by simpa using hcell
    subst hcell
    exact ExtTreeMap.mem_keys.mp hkey
  · intro hmem
    refine List.mem_map.mpr
      ⟨⟨cell, tool⟩, List.mem_filter.mpr ⟨ExtTreeMap.mem_keys.mpr hmem, ?_⟩, rfl⟩
    simp

/-- Lists in strict order are equal when they have the same members. -/
theorem eq_of_pairwise_lt {first second : List String}
    (hfirst : first.Pairwise fun a b => compare a b = .lt)
    (hsecond : second.Pairwise fun a b => compare a b = .lt)
    (hmem : ∀ tool, tool ∈ first ↔ tool ∈ second) : first = second := by
  have hne : ∀ a b : String, compare a b = .lt → a ≠ b := by
    rintro a _ hlt rfl
    rw [ReflOrd.compare_self] at hlt
    cases hlt
  refine List.Perm.eq_of_pairwise ?_ hfirst hsecond
    ((List.perm_ext_iff_of_nodup (hfirst.imp (hne _ _)) (hsecond.imp (hne _ _))).mpr hmem)
  intro a b _ _ hab hba
  rw [OrientedCmp.gt_of_lt hab] at hba
  cases hba

/-- Registries that agree on a cell list the same tools of it. -/
theorem Agree.list_eq (hagree : Agree cell first second) : first.list cell = second.list cell := by
  refine eq_of_pairwise_lt (list_pairwise first cell) (list_pairwise second cell) fun tool => ?_
  rw [mem_list, mem_list, hagree tool]

theorem Agree.record (hagree : Agree cell first second) (tool : ToolDeclaration) :
    Agree cell ⟨ToolRegistry.record owner first.entries tool⟩
      ⟨ToolRegistry.record owner second.entries tool⟩ := by
  intro name
  rw [record_getElem?, record_getElem?, hagree name]

theorem Agree.recordAll (hagree : Agree cell first second) :
    Agree cell ⟨tools.foldl (ToolRegistry.record owner) first.entries⟩
      ⟨tools.foldl (ToolRegistry.record owner) second.entries⟩ := by
  induction tools generalizing first second with
  | nil => exact hagree
  | cons tool rest ih => exact ih (hagree.record tool)

/-- Recording for another cell leaves a cell as it was. -/
theorem agree_recordAll_foreign (hforeign : owner.cell ≠ cell) :
    Agree cell ⟨tools.foldl (ToolRegistry.record owner) first.entries⟩ first := fun _ =>
  recordAll_getElem?_of_ne fun _ _ hsame => hforeign (congrArg ToolName.cell hsame)

theorem Agree.refusal_eq (hagree : Agree owner.cell first second) :
    first.refusal owner = second.refusal owner := by
  funext tool
  unfold refusal
  rw [hagree tool.name]

/-- A withdrawal takes out what the owner holds and nothing else. -/
theorem withdraw_getElem? {registry : ToolRegistry} {name : ToolName} :
    (registry.withdraw owner).2.entries[name]? =
      registry.entries[name]?.filter fun entry => !heldBy owner name entry :=
  ExtTreeMap.getElem?_filter'

/-- A call of the cell's own owner is answered alike by registries that agree in the cell. -/
theorem Agree.step {call : Call} (hagree : Agree call.owner.cell first second) :
    Agree call.owner.cell (first.step call).2 (second.step call).2 := by
  cases call with
  | register owner tools =>
      change Agree owner.cell (first.register owner tools).2 (second.register owner tools).2
      change Agree owner.cell first second at hagree
      unfold register
      rw [hagree.refusal_eq]
      split
      next => exact hagree
      next => exact hagree.recordAll
  | withdraw owner =>
      intro tool
      change (first.withdraw owner).2.entries[_]? = (second.withdraw owner).2.entries[_]?
      rw [withdraw_getElem?, withdraw_getElem?]
      exact congrArg _ (hagree tool)

/-- A call of another cell's owner is not noticed. -/
theorem step_agree_foreign {call : Call} (hforeign : call.owner.cell ≠ cell) :
    Agree cell (first.step call).2 first := by
  cases call with
  | register owner tools =>
      change Agree cell (first.register owner tools).2 first
      unfold register
      split
      next => exact fun _ => rfl
      next => exact agree_recordAll_foreign hforeign
  | withdraw owner =>
      intro tool
      change (first.withdraw owner).2.entries[_]? = _
      rw [withdraw_getElem?]
      have hkept : ∀ entry : PluginId × String,
          (!heldBy owner ⟨cell, tool⟩ entry) = true := by
        intro entry
        have hne : cell ≠ owner.cell := fun hsame => hforeign hsame.symm
        simp [heldBy, hne]
      cases first.entries[ToolName.mk cell tool]? with
      | none => rfl
      | some entry => exact Option.filter_some_pos (hkept entry)

/-- The calls of a cell alone lead to the same entries in that cell. -/
theorem Agree.final {calls : List Call} (hagree : Agree cell first second) :
    Agree cell (machine.final first calls)
      (machine.final second (calls.filter fun call => call.owner.cell = cell)) := by
  induction calls generalizing first second with
  | nil => exact hagree
  | cons call rest ih =>
      by_cases hcell : call.owner.cell = cell
      · subst hcell
        rw [List.filter_cons_of_pos (by simp)]
        exact ih hagree.step
      · rw [List.filter_cons_of_neg (by simpa using hcell)]
        exact ih fun tool => (step_agree_foreign hcell tool).trans (hagree tool)

end Agree

/-! ## Withdrawal -/

section Withdraw

variable {registry : ToolRegistry} {owner : CellOwner}

/-- A lookup gives the entry of its cell and name. -/
theorem lookup_eq_ok {cell : CellId} {tool : String} {entry : RegistryEntry} :
    registry.lookup cell tool = .ok entry ↔
      registry.entries[ToolName.mk cell tool]? = some (entry.owner.plugin, entry.description) ∧
        entry.owner.cell = cell ∧ entry.tool = tool := by
  unfold lookup
  cases hentry : registry.entries[ToolName.mk cell tool]? with
  | none => simp
  | some held =>
      obtain ⟨plugin, description⟩ := held
      obtain ⟨⟨holderCell, holder⟩, name, text⟩ := entry
      simp only [Except.ok.injEq, RegistryEntry.mk.injEq, CellOwner.mk.injEq, Option.some.injEq,
        Prod.mk.injEq]
      constructor
      · rintro ⟨⟨rfl, rfl⟩, rfl, rfl⟩
        exact ⟨⟨rfl, rfl⟩, rfl, rfl⟩
      · rintro ⟨⟨rfl, rfl⟩, rfl, rfl⟩
        exact ⟨⟨rfl, rfl⟩, rfl, rfl⟩

/-- A withdrawal returns what lookups gave of the owner. -/
theorem mem_withdraw {tool : String} : tool ∈ (registry.withdraw owner).1 ↔
    ∃ description, registry.lookup owner.cell tool = .ok ⟨owner, tool, description⟩ := by
  simp only [lookup_eq_ok, and_true]
  constructor
  · intro hmem
    obtain ⟨⟨⟨cell, name⟩, plugin, description⟩, hpair, rfl⟩ := List.mem_map.mp hmem
    obtain ⟨hentry, hheld⟩ := List.mem_filter.mp hpair
    obtain ⟨hcell, hplugin⟩ : cell = owner.cell ∧ plugin = owner.plugin := by
      simpa [heldBy] using hheld
    subst hcell hplugin
    exact ⟨description, ExtTreeMap.mem_toList_iff_getElem?_eq_some.mp hentry⟩
  · rintro ⟨description, hentry⟩
    refine List.mem_map.mpr ⟨(⟨owner.cell, tool⟩, owner.plugin, description),
      List.mem_filter.mpr ⟨?_, ?_⟩, rfl⟩
    · exact ExtTreeMap.mem_toList_iff_getElem?_eq_some.mpr hentry
    · simp [heldBy]

theorem withdraw_pairwise :
    ((registry.withdraw owner).1).Pairwise fun first second => compare first second = .lt := by
  have hkeys := ExtTreeMap.ordered_keys_toList (t := registry.entries)
  refine List.pairwise_map.mpr ?_
  refine (hkeys.filter _).imp_of_mem fun {pair other} hpair hother hlt => ?_
  have hcell : pair.1.cell = owner.cell := by
    have hheld := (List.mem_filter.mp hpair).2
    simp only [heldBy, Bool.and_eq_true, decide_eq_true_eq] at hheld
    exact hheld.1
  have hother : other.1.cell = owner.cell := by
    have hheld := (List.mem_filter.mp hother).2
    simp only [heldBy, Bool.and_eq_true, decide_eq_true_eq] at hheld
    exact hheld.1
  exact compare_tool (hcell.trans hother.symm) hlt

/-- A withdrawal removes what its owner held, and nothing else. -/
theorem withdraw_lookup {cell : CellId} {tool : String} {entry : RegistryEntry} :
    (registry.withdraw owner).2.lookup cell tool = .ok entry ↔
      registry.lookup cell tool = .ok entry ∧ entry.owner ≠ owner := by
  rw [lookup_eq_ok, lookup_eq_ok, withdraw_getElem?, Option.filter_eq_some_iff]
  have howner : ∀ hcell : entry.owner.cell = cell,
      (!heldBy owner ⟨cell, tool⟩ (entry.owner.plugin, entry.description)) = true ↔
        entry.owner ≠ owner := by
    intro hcell
    obtain ⟨⟨holderCell, holder⟩, name, text⟩ := entry
    obtain ⟨ownerCell, plugin⟩ := owner
    change holderCell = cell at hcell
    subst hcell
    simp only [heldBy, ne_eq, CellOwner.mk.injEq, Bool.not_eq_true', Bool.and_eq_false_iff,
      decide_eq_false_iff_not]
    exact (not_and_or).symm
  constructor
  · rintro ⟨⟨hentry, hheld⟩, hcell, htool⟩
    exact ⟨⟨hentry, hcell, htool⟩, (howner hcell).mp hheld⟩
  · rintro ⟨⟨hentry, hcell, htool⟩, hother⟩
    exact ⟨⟨hentry, (howner hcell).mpr hother⟩, hcell, htool⟩

/-- After a withdrawal its owner can take the same names again. -/
theorem withdraw_register {tools : List ToolDeclaration}
    (htools : ∀ tool ∈ tools, tool.name ∈ (registry.withdraw owner).1) :
    ((registry.withdraw owner).2.register owner tools).1 = .ok () := by
  refine register_eq_ok.mpr fun tool htool => ?_
  obtain ⟨description, hlookup⟩ := mem_withdraw.mp (htools tool htool)
  have hentry := (lookup_eq_ok.mp hlookup).1
  cases hrefusal : (registry.withdraw owner).2.refusal owner tool with
  | none => rfl
  | some error =>
      obtain ⟨holder, text, hheld, hother, -⟩ := refusal_eq_some.mp hrefusal
      rw [withdraw_getElem?, hentry, Option.filter_eq_some_iff] at hheld
      cases hheld.1
      exact absurd rfl hother

end Withdraw

/-! ## Holders -/

section Holders

variable {registry : ToolRegistry} {owner : CellOwner} {tools : List ToolDeclaration}

/-- Who holds a name of a cell. -/
def Holds (registry : ToolRegistry) (owner : CellOwner) (tool : String) : Prop :=
  ∃ description, registry.lookup owner.cell tool = .ok ⟨owner, tool, description⟩

theorem holds_iff {tool : String} : registry.Holds owner tool ↔
    ∃ description, registry.entries[ToolName.mk owner.cell tool]? =
      some (owner.plugin, description) := by
  simp [Holds, lookup_eq_ok]

/-- A tool has one holder in a cell. -/
theorem eq_of_holds {other : CellOwner} {tool : String} (hcell : other.cell = owner.cell)
    (howner : registry.Holds owner tool) (hother : registry.Holds other tool) : other = owner := by
  obtain ⟨description, hentry⟩ := holds_iff.mp howner
  obtain ⟨text, hheld⟩ := holds_iff.mp hother
  rw [hcell, hentry] at hheld
  cases owner
  cases other
  cases hcell
  cases hheld
  rfl

/-- A tool is not refused when no other plasmid of the cell holds its name. -/
theorem refusal_eq_none {tool : ToolDeclaration} : registry.refusal owner tool = none ↔
    ∀ other : CellOwner, other.cell = owner.cell → registry.Holds other tool.name →
      other = owner := by
  constructor
  · intro hnone other hcell hheld
    obtain ⟨cell, plugin⟩ := other
    obtain ⟨ownerCell, ownerPlugin⟩ := owner
    cases hcell
    obtain ⟨description, hentry⟩ := holds_iff.mp hheld
    by_contra hne
    have hplugin : plugin ≠ ownerPlugin := fun hsame => hne (congrArg (CellOwner.mk cell) hsame)
    have hsome := (@refusal_eq_some registry ⟨cell, ownerPlugin⟩ _ _).mpr
      ⟨plugin, description, hentry, hplugin, rfl⟩
    rw [hnone] at hsome
    cases hsome
  · intro hfree
    cases hrefusal : registry.refusal owner tool with
    | none => rfl
    | some error =>
        obtain ⟨holder, description, hentry, hother, -⟩ := refusal_eq_some.mp hrefusal
        have hheld := hfree ⟨owner.cell, holder⟩ rfl (holds_iff.mpr ⟨description, hentry⟩)
        exact absurd (congrArg CellOwner.plugin hheld) hother

/-- A registration is accepted exactly when no other plasmid of the cell holds a name of it. -/
theorem register_isOk_iff : (registry.register owner tools).1 = .ok () ↔
    ∀ tool ∈ tools, ∀ other : CellOwner, other.cell = owner.cell →
      registry.Holds other tool.name → other = owner := by
  rw [register_eq_ok]
  exact forall_congr' fun _ => imp_congr_right fun _ => refusal_eq_none

/-- An accepted tool looks up to its last description. -/
theorem register_lookup_last (hok : (registry.register owner tools).1 = .ok ())
    {before : List ToolDeclaration} {tool : ToolDeclaration} {rest : List ToolDeclaration}
    (htools : tools = before ++ tool :: rest) (hlast : ∀ later ∈ rest, later.name ≠ tool.name) :
    (registry.register owner tools).2.lookup owner.cell tool.name =
      .ok ⟨owner, tool.name, tool.description⟩ := by
  subst htools
  rw [register_of_ok hok]
  exact lookup_eq_ok.mpr ⟨recordAll_getElem?_last before tool hlast, rfl, rfl⟩

/-- Names that were not requested look up as before. -/
theorem register_lookup_of_ne (hok : (registry.register owner tools).1 = .ok ()) {cell : CellId}
    {name : String} (hother : cell = owner.cell → ∀ tool ∈ tools, tool.name ≠ name) :
    (registry.register owner tools).2.lookup cell name = registry.lookup cell name := by
  rw [register_of_ok hok]
  unfold lookup
  rw [recordAll_getElem?_of_ne]
  intro tool htool hsame
  exact hother (congrArg ToolName.cell hsame).symm tool htool (congrArg ToolName.tool hsame)

theorem exists_last {name : String} (hname : ∃ tool ∈ tools, tool.name = name) :
    ∃ before tool rest, tools = before ++ tool :: rest ∧ tool.name = name ∧
      ∀ later ∈ rest, later.name ≠ tool.name := by
  induction tools with
  | nil =>
      obtain ⟨tool, htool, -⟩ := hname
      cases htool
  | cons first rest ih =>
      by_cases hrest : ∃ tool ∈ rest, tool.name = name
      · obtain ⟨before, tool, later, rfl, hname, hlast⟩ := ih hrest
        exact ⟨first :: before, tool, later, rfl, hname, hlast⟩
      · obtain ⟨tool, htool, rfl⟩ := hname
        rcases List.mem_cons.mp htool with rfl | hmem
        · exact ⟨[], tool, rest, rfl, rfl, fun later hlater hsame => hrest ⟨later, hlater, hsame⟩⟩
        · exact absurd ⟨tool, hmem, rfl⟩ hrest

/-- A holder keeps its name through every call but its own withdrawal. -/
theorem Holds.step {call : Call} {tool : String} (hholds : registry.Holds owner tool)
    (hcall : call ≠ .withdraw owner) : (registry.step call).2.Holds owner tool := by
  cases call with
  | register caller requested =>
      change (registry.register caller requested).2.Holds owner tool
      cases hresult : (registry.register caller requested).1 with
      | error error =>
          rw [(register_error hresult).1]
          exact hholds
      | ok _ =>
          by_cases hname : owner.cell = caller.cell ∧ ∃ wanted ∈ requested, wanted.name = tool
          · obtain ⟨hcell, hwanted⟩ := hname
            obtain ⟨wanted, hmem, rfl⟩ := hwanted
            cases register_isOk_iff.mp hresult wanted hmem owner hcell hholds
            obtain ⟨before, last, rest, hrequested, hsame, hlast⟩ :=
              exists_last ⟨wanted, hmem, rfl⟩
            refine ⟨last.description, ?_⟩
            rw [← hsame]
            exact register_lookup_last hresult hrequested hlast
          · obtain ⟨description, hlookup⟩ := hholds
            refine ⟨description, (register_lookup_of_ne hresult ?_).trans hlookup⟩
            exact fun hcell wanted hwanted hsame => hname ⟨hcell, wanted, hwanted, hsame⟩
  | withdraw caller =>
      change (registry.withdraw caller).2.Holds owner tool
      obtain ⟨description, hlookup⟩ := hholds
      refine ⟨description, withdraw_lookup.mpr ⟨hlookup, ?_⟩⟩
      rintro rfl
      exact hcall rfl

/-- A holder holds until it withdraws. -/
theorem Holds.final {calls : List Call} {tool : String} (hholds : registry.Holds owner tool)
    (hcalls : Call.withdraw owner ∉ calls) : (machine.final registry calls).Holds owner tool := by
  induction calls generalizing registry with
  | nil => exact hholds
  | cons call rest ih =>
      rw [List.mem_cons, not_or] at hcalls
      exact ih (hholds.step (Ne.symm hcalls.1)) hcalls.2

end Holders

/-- The first name of a refused registration that another plasmid holds. -/
def FirstHeld (registry : ToolRegistry) (owner : CellOwner) (tools : List ToolDeclaration)
    (error : RegisterError) : Prop :=
  ∃ before tool rest, ∃ holder : CellOwner, tools = before ++ tool :: rest ∧
    error = .toolHeld owner.cell tool.name holder.plugin ∧ holder.cell = owner.cell ∧
    holder ≠ owner ∧ registry.Holds holder tool.name ∧
    ∀ earlier ∈ before, ∀ other : CellOwner, other.cell = owner.cell →
      registry.Holds other earlier.name → other = owner

theorem firstHeld_of_error {registry : ToolRegistry} {owner : CellOwner}
    {tools : List ToolDeclaration} {error : RegisterError}
    (hrefused : (registry.register owner tools).1 = .error error) :
    FirstHeld registry owner tools error := by
  obtain ⟨-, hfirst⟩ := register_error hrefused
  obtain ⟨before, tool, rest, rfl, hrefusal, hbefore⟩ := List.findSome?_eq_some_iff.mp hfirst
  obtain ⟨holder, description, hheld, hother, rfl⟩ := refusal_eq_some.mp hrefusal
  refine ⟨before, tool, rest, ⟨owner.cell, holder⟩, rfl, rfl, rfl, fun howner => hother ?_,
    holds_iff.mpr ⟨description, hheld⟩, fun earlier hearlier =>
      refusal_eq_none.mp (hbefore earlier hearlier)⟩
  exact congrArg CellOwner.plugin howner

/-- After any calls: a registration is accepted exactly when no other plasmid of the cell holds one
of its names. Accepted, it gives each of them to its owner with the last description, and
nothing else changes; refused, it changes nothing and names the first that is held. A name of a
cell has one holder, which keeps it until it withdraws. The cell answers as if only its own calls
had been made, and a withdrawal gives back exactly what its owner held. -/
theorem tool_registry_isolates_cells (calls : List Call) (owner : CellOwner)
    (tools : List ToolDeclaration) (cell : CellId) :
    let registry := after calls
    ((registry.register owner tools).1 = .ok () ↔
      ∀ tool ∈ tools, ∀ other : CellOwner, other.cell = owner.cell →
        registry.Holds other tool.name → other = owner) ∧
    ((registry.register owner tools).1 = .ok () →
      (∀ before tool rest, tools = before ++ tool :: rest →
        (∀ later ∈ rest, later.name ≠ tool.name) →
        (registry.register owner tools).2.lookup owner.cell tool.name =
          .ok ⟨owner, tool.name, tool.description⟩) ∧
      ∀ other name, (other = owner.cell → ∀ tool ∈ tools, tool.name ≠ name) →
        (registry.register owner tools).2.lookup other name = registry.lookup other name) ∧
    (∀ error, (registry.register owner tools).1 = .error error →
      (registry.register owner tools).2 = registry ∧ FirstHeld registry owner tools error) ∧
    (∀ tool holder other, registry.Holds holder tool → registry.Holds other tool →
      other.cell = holder.cell → other = holder) ∧
    (∀ tool more, registry.Holds owner tool → Call.withdraw owner ∉ more →
      (after (calls ++ more)).Holds owner tool) ∧
    ((∀ tool, registry.lookup cell tool =
        (after (calls.filter fun call => call.owner.cell = cell)).lookup cell tool) ∧
      registry.list cell = (after (calls.filter fun call => call.owner.cell = cell)).list cell) ∧
    ((registry.list cell).Pairwise fun first second => compare first second = .lt) ∧
    (∀ tool, tool ∈ registry.list cell ↔ ∃ entry, registry.lookup cell tool = .ok entry) ∧
    (((registry.withdraw owner).1).Pairwise fun first second => compare first second = .lt) ∧
    (∀ tool, tool ∈ (registry.withdraw owner).1 ↔ registry.Holds owner tool) ∧
    (∀ other tool entry, (registry.withdraw owner).2.lookup other tool = .ok entry ↔
      registry.lookup other tool = .ok entry ∧ entry.owner ≠ owner) ∧
    (∀ again : List ToolDeclaration, (∀ tool ∈ again, tool.name ∈ (registry.withdraw owner).1) →
      ((registry.withdraw owner).2.register owner again).1 = .ok ()) := by
  intro registry
  have hagree : Agree cell registry (after (calls.filter fun call => call.owner.cell = cell)) :=
    Agree.final fun _ => rfl
  refine ⟨register_isOk_iff, ?_, ?_, ?_, ?_, ⟨hagree.lookup_eq, hagree.list_eq⟩,
    list_pairwise registry cell, ?_, withdraw_pairwise, fun _ => mem_withdraw,
    fun _ _ _ => withdraw_lookup, fun _ => withdraw_register⟩
  · intro hok
    exact ⟨fun _ _ _ => register_lookup_last hok, fun _ _ => register_lookup_of_ne hok⟩
  · intro error hrefused
    exact ⟨(register_error hrefused).1, firstHeld_of_error hrefused⟩
  · intro tool holder other hholder hother hcell
    exact eq_of_holds hcell hholder hother
  · intro tool more hholds hmore
    rw [after, Machine.final_append]
    exact hholds.final hmore
  · intro tool
    rw [mem_list, Option.isSome_iff_exists]
    constructor
    · rintro ⟨⟨plugin, description⟩, hentry⟩
      exact ⟨⟨⟨cell, plugin⟩, tool, description⟩, lookup_eq_ok.mpr ⟨hentry, rfl, rfl⟩⟩
    · rintro ⟨entry, hlookup⟩
      exact ⟨_, (lookup_eq_ok.mp hlookup).1⟩

end ToolRegistry

end Plasmosome.Cell
