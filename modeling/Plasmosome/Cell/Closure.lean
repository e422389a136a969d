import Plasmosome.Foundation.Machine
import Plasmosome.Foundation.Saturation
import Plasmosome.Backend.Universe

/-!
# Removal closures

The plugins attached to one cell and the providers each directly requires. A
removal takes its root, everything that requires what it takes, and then round
by round every unnamed provider left without a requirer.
-/

namespace Plasmosome.Cell

open Foundation Backend Std

inductive GraphError where
  | notAttached (plugin : PluginId)
  | unknownProvider (plugin provider : PluginId)
  | alreadyAttached (plugin : PluginId)
deriving DecidableEq, Repr

/-- The attached plugins with their direct providers, and those asked for by name. -/
structure AttachmentGraph where
  providers : OrderedMap PluginId (OrderedSet PluginId)
  named : OrderedSet PluginId

namespace AttachmentGraph

def new : AttachmentGraph := ⟨∅, ∅⟩

def contains (graph : AttachmentGraph) (plugin : PluginId) : Bool :=
  graph.providers.contains plugin

def attach (graph : AttachmentGraph) (plugin : PluginId) (providers : OrderedSet PluginId)
    (named : Bool) : Except GraphError AttachmentGraph :=
  if graph.contains plugin then .error (.alreadyAttached plugin)
  else
    match providers.toList.find? (fun provider => !graph.contains provider) with
    | some provider => .error (.unknownProvider plugin provider)
    | none =>
        .ok { providers := graph.providers.insert plugin providers
              named := if named then graph.named.insert plugin else graph.named }

def requirers (graph : AttachmentGraph) (provider : PluginId) : List PluginId :=
  (graph.providers.toList.filter fun entry => entry.2.contains provider).map Prod.fst

def checkAttached (graph : AttachmentGraph) (plugin : PluginId) : Except GraphError Unit :=
  if graph.contains plugin then .ok () else .error (.notAttached plugin)

def strandedBy (graph : AttachmentGraph) (root : PluginId) :
    Except GraphError (List PluginId) := do
  graph.checkAttached root
  return graph.requirers root

/-- One round's orphans. Indexing a member that is not attached panics: `none`. -/
def orphans (graph : AttachmentGraph) (taken : OrderedSet PluginId) : Option (List PluginId) := do
  let provided ← taken.toList.mapM fun member => graph.providers[member]?
  return ((provided.flatMap fun providers => providers.toList).filter fun provider =>
      !taken.contains provider && !graph.named.contains provider).filter fun provider =>
    (graph.requirers provider).all fun requirer => taken.contains requirer

/-- The removal of a root, `none` when an index panics or the loops outlast their fuel. -/
def removalClosure (graph : AttachmentGraph) (fuel : Nat) (root : PluginId) :
    Option (Except GraphError (List PluginId)) :=
  match graph.checkAttached root with
  | .error error => some (.error error)
  | .ok () => do
      let required ← Worklist.drain graph.requirers fuel ((∅ : OrderedSet PluginId).insert root)
        [root]
      let taken ← Rounds.saturate graph.orphans fuel required
      return .ok taken.toList

end AttachmentGraph

/-! ## Graphs built by attaching -/

structure Attachment where
  plugin : PluginId
  providers : OrderedSet PluginId
  named : Bool

/-- A graph answering attach calls; a refusal leaves it as it was. -/
def attachments : Machine AttachmentGraph Attachment (Except GraphError Unit) where
  step graph call :=
    match graph.attach call.plugin call.providers call.named with
    | .ok next => (.ok (), next)
    | .error error => (.error error, graph)

/-- The graph after a list of attach calls on an empty one. -/
def attachedBy (calls : List Attachment) : AttachmentGraph :=
  attachments.final AttachmentGraph.new calls

namespace AttachmentGraph

variable {graph : AttachmentGraph} {root : PluginId}

def Attached (graph : AttachmentGraph) (plugin : PluginId) : Prop :=
  graph.contains plugin = true

instance (graph : AttachmentGraph) (plugin : PluginId) : Decidable (graph.Attached plugin) :=
  inferInstanceAs (Decidable (_ = true))

/-- `plugin` is attached and lists `provider` among its providers. -/
def Requires (graph : AttachmentGraph) (plugin provider : PluginId) : Prop :=
  ∃ providers, graph.providers[plugin]? = some providers ∧ provider ∈ providers

/-- What is required is attached. -/
def Grounded (graph : AttachmentGraph) : Prop :=
  ∀ plugin provider, graph.Requires plugin provider → graph.Attached provider

theorem attached_iff {plugin : PluginId} :
    graph.Attached plugin ↔ ∃ providers, graph.providers[plugin]? = some providers := by
  rw [Attached, contains, ExtTreeMap.contains_iff_mem, ExtTreeMap.mem_iff_isSome_getElem?,
    Option.isSome_iff_exists]

theorem Requires.attached {plugin provider : PluginId}
    (hrequires : graph.Requires plugin provider) :
    graph.Attached plugin := by
  obtain ⟨providers, hproviders, -⟩ := hrequires
  exact attached_iff.mpr ⟨providers, hproviders⟩

@[simp] theorem mem_requirers {plugin provider : PluginId} :
    plugin ∈ graph.requirers provider ↔ graph.Requires plugin provider := by
  simp only [requirers, List.mem_map, List.mem_filter, Prod.exists, Requires,
    ExtTreeMap.mem_toList_iff_getElem?_eq_some, ExtTreeSet.contains_iff_mem]
  constructor
  · rintro ⟨key, providers, ⟨hkey, hprovider⟩, rfl⟩
    exact ⟨providers, hkey, hprovider⟩
  · rintro ⟨providers, hkey, hprovider⟩
    exact ⟨plugin, providers, ⟨hkey, hprovider⟩, rfl⟩

theorem checkAttached_eq_ok (hroot : graph.Attached root) : graph.checkAttached root = .ok () :=
  if_pos hroot

theorem strandedBy_eq_ok (hroot : graph.Attached root) :
    graph.strandedBy root = .ok (graph.requirers root) := by
  rw [strandedBy, checkAttached_eq_ok hroot]
  rfl

/-! ## What attaching preserves -/

/-- An accepted attachment inserts one new plugin whose providers are all attached. -/
theorem attach_eq_ok {plugin : PluginId} {providers : OrderedSet PluginId} {named : Bool}
    {next : AttachmentGraph} (hattach : graph.attach plugin providers named = .ok next) :
    (∀ provider, provider ∈ providers → graph.Attached provider) ∧
      next.providers = graph.providers.insert plugin providers := by
  rw [attach] at hattach
  split at hattach
  · cases hattach
  · split at hattach
    next => cases hattach
    next hfind =>
      cases hattach
      refine ⟨fun provider hprovider => ?_, rfl⟩
      have hmiss := List.find?_eq_none.mp hfind provider (ExtTreeSet.mem_toList.mpr hprovider)
      simpa [Attached] using hmiss

theorem Grounded.attach {plugin : PluginId} {providers : OrderedSet PluginId} {named : Bool}
    {next : AttachmentGraph} (hgraph : graph.Grounded)
    (hattach : graph.attach plugin providers named = .ok next) : next.Grounded := by
  obtain ⟨hattached, hnext⟩ := attach_eq_ok hattach
  have hkeeps : ∀ other, graph.Attached other → next.Attached other := by
    intro other hother
    rw [Attached, contains, hnext, ExtTreeMap.contains_insert]
    exact Bool.or_eq_true_iff.mpr (Or.inr hother)
  rintro requirer provider ⟨found, hfound, hprovider⟩
  rw [hnext, OrderedMap.getElem?_insert'] at hfound
  split at hfound
  · cases hfound
    exact hkeeps provider (hattached provider hprovider)
  · exact hkeeps provider (hgraph requirer provider ⟨found, hfound, hprovider⟩)

theorem grounded_attachedBy (calls : List Attachment) : (attachedBy calls).Grounded := by
  refine attachments.final_invariant ?_ ?_ calls
  · intro graph call hgraph
    simp only [attachments]
    split
    next next hattach => exact hgraph.attach hattach
    next => exact hgraph
  · rintro plugin provider ⟨providers, hproviders, -⟩
    simp [new] at hproviders

/-! ## The least closed set -/

/-- A set of attached plugins a removal of the root may leave behind nothing of. -/
structure RemovalClosed (graph : AttachmentGraph) (root : PluginId) (taken : Set PluginId) :
    Prop where
  attached : ∀ plugin ∈ taken, graph.Attached plugin
  rooted : root ∈ taken
  requirer : ∀ plugin, ∀ member ∈ taken, graph.Requires plugin member → plugin ∈ taken
  orphan : ∀ provider, ∀ member ∈ taken, graph.Requires member provider →
    graph.Attached provider → provider ∉ graph.named →
    (∀ requirer, graph.Requires requirer provider → requirer ∈ taken) → provider ∈ taken

/-- The attached plugins. -/
def plugins (graph : AttachmentGraph) : Finset PluginId :=
  graph.providers.keys.toFinset

@[simp] theorem mem_plugins {plugin : PluginId} :
    plugin ∈ graph.plugins ↔ graph.Attached plugin := by
  rw [plugins, List.mem_toFinset, ExtTreeMap.mem_keys, Attached, contains,
    ExtTreeMap.contains_iff_mem]

theorem untaken_plugins_card_le (taken : OrderedSet PluginId) :
    (untaken graph.plugins taken).card ≤ graph.providers.size := by
  calc (untaken graph.plugins taken).card
      ≤ graph.plugins.card := Finset.card_filter_le _ _
    _ ≤ graph.providers.keys.length := List.toFinset_card_le _
    _ = graph.providers.size := ExtTreeMap.length_keys

/-- What the orphan rounds keep: only attached plugins, the root, all their requirers, and
nothing outside a closed set. -/
structure Removing (graph : AttachmentGraph) (root : PluginId) (taken : OrderedSet PluginId) :
    Prop where
  attached : ∀ plugin, plugin ∈ taken → graph.Attached plugin
  rooted : root ∈ taken
  requirer : ∀ plugin member, member ∈ taken → graph.Requires plugin member → plugin ∈ taken
  least : ∀ closed, graph.RemovalClosed root closed → ∀ plugin, plugin ∈ taken → plugin ∈ closed
  unnamed : graph.requirers root = [] → ∀ plugin, plugin ∈ taken → plugin ∈ graph.named →
    plugin = root

theorem mapM_providers {members : List PluginId}
    (hmembers : ∀ member ∈ members, graph.Attached member) :
    members.mapM (fun member => graph.providers[member]?) =
      some (members.map fun member => graph.providers[member]?.getD ∅) := by
  induction members with
  | nil => rfl
  | cons head tail ih =>
      obtain ⟨providers, hproviders⟩ := attached_iff.mp (hmembers head List.mem_cons_self)
      have htail := ih fun member hmember => hmembers member (List.mem_cons_of_mem _ hmember)
      simp [List.mapM_cons, hproviders, htail]

/-- Among attached plugins no index panics, and a round finds exactly the orphans. -/
theorem orphans_eq_some {taken : OrderedSet PluginId}
    (hattached : ∀ plugin, plugin ∈ taken → graph.Attached plugin) :
    ∃ found, graph.orphans taken = some found ∧ ∀ provider, provider ∈ found ↔
      (∃ member, member ∈ taken ∧ graph.Requires member provider) ∧
        provider ∉ taken ∧ provider ∉ graph.named ∧
        ∀ requirer, graph.Requires requirer provider → requirer ∈ taken := by
  have hmap : taken.toList.mapM (fun member => graph.providers[member]?) =
      some (taken.toList.map fun member => graph.providers[member]?.getD ∅) :=
    mapM_providers fun member hmember => hattached member (ExtTreeSet.mem_toList.mp hmember)
  refine ⟨_, by rw [orphans, hmap]; rfl, fun provider => ?_⟩
  have hrequired : (∃ member, member ∈ taken ∧ provider ∈ graph.providers[member]?.getD ∅) ↔
      ∃ member, member ∈ taken ∧ graph.Requires member provider := by
    refine exists_congr fun member => and_congr_right fun hmember => ?_
    obtain ⟨providers, hproviders⟩ := attached_iff.mp (hattached member hmember)
    simp [Requires, hproviders]
  simp only [List.mem_filter, List.mem_flatMap, List.mem_map, exists_exists_and_eq_and,
    ExtTreeSet.mem_toList, List.all_eq_true, mem_requirers, Bool.and_eq_true, Bool.not_eq_true',
    ExtTreeSet.contains_iff_mem, ← Bool.not_eq_true]
  rw [hrequired]
  tauto

theorem Removing.orphans {taken : OrderedSet PluginId} (hgraph : graph.Grounded)
    (htaken : Removing graph root taken) :
    ∃ found, graph.orphans taken = some found ∧
      (∀ provider ∈ found, provider ∈ untaken graph.plugins taken) ∧
      Removing graph root (taken.insertMany found) := by
  obtain ⟨found, hfound, hmem⟩ := orphans_eq_some htaken.attached
  have hattached : ∀ provider ∈ found, graph.Attached provider := by
    intro provider hprovider
    obtain ⟨⟨member, -, hrequires⟩, -⟩ := (hmem provider).mp hprovider
    exact hgraph member provider hrequires
  refine ⟨found, hfound, ?_, ?_⟩
  · intro provider hprovider
    exact mem_untaken.mpr
      ⟨mem_plugins.mpr (hattached provider hprovider), ((hmem provider).mp hprovider).2.1⟩
  · constructor
    case attached =>
      intro plugin hplugin
      rcases Rounds.mem_insertMany_iff.mp hplugin with hold | hnew
      · exact htaken.attached plugin hold
      · exact hattached plugin hnew
    case rooted => exact Rounds.mem_insertMany_iff.mpr (Or.inl htaken.rooted)
    case requirer =>
      intro plugin member hmember hrequires
      refine Rounds.mem_insertMany_iff.mpr (Or.inl ?_)
      rcases Rounds.mem_insertMany_iff.mp hmember with hold | hnew
      · exact htaken.requirer plugin member hold hrequires
      · exact ((hmem member).mp hnew).2.2.2 plugin hrequires
    case least =>
      intro closed hclosed plugin hplugin
      rcases Rounds.mem_insertMany_iff.mp hplugin with hold | hnew
      · exact htaken.least closed hclosed plugin hold
      · obtain ⟨⟨member, hmember, hrequires⟩, -, hunnamed, hall⟩ := (hmem plugin).mp hnew
        exact hclosed.orphan plugin member (htaken.least closed hclosed member hmember) hrequires
          (hattached plugin hnew) hunnamed fun requirer hrequirer =>
            htaken.least closed hclosed requirer (hall requirer hrequirer)
    case unnamed =>
      intro hstranded plugin hplugin hnamed
      rcases Rounds.mem_insertMany_iff.mp hplugin with hold | hnew
      · exact htaken.unnamed hstranded plugin hold hnamed
      · exact absurd hnamed ((hmem plugin).mp hnew).2.2.1

/-- The worklist leaves the root and its transitive requirers. -/
theorem removing_of_drain (hroot : graph.Attached root) {fuel : Nat}
    (hfuel : graph.providers.size < fuel) :
    ∃ required, Worklist.drain graph.requirers fuel ((∅ : OrderedSet PluginId).insert root) [root]
        = some required ∧ Removing graph root required := by
  have hstart : ∀ plugin, plugin ∈ (∅ : OrderedSet PluginId).insert root ↔ plugin = root := by
    intro plugin
    rw [mem_insert_iff, eq_comm]
    exact or_iff_left ExtTreeSet.not_mem_empty
  have hexploring : Worklist.Exploring graph.requirers ((∅ : OrderedSet PluginId).insert root)
      [root] := by
    constructor
    · intro plugin hplugin
      exact (hstart plugin).mpr (List.mem_singleton.mp hplugin)
    · intro plugin hplugin hstack
      exact absurd (List.mem_singleton.mpr ((hstart plugin).mp hplugin)) hstack
  have hcost := @untaken_plugins_card_le graph ((∅ : OrderedSet PluginId).insert root)
  obtain ⟨required, hrequired, hgrows, hkeeps, hleast⟩ :=
    Worklist.drain_spec (fun _ requirer hrequirer =>
      mem_plugins.mpr (mem_requirers.mp hrequirer).attached) fuel hexploring
      (by simp only [List.length_singleton]; omega)
  refine ⟨required, hrequired, ?_⟩
  have hleast' : ∀ closed : Set PluginId, root ∈ closed →
      (∀ plugin, ∀ member ∈ closed, graph.Requires plugin member → plugin ∈ closed) →
      ∀ plugin, plugin ∈ required → plugin ∈ closed := by
    intro closed hcontains hrequirer
    refine hleast closed ?_ fun member hmember plugin hplugin =>
      hrequirer plugin member hmember (mem_requirers.mp hplugin)
    intro plugin hplugin
    exact ((hstart plugin).mp hplugin) ▸ hcontains
  constructor
  case attached =>
    exact hleast' {plugin | graph.Attached plugin} hroot fun plugin _ _ h => h.attached
  case rooted => exact hgrows root ((hstart root).mpr rfl)
  case requirer =>
    intro plugin member hmember hrequires
    exact hkeeps member hmember plugin (mem_requirers.mpr hrequires)
  case least =>
    intro closed hclosed
    exact hleast' closed hclosed.rooted hclosed.requirer
  case unnamed =>
    intro hstranded plugin hplugin _
    refine hleast' {plugin | plugin = root} rfl ?_ plugin hplugin
    rintro requirer _ rfl hrequires
    exact absurd (mem_requirers.mpr hrequires) (by simp [hstranded])

/-- A round that finds nothing more leaves a closed set. -/
theorem Removing.isLeast {taken : OrderedSet PluginId} (htaken : Removing graph root taken)
    (hdone : graph.orphans taken = some []) :
    IsLeast {closed | graph.RemovalClosed root closed} {plugin | plugin ∈ taken} := by
  obtain ⟨found, hfound, hmem⟩ := orphans_eq_some htaken.attached
  have hnone : found = [] := Option.some.inj (hfound.symm.trans hdone)
  subst hnone
  refine ⟨⟨htaken.attached, htaken.rooted, fun plugin member hmember hrequires =>
    htaken.requirer plugin member hmember hrequires, ?_⟩, fun closed hclosed plugin hplugin =>
    htaken.least closed hclosed plugin hplugin⟩
  intro provider member hmember hrequires _ hunnamed hall
  by_contra hnew
  exact List.not_mem_nil ((hmem provider).mpr ⟨⟨member, hmember, hrequires⟩, hnew, hunnamed, hall⟩)

/-- With fuel beyond the attached plugins a removal returns, and what it returns is least. -/
theorem removalClosure_eq_some (hgraph : graph.Grounded) (hroot : graph.Attached root)
    {fuel : Nat} (hfuel : graph.providers.size < fuel) :
    ∃ taken : OrderedSet PluginId,
      graph.removalClosure fuel root = some (.ok taken.toList) ∧
      IsLeast {closed | graph.RemovalClosed root closed} {plugin | plugin ∈ taken} ∧
      Removing graph root taken := by
  obtain ⟨required, hrequired, hremoving⟩ := removing_of_drain hroot hfuel
  have hcost := @untaken_plugins_card_le graph required
  obtain ⟨taken, htaken, hinvariant, hdone⟩ :=
    Rounds.saturate_spec (fun _ h => h.orphans hgraph) fuel hremoving (by omega)
  refine ⟨taken, ?_, hinvariant.isLeast hdone, hinvariant⟩
  rw [removalClosure, checkAttached_eq_ok hroot]
  simp [hrequired, htaken]

end AttachmentGraph

open AttachmentGraph

/-- A removal takes the least closed set. The loops end and no index panics; what survives
requires nothing removed and keeps a requirer, and an unstranding removal takes no other
named plugin. -/
theorem removalClosure_least (calls : List Attachment) (root : PluginId)
    (hroot : (attachedBy calls).Attached root) :
    ∃ removed : List PluginId,
      (∀ fuel, (attachedBy calls).providers.size < fuel →
        (attachedBy calls).removalClosure fuel root = some (.ok removed)) ∧
      removed.Pairwise (fun first second => compare first second = .lt) ∧
      removed.Nodup ∧
      IsLeast {taken | (attachedBy calls).RemovalClosed root taken} {plugin | plugin ∈ removed} ∧
      (∀ survivor, (attachedBy calls).Attached survivor → survivor ∉ removed →
        (∀ plugin ∈ removed, ¬(attachedBy calls).Requires survivor plugin) ∧
        (survivor ∉ (attachedBy calls).named →
          (∃ requirer, (attachedBy calls).Requires requirer survivor) →
          ∃ requirer, (attachedBy calls).Requires requirer survivor ∧ requirer ∉ removed)) ∧
      ((attachedBy calls).strandedBy root = .ok [] →
        ∀ plugin ∈ removed, plugin ∈ (attachedBy calls).named → plugin = root) := by
  have hgraph := grounded_attachedBy calls
  obtain ⟨taken, -, hleast, hremoving⟩ :=
    removalClosure_eq_some hgraph hroot (Nat.lt_succ_self _)
  have hclosed : (attachedBy calls).RemovalClosed root {plugin | plugin ∈ taken} := hleast.1
  have hlist : {plugin | plugin ∈ taken.toList} = {plugin | plugin ∈ taken} := by
    ext plugin
    exact ExtTreeSet.mem_toList
  have hsorted := ExtTreeSet.ordered_toList (t := taken)
  refine ⟨taken.toList, ?_, hsorted, ?_, hlist ▸ hleast, ?_, ?_⟩
  · intro fuel hfuel
    -- every fuel returns the least set, and there is only one
    obtain ⟨other, hother, hother', -⟩ := removalClosure_eq_some hgraph hroot hfuel
    have heq : other = taken := by
      refine ExtTreeSet.ext_mem fun plugin => ?_
      exact Set.ext_iff.mp (hother'.unique hleast) plugin
    rw [hother, heq]
  · refine hsorted.imp fun hlt heq => ?_
    subst heq
    rw [ReflOrd.compare_self] at hlt
    cases hlt
  · intro survivor hattached hsurvives
    rw [ExtTreeSet.mem_toList] at hsurvives
    refine ⟨?_, ?_⟩
    · intro plugin hplugin hrequires
      exact hsurvives
        (hclosed.requirer survivor plugin (ExtTreeSet.mem_toList.mp hplugin) hrequires)
    · rintro hunnamed ⟨requirer, hrequirer⟩
      by_contra hlost
      push Not at hlost
      have hall : ∀ requirer, (attachedBy calls).Requires requirer survivor → requirer ∈ taken :=
        fun requirer h => ExtTreeSet.mem_toList.mp (hlost requirer h)
      exact hsurvives (hclosed.orphan survivor requirer (hall requirer hrequirer) hrequirer
        hattached hunnamed hall)
  · intro hstranded plugin hplugin hnamed
    rw [strandedBy_eq_ok hroot] at hstranded
    exact hremoving.unnamed (Except.ok.inj hstranded) plugin (ExtTreeSet.mem_toList.mp hplugin)
      hnamed

/-- A provider attached for one plugin, and that plugin. -/
def providerAndRequirer : List Attachment :=
  [⟨⟨"P"⟩, ∅, false⟩, ⟨⟨"L"⟩, (∅ : OrderedSet PluginId).insert ⟨"P"⟩, true⟩]

theorem removalClosure_least_providerAndRequirer :
    ∃ removed : List PluginId,
      (∀ fuel, (attachedBy providerAndRequirer).providers.size < fuel →
        (attachedBy providerAndRequirer).removalClosure fuel ⟨"L"⟩ = some (.ok removed)) ∧
      IsLeast {taken | (attachedBy providerAndRequirer).RemovalClosed ⟨"L"⟩ taken}
        {plugin | plugin ∈ removed} ∧
      removed = [⟨"L"⟩, ⟨"P"⟩] := by
  obtain ⟨removed, hremoved, -, -, hleast, -⟩ :=
    removalClosure_least providerAndRequirer ⟨"L"⟩ (by decide +kernel)
  refine ⟨removed, hremoved, hleast, ?_⟩
  have hrun : (attachedBy providerAndRequirer).removalClosure 3 ⟨"L"⟩ =
      some (.ok [⟨"L"⟩, ⟨"P"⟩]) := by decide +kernel
  rw [hremoved 3 (by decide +kernel)] at hrun
  exact Except.ok.inj (Option.some.inj hrun)

end Plasmosome.Cell
