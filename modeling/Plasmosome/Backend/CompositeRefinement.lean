import Plasmosome.Backend.CallEffects
import Plasmosome.Backend.Composite

/-!
# The composite over three in-memory leaves

Three leaves that split the sites of one flat backend by class answer every
call as the flat backend answers it, and the joined observation is the flat
account.
-/

namespace Plasmosome.Backend

open Foundation Std

theorem classBelongsTo_iff {leaf : Leaf} {«class» : UniverseClass} :
    classBelongsTo leaf «class» = true ↔ leafForClass «class» = leaf := by
  cases leaf <;> cases «class» <;> decide

/-- The address decides the leaf. -/
def leafOf (handle : Handle) : Leaf := leafForClass handle.class

theorem Leaf.nodup_all : Leaf.all.Nodup := by decide

theorem Leaf.mem_all (leaf : Leaf) : leaf ∈ Leaf.all := by
  cases leaf <;> decide

/-! ## Parts of a composite -/

namespace CompositeBackend

section Leaves

variable {Backend : Type}

@[simp] theorem leaf_setLeaf_self (composite : CompositeBackend Backend) (leaf : Leaf)
    (backend : Backend) : (composite.setLeaf leaf backend).leaf leaf = backend := by
  cases leaf <;> rfl

theorem leaf_setLeaf_of_ne (composite : CompositeBackend Backend) {leaf other : Leaf}
    (hne : other ≠ leaf) (backend : Backend) :
    (composite.setLeaf leaf backend).leaf other = composite.leaf other := by
  cases leaf <;> cases other <;> first | rfl | exact absurd rfl hne

@[simp] theorem setLeaf_leaf (composite : CompositeBackend Backend) (leaf : Leaf) :
    composite.setLeaf leaf (composite.leaf leaf) = composite := by
  cases leaf <;> rfl

theorem onLeaf_leaf_self {Result : Type} (composite : CompositeBackend Backend) (leaf : Leaf)
    (method : Backend → Result × Backend) :
    (composite.onLeaf leaf method).2.leaf leaf = (method (composite.leaf leaf)).2 :=
  composite.leaf_setLeaf_self leaf _

theorem onLeaf_leaf_of_ne {Result : Type} (composite : CompositeBackend Backend)
    {leaf other : Leaf} (hne : other ≠ leaf) (method : Backend → Result × Backend) :
    (composite.onLeaf leaf method).2.leaf other = composite.leaf other :=
  composite.leaf_setLeaf_of_ne hne _

end Leaves

/-- The composite routes a call to the leaf of the class it names. -/
theorem change_eq_onLeaf {Backend : Type} [EnforcementBackend Backend]
    (composite : CompositeBackend Backend) (call : HoldingCall) :
    EnforcementBackend.change composite call =
      composite.onLeaf (leafOf call.handle) (EnforcementBackend.change · call) := by
  cases call <;> rfl

end CompositeBackend

/-! ## Joining observations -/

/-- Objects at distinct addresses the state does not hold are joined to it. -/
theorem joinStanding_of_vacant {list : List OsObject} {state : OsState}
    (hnodup : (list.map OsObject.handle).Nodup)
    (hvacant : ∀ object ∈ list, state.objects[object.handle]? = none) :
    ∃ joined, joinStanding list state = .ok joined ∧ ∀ handle : Handle,
      joined.objects[handle]? =
        (list.find? fun object => object.handle = handle).or state.objects[handle]? := by
  induction list generalizing state with
  | nil => exact ⟨state, rfl, fun handle => rfl⟩
  | cons object rest ih =>
      obtain ⟨hfresh, hrest⟩ := List.nodup_cons.mp hnodup
      obtain ⟨hinserted, hobjects⟩ := OsState.insert_of_vacant (hvacant object List.mem_cons_self)
      have hlookup (handle : Handle) : (state.insert object).2.objects[handle]? =
          if object.handle = handle then some object else state.objects[handle]? := by
        rw [hobjects, OrderedMap.getElem?_insert']
      have hvacant' : ∀ other ∈ rest, (state.insert object).2.objects[other.handle]? = none := by
        intro other hother
        rw [hlookup, if_neg (fun heq : object.handle = other.handle =>
          hfresh (heq ▸ List.mem_map_of_mem hother))]
        exact hvacant other (List.mem_cons_of_mem _ hother)
      obtain ⟨joined, hjoined, hat⟩ := ih hrest hvacant'
      refine ⟨joined, ?_, fun handle => ?_⟩
      · rw [joinStanding]
        cases hinsert : state.insert object with
        | mk inserted after =>
            rw [hinsert] at hinserted hjoined
            cases hinserted
            exact hjoined
      · rw [hat, hlookup, List.find?_cons]
        by_cases heq : object.handle = handle
        · have hmiss : rest.find? (fun other => other.handle = handle) = none := by
            refine List.find?_eq_none.mpr fun other hother hsame => hfresh ?_
            rw [heq, ← of_decide_eq_true hsame]
            exact List.mem_map_of_mem hother
          simp [heq, hmiss]
        · simp [heq]

theorem onlyItsOwnClasses_eq_ok {leaf : Leaf} {observed : EnforcementSnapshot}
    (hissued : ∀ entry ∈ observed.grants, leafForClass entry.handle.class = leaf)
    (hstanding : ∀ object ∈ observed.state.values, leafForClass object.class = leaf)
    (hincomplete : ∀ effect ∈ observed.incomplete, leafForClass effect.handle.class = leaf) :
    onlyItsOwnClasses leaf observed = .ok () := by
  have hissued' : observed.grants.find?
      (fun entry => !classBelongsTo leaf entry.handle.class) = none := by
    refine List.find?_eq_none.mpr fun entry hentry => ?_
    simp [classBelongsTo_iff.mpr (hissued entry hentry)]
  have hstanding' : observed.state.values.find?
      (fun object => !classBelongsTo leaf object.class) = none := by
    refine List.find?_eq_none.mpr fun object hobject => ?_
    simp [classBelongsTo_iff.mpr (hstanding object hobject)]
  have hincomplete' : observed.incomplete.find?
      (fun effect => !classBelongsTo leaf effect.handle.class) = none := by
    refine List.find?_eq_none.mpr fun effect heffect => ?_
    simp [classBelongsTo_iff.mpr (hincomplete effect heffect)]
  simp only [onlyItsOwnClasses, hissued', hstanding', hincomplete']

/-- The maps of the leaves split the maps of one flat backend. -/
structure SplitsAccount (flat : FakeBackend) (composite : CompositeBackend FakeBackend) : Prop where
  standing : OrderedMap.Splits flat.state.objects
    (fun leaf => (composite.leaf leaf).state.objects) leafOf
  issued : OrderedMap.Splits flat.grants (fun leaf => (composite.leaf leaf).grants) leafOf
  unfinished : OrderedMap.Splits flat.incomplete
    (fun leaf => (composite.leaf leaf).incomplete) leafOf

namespace SplitsAccount

variable {flat : FakeBackend} {composite : CompositeBackend FakeBackend} {sites : Handle → Site}

/-- A leaf's account has rows of its own classes only. -/
theorem onlyItsOwnClasses_rows (hsplits : SplitsAccount flat composite)
    (hflat : flat.Represents sites) (leaf : Leaf) :
    onlyItsOwnClasses leaf (composite.leaf leaf).rows = .ok () := by
  refine onlyItsOwnClasses_eq_ok ?_ ?_ ?_
  · intro entry hentry
    have hat := (hsplits.issued.keyed hflat.issued_keyed leaf).getElem? hentry
    rw [hsplits.issued leaf] at hat
    exact (Option.ite_none_right_eq_some.mp hat).1
  · intro object hobject
    have hat := (composite.leaf leaf).state.addressed.getElem? hobject
    rw [hsplits.standing leaf] at hat
    exact (Option.ite_none_right_eq_some.mp hat).1
  · intro effect heffect
    obtain ⟨unfinished, hunfinished, rfl⟩ := List.mem_map.mp heffect
    have hat := (hsplits.unfinished.keyed hflat.unfinished_keyed leaf).getElem? hunfinished
    rw [hsplits.unfinished leaf] at hat
    exact (Option.ite_none_right_eq_some.mp hat).1

/-- Joining one leaf's standing objects adds exactly the flat objects of that leaf. -/
theorem joinStanding_leaf (hsplits : SplitsAccount flat composite) {leaf : Leaf}
    {rest : List Leaf} (hleaf : leaf ∉ rest) {state : OsState}
    (hstate : ∀ handle : Handle, state.objects[handle]? =
      if leafOf handle ∈ leaf :: rest then none else flat.state.objects[handle]?) :
    ∃ joined, joinStanding (composite.leaf leaf).state.values state = .ok joined ∧
      ∀ handle : Handle, joined.objects[handle]? =
        if leafOf handle ∈ rest then none else flat.state.objects[handle]? := by
  have hkeyed := (composite.leaf leaf).state.addressed
  have hvacant : ∀ object ∈ (composite.leaf leaf).state.values,
      state.objects[object.handle]? = none := by
    intro object hobject
    have hat := hkeyed.getElem? hobject
    rw [hsplits.standing leaf] at hat
    rw [hstate, if_pos (by simp [(Option.ite_none_right_eq_some.mp hat).1])]
  have hnodup : ((composite.leaf leaf).state.values.map OsObject.handle).Nodup := hkeyed.nodup
  obtain ⟨joined, hjoined, hlookup⟩ := joinStanding_of_vacant hnodup hvacant
  refine ⟨joined, hjoined, fun handle => ?_⟩
  have hfind : (composite.leaf leaf).state.values.find? (fun object => object.handle = handle) =
      (composite.leaf leaf).state.objects[handle]? := hkeyed.find?_values handle
  rw [hlookup, hfind, hsplits.standing leaf, hstate]
  by_cases heq : leafOf handle = leaf
  · rw [if_pos heq, if_pos (by simp [heq]), if_neg (by rwa [heq]), Option.or_none]
  · rw [if_neg heq, Option.none_or]
    simp [heq]

/-- What is still to be read is exactly what the state lacks. -/
theorem observeLeaves_eq (hsplits : SplitsAccount flat composite) (hflat : flat.Represents sites)
    (hobserved : ∀ leaf, (composite.leaf leaf).snapshotOsState =
      (.ok (composite.leaf leaf).rows, composite.leaf leaf))
    {leaves : List Leaf} (hnodup : leaves.Nodup) {state : OsState} {grants : List LedgerEntry}
    {incomplete : List IncompleteEffect}
    (hstate : ∀ handle : Handle, state.objects[handle]? =
      if leafOf handle ∈ leaves then none else flat.state.objects[handle]?) :
    composite.observeLeaves leaves state grants incomplete =
      (EnforcementSnapshot.new flat.state
        (grants ++ leaves.flatMap fun leaf => (composite.leaf leaf).rows.grants)
        (incomplete ++ leaves.flatMap fun leaf => (composite.leaf leaf).rows.incomplete),
        composite) := by
  induction leaves generalizing state grants incomplete with
  | nil =>
      have hall : state = flat.state :=
        OsState.ext_objects (ExtTreeMap.ext_getElem? fun handle => by simpa using hstate handle)
      simp [CompositeBackend.observeLeaves, hall]
  | cons leaf rest ih =>
      obtain ⟨hleaf, hrest⟩ := List.nodup_cons.mp hnodup
      obtain ⟨joined, hjoined, hlookup⟩ := hsplits.joinStanding_leaf hleaf hstate
      have hsnapshot : composite.leafSnapshot leaf =
          (.ok (composite.leaf leaf).rows, composite) := by
        change (composite.leaf leaf).snapshotOsState.map id (composite.setLeaf leaf) = _
        rw [hobserved leaf]
        simp
      have hstanding : (composite.leaf leaf).rows.state = (composite.leaf leaf).state := rfl
      simp only [CompositeBackend.observeLeaves, hsnapshot,
        hsplits.onlyItsOwnClasses_rows hflat leaf, hstanding, hjoined]
      rw [ih hrest hlookup]
      simp [List.flatMap_cons, List.append_assoc]

/-- The joined observation is the flat account. -/
theorem observeEveryLeaf_eq (hsplits : SplitsAccount flat composite)
    (hflat : flat.Represents sites)
    (hobserved : ∀ leaf, (composite.leaf leaf).snapshotOsState =
      (.ok (composite.leaf leaf).rows, composite.leaf leaf)) :
    composite.observeEveryLeaf = (.ok flat.rows, composite) := by
  have hempty (handle : Handle) : OsState.empty.objects[handle]? =
      if leafOf handle ∈ Leaf.all then none else flat.state.objects[handle]? := by
    rw [if_pos (Leaf.mem_all _)]
    exact ExtTreeMap.getElem?_empty
  have hgrants : (Leaf.all.flatMap fun leaf => (composite.leaf leaf).rows.grants).Perm
      flat.rows.grants :=
    hsplits.issued.perm hflat.issued_keyed Leaf.nodup_all fun handle => Leaf.mem_all _
  have hincomplete : (Leaf.all.flatMap fun leaf => (composite.leaf leaf).rows.incomplete).Perm
      flat.rows.incomplete := by
    have hunfinished := hsplits.unfinished.perm hflat.unfinished_keyed Leaf.nodup_all
      fun handle => Leaf.mem_all _
    have hrows := hunfinished.map fun unfinished => (⟨unfinished.operation⟩ : IncompleteEffect)
    rw [List.map_flatMap] at hrows
    exact hrows
  unfold CompositeBackend.observeEveryLeaf
  rw [hsplits.observeLeaves_eq hflat hobserved Leaf.nodup_all hempty]
  simp only [List.nil_append, Prod.mk.injEq, and_true]
  exact hflat.account_of_perm hgrants hincomplete

end SplitsAccount

/-! ## The simulation -/

/-- A leaf has the flat sites of its own classes and holds nothing elsewhere. -/
structure Carries (flat : FakeBackend) (sites : Handle → Site) (leaf : Leaf)
    (backend : FakeBackend) (leafSites : Handle → Site) : Prop where
  represents : backend.Represents leafSites
  own : ∀ handle, leafOf handle = leaf → leafSites handle = sites handle
  foreign : ∀ handle, leafOf handle ≠ leaf → (leafSites handle).holding = none
  ownerFaults : backend.ownerFaults = flat.ownerFaults
  observationFault : backend.observationFault = none

/-- The leaves together are the flat backend. -/
def Mirrors (flat : FakeBackend) (composite : CompositeBackend FakeBackend) : Prop :=
  ∃ sites, flat.Represents sites ∧ flat.observationFault = none ∧
    ∀ leaf, ∃ leafSites, Carries flat sites leaf (composite.leaf leaf) leafSites

section Simulation

variable {flat : FakeBackend} {composite : CompositeBackend FakeBackend} {sites : Handle → Site}

/-- One reading of the leaves' sites splits the same reading of the flat sites. -/
theorem splits_of_carries {Value : Type} {map : OrderedMap Handle Value}
    {parts : Leaf → OrderedMap Handle Value} {reading : Holding → Option Value}
    (hmap : OrderedMap.Reads map sites fun site => site.holding.bind reading)
    (hparts : ∀ leaf, ∃ leafSites, Carries flat sites leaf (composite.leaf leaf) leafSites ∧
      OrderedMap.Reads (parts leaf) leafSites fun site => site.holding.bind reading) :
    OrderedMap.Splits map parts leafOf := by
  intro leaf handle
  obtain ⟨leafSites, hcarries, hreads⟩ := hparts leaf
  rw [hreads handle, hmap handle]
  split
  next hown => rw [hcarries.own handle hown]
  next hforeign =>
    simp only
    rw [hcarries.foreign handle hforeign, Option.bind_none]

theorem Mirrors.splitsAccount (hflat : flat.Represents sites)
    (hleaves : ∀ leaf, ∃ leafSites, Carries flat sites leaf (composite.leaf leaf) leafSites) :
    SplitsAccount flat composite := by
  choose leafSites hcarries using hleaves
  exact {
    standing := splits_of_carries hflat.standing fun leaf =>
      ⟨_, hcarries leaf, (hcarries leaf).represents.standing⟩
    issued := splits_of_carries hflat.issued fun leaf =>
      ⟨_, hcarries leaf, (hcarries leaf).represents.issued⟩
    unfinished := splits_of_carries hflat.unfinished fun leaf =>
      ⟨_, hcarries leaf, (hcarries leaf).represents.unfinished⟩ }

/-- The joined observation of mirroring leaves is the flat account. -/
theorem Mirrors.observeEveryLeaf_eq (hmirrors : Mirrors flat composite) :
    flat.snapshotOsState = (.ok flat.rows, flat) ∧
      composite.observeEveryLeaf = (.ok flat.rows, composite) := by
  obtain ⟨sites, hflat, hfault, hleaves⟩ := hmirrors
  refine ⟨hflat.snapshotOsState_eq hfault, ?_⟩
  refine (Mirrors.splitsAccount hflat hleaves).observeEveryLeaf_eq hflat fun leaf => ?_
  obtain ⟨leafSites, hcarries⟩ := hleaves leaf
  exact hcarries.represents.snapshotOsState_eq hcarries.observationFault

/-- A move at an own address, alike on both sides. -/
theorem Carries.moved {leaf : Leaf} {backend : FakeBackend} {leafSites : Handle → Site}
    (hcarries : Carries flat sites leaf backend leafSites) {handle : Handle}
    (hown : leafOf handle = leaf) {Result : Type} {left right : Result × FakeBackend}
    {abstract : Result × Site} (hleft : flat.Refines sites handle left abstract)
    (hright : backend.Refines leafSites handle right abstract) :
    Carries left.2 (Function.update sites handle abstract.2) leaf right.2
      (Function.update leafSites handle abstract.2) where
  represents := hright.represents
  own := by
    intro other hother
    by_cases hat : other = handle
    · subst hat
      simp
    · rw [Function.update_of_ne hat, Function.update_of_ne hat]
      exact hcarries.own other hother
  foreign := by
    intro other hforeign
    have hat : other ≠ handle := by
      rintro rfl
      exact hforeign hown
    rw [Function.update_of_ne hat]
    exact hcarries.foreign other hforeign
  ownerFaults := by
    rw [hright.ownerFaults, hleft.ownerFaults]
    exact hcarries.ownerFaults
  observationFault := hright.observationFault.trans hcarries.observationFault

/-- A flat move at an address of another leaf. -/
theorem Carries.unmoved {leaf : Leaf} {backend : FakeBackend} {leafSites : Handle → Site}
    (hcarries : Carries flat sites leaf backend leafSites) {handle : Handle}
    (hforeign : leafOf handle ≠ leaf) {Result : Type} {left : Result × FakeBackend}
    {abstract : Result × Site} (hleft : flat.Refines sites handle left abstract) :
    Carries left.2 (Function.update sites handle abstract.2) leaf backend leafSites where
  represents := hcarries.represents
  own := by
    intro other hother
    have hat : other ≠ handle := by
      rintro rfl
      exact hforeign hother
    rw [Function.update_of_ne hat]
    exact hcarries.own other hother
  foreign := hcarries.foreign
  ownerFaults := hcarries.ownerFaults.trans hleft.ownerFaults.symm
  observationFault := hcarries.observationFault

/-- A call moves the site of its own leaf as it moves the flat site, and no other leaf. -/
theorem Mirrors.change (hmirrors : Mirrors flat composite) (call : HoldingCall) :
    (EnforcementBackend.change flat call).1 = (EnforcementBackend.change composite call).1 ∧
      Mirrors (EnforcementBackend.change flat call).2
        (EnforcementBackend.change composite call).2 := by
  obtain ⟨sites, hflat, hfault, hleaves⟩ := hmirrors
  obtain ⟨leafSites, hcarries⟩ := hleaves (leafOf call.handle)
  have hmoved := hflat.change_refines call
  have hleaf := hcarries.represents.change_refines call
  rw [hcarries.ownerFaults, hcarries.own call.handle rfl] at hleaf
  rw [composite.change_eq_onLeaf]
  refine ⟨hmoved.result.trans hleaf.result.symm, _, hmoved.represents,
    hmoved.observationFault.trans hfault, fun leaf => ?_⟩
  by_cases heq : leaf = leafOf call.handle
  · subst heq
    have hcarried := hcarries.moved rfl hmoved hleaf
    rw [composite.onLeaf_leaf_self]
    exact ⟨_, hcarried⟩
  · obtain ⟨otherSites, hother⟩ := hleaves leaf
    have hcarried := hother.unmoved (Ne.symm heq) hmoved
    rw [composite.onLeaf_leaf_of_ne heq]
    exact ⟨_, hcarried⟩

/-- One call of the contract, on both backends. -/
theorem Mirrors.simulates :
    (EnforcementBackend.machine FakeBackend).Simulates
      (EnforcementBackend.machine (CompositeBackend FakeBackend)) Mirrors := by
  intro flat composite call hmirrors
  cases call with
  | change call =>
      obtain ⟨hreply, hnext⟩ := hmirrors.change call
      exact ⟨congrArg BackendReply.change hreply, hnext⟩
  | snapshotOsState =>
      obtain ⟨hflat, hcomposite⟩ := hmirrors.observeEveryLeaf_eq
      have hleft : (EnforcementBackend.machine FakeBackend).step flat .snapshotOsState =
          (.account (.ok flat.rows), flat) :=
        congrArg (Prod.map BackendReply.account id) hflat
      have hright : (EnforcementBackend.machine (CompositeBackend FakeBackend)).step composite
          .snapshotOsState = (.account (.ok flat.rows), composite) :=
        congrArg (Prod.map BackendReply.account id) hcomposite
      rw [hleft, hright]
      exact ⟨rfl, hmirrors⟩

/-- Three copies of one backend that holds nothing mirror it. -/
theorem Mirrors.armed (faults : List Fault) :
    let armed := faults.foldl FakeBackend.arm .new
    Mirrors armed ⟨armed, armed, armed⟩ := by
  intro armed
  obtain ⟨sites, harmed, hholding⟩ :=
    FakeBackend.foldl_arm_represents faults FakeBackend.Represents.new fun _ => rfl
  have hfault : armed.observationFault = none :=
    FakeBackend.foldl_arm_observationFault faults .new
  refine ⟨sites, harmed, hfault, fun leaf => ⟨sites, ?_⟩⟩
  have hleaf : (⟨armed, armed, armed⟩ : CompositeBackend FakeBackend).leaf leaf = armed := by
    cases leaf <;> rfl
  rw [hleaf]
  exact ⟨harmed, fun _ _ => rfl, fun handle _ => hholding handle, rfl, hfault⟩

end Simulation

/-- The reply is not a failed observation. -/
def BackendReply.Observes : BackendReply → Prop
  | .change _ => True
  | .account result => ∃ snapshot, result = .ok snapshot

theorem Mirrors.step_observes (composite : CompositeBackend FakeBackend) (call : BackendCall)
    (hmirrors : ∃ flat, Mirrors flat composite) :
    ((EnforcementBackend.machine (CompositeBackend FakeBackend)).step composite call).1.Observes ∧
      ∃ flat, Mirrors flat
        ((EnforcementBackend.machine (CompositeBackend FakeBackend)).step composite call).2 := by
  obtain ⟨flat, hflat⟩ := hmirrors
  refine ⟨?_, _, (Mirrors.simulates flat composite call hflat).2⟩
  cases call with
  | change call => trivial
  | snapshotOsState =>
      have hobserved := congrArg Prod.fst hflat.observeEveryLeaf_eq.2
      exact ⟨flat.rows, hobserved⟩

/-- A composite over three empty leaves answers every sequence of calls as one empty backend does,
also when the same faults were armed on it and on each leaf; its every observation succeeds. -/
theorem composite_outputs_eq_flat (faults : List Fault) (calls : List BackendCall) :
    let armed := faults.foldl FakeBackend.arm .new
    ∃ composite, CompositeBackend.new armed armed armed = .ok composite ∧
      (EnforcementBackend.machine (CompositeBackend FakeBackend)).outputs composite calls =
        (EnforcementBackend.machine FakeBackend).outputs armed calls ∧
      ∀ reply ∈ (EnforcementBackend.machine (CompositeBackend FakeBackend)).outputs composite
        calls, reply.Observes := by
  intro armed
  have hmirrors := Mirrors.armed faults
  refine ⟨⟨armed, armed, armed⟩, ?_, (Mirrors.simulates.outputs_eq hmirrors calls).symm, ?_⟩
  · unfold CompositeBackend.new
    rw [hmirrors.observeEveryLeaf_eq.2]
  · exact Machine.outputs_forall _ Mirrors.step_observes ⟨armed, hmirrors⟩ calls

end Plasmosome.Backend
