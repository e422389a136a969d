import Plasmosome.Backend.Account

/-!
# What differs between two states

A difference lists the objects that one state holds and the other does not. Taking
the removed objects out of the first state and inserting the added ones gives the
second. Two states are canonically equivalent when they hold the same capabilities
for the same owners, whatever their grant identities.
-/

namespace Plasmosome.Backend

open Foundation Std

/-! ## Removals and insertions one after the other -/

namespace OsState

/-- Removes every object by its own removal and owner. All of them must be there. -/
def removeAll (state : OsState) : List OsObject → Option OsState
  | [] => some state
  | object :: rest =>
      match state.remove object.operation.removal object.owner with
      | (some _, next) => next.removeAll rest
      | (none, _) => none

/-- Inserts every object. All of their addresses must be vacant. -/
def insertAll (state : OsState) : List OsObject → Option OsState
  | [] => some state
  | object :: rest =>
      match state.insert object with
      | (.ok true, next) => next.insertAll rest
      | _ => none

variable {state next : OsState} {objects : List OsObject}

theorem ext_getElem? {left right : OsState}
    (hsame : ∀ address : Handle, left.objects[address]? = right.objects[address]?) : left = right :=
  ext_objects (ExtTreeMap.ext_getElem? hsame)

theorem remove_held {object : OsObject} (hheld : state.objects[object.handle]? = some object) :
    state.remove object.operation.removal object.owner =
      (some object,
        ⟨state.objects.erase object.handle, state.addressed.erase object.handle⟩) := by
  have hhandle : object.operation.removal.handle = object.handle := by simp
  have hselects : state.selects object.operation.removal object.owner = true := by
    rw [selects_iff, hhandle, hheld]
    have hobject := UniverseOp.removal_object object.operation
    rw [OsObject.operation_owner, OsObject.operation_object] at hobject
    rw [hobject]
  unfold remove
  rw [if_pos hselects]
  simp only [hhandle, hheld]

theorem insert_vacant {object : OsObject} (hvacant : state.objects[object.handle]? = none) :
    state.insert object = (.ok true, ⟨state.objects.insert object.handle object,
      state.addressed.insert object.handle object rfl⟩) := by
  unfold insert
  split
  next => rfl
  next held hheld => simp [hvacant] at hheld

/-- Objects at distinct addresses are removed one after the other when all of them are held. -/
theorem removeAll_held (hnodup : (objects.map OsObject.handle).Nodup)
    (hheld : ∀ object ∈ objects, state.objects[object.handle]? = some object) :
    ∃ next, state.removeAll objects = some next ∧ ∀ address : Handle, next.objects[address]? =
      if address ∈ objects.map OsObject.handle then none else state.objects[address]? := by
  induction objects generalizing state with
  | nil => exact ⟨state, rfl, fun address => by simp⟩
  | cons object rest ih =>
      obtain ⟨hfresh, hnodup⟩ := List.nodup_cons.mp hnodup
      have hrest : ∀ other ∈ rest, (OsState.mk (state.objects.erase object.handle)
          (state.addressed.erase object.handle)).objects[other.handle]? = some other := by
        intro other hother
        have hne : object.handle ≠ other.handle := by
          intro hsame
          exact hfresh (hsame ▸ List.mem_map_of_mem hother)
        rw [OrderedMap.getElem?_erase', if_neg hne]
        exact hheld other (List.mem_cons_of_mem _ hother)
      obtain ⟨next, hnext, hobjects⟩ := ih hnodup hrest
      refine ⟨next, ?_, fun address => ?_⟩
      · rw [removeAll, remove_held (hheld object List.mem_cons_self)]
        exact hnext
      · rw [hobjects address, OrderedMap.getElem?_erase']
        by_cases hhead : object.handle = address
        · simp [hhead]
        · simp [hhead, Ne.symm hhead]

/-- Objects at distinct vacant addresses are inserted one after the other. -/
theorem insertAll_vacant (hnodup : (objects.map OsObject.handle).Nodup)
    (hvacant : ∀ object ∈ objects, state.objects[object.handle]? = none) :
    ∃ next, state.insertAll objects = some next ∧ ∀ (address : Handle) (object : OsObject),
      next.objects[address]? = some object ↔
        object ∈ objects ∧ object.handle = address ∨ state.objects[address]? = some object := by
  induction objects generalizing state with
  | nil => exact ⟨state, rfl, fun address object => by simp⟩
  | cons head rest ih =>
      obtain ⟨hfresh, hnodup⟩ := List.nodup_cons.mp hnodup
      have hrest : ∀ other ∈ rest, (OsState.mk (state.objects.insert head.handle head)
          (state.addressed.insert head.handle head rfl)).objects[other.handle]? = none := by
        intro other hother
        have hne : head.handle ≠ other.handle := by
          intro hsame
          exact hfresh (hsame ▸ List.mem_map_of_mem hother)
        rw [OrderedMap.getElem?_insert', if_neg hne]
        exact hvacant other (List.mem_cons_of_mem _ hother)
      obtain ⟨next, hnext, hobjects⟩ := ih hnodup hrest
      refine ⟨next, ?_, fun address object => ?_⟩
      · rw [insertAll, insert_vacant (hvacant head List.mem_cons_self)]
        exact hnext
      · rw [hobjects address object, OrderedMap.getElem?_insert']
        by_cases hhead : head.handle = address
        · subst hhead
          rw [if_pos rfl, hvacant head List.mem_cons_self]
          constructor
          · rintro (⟨hmem, hsame⟩ | hsame)
            · exact Or.inl ⟨List.mem_cons_of_mem _ hmem, hsame⟩
            · cases hsame
              exact Or.inl ⟨List.mem_cons_self, rfl⟩
          · rintro (⟨hmem, hsame⟩ | hsame)
            · rcases List.mem_cons.mp hmem with rfl | hmem
              · exact Or.inr rfl
              · exact Or.inl ⟨hmem, hsame⟩
            · cases hsame
        · rw [if_neg hhead]
          constructor
          · rintro (⟨hmem, hsame⟩ | hsame)
            · exact Or.inl ⟨List.mem_cons_of_mem _ hmem, hsame⟩
            · exact Or.inr hsame
          · rintro (⟨hmem, hsame⟩ | hsame)
            · rcases List.mem_cons.mp hmem with rfl | hmem
              · exact absurd hsame hhead
              · exact Or.inl ⟨hmem, hsame⟩
            · exact Or.inr hsame

end OsState

/-! ## Differences -/

namespace Diff

variable {before after : OsState}

theorem mem_missing {object : OsObject} : object ∈ missing before after ↔
    after.objects[object.handle]? = some object ∧
      before.objects[object.handle]? ≠ some object := by
  unfold missing
  constructor
  · intro hmem
    obtain ⟨⟨address, held⟩, hfiltered, rfl⟩ := List.mem_map.mp hmem
    obtain ⟨hpair, hdiffers⟩ := List.mem_filter.mp hfiltered
    have hheld := ExtTreeMap.mem_toList_iff_getElem?_eq_some.mp hpair
    have haddress := after.addressed address held hheld
    subst haddress
    exact ⟨hheld, of_decide_eq_true hdiffers⟩
  · rintro ⟨hheld, hdiffers⟩
    refine List.mem_map.mpr ⟨(object.handle, object), List.mem_filter.mpr ⟨?_, ?_⟩, rfl⟩
    · exact ExtTreeMap.mem_toList_iff_getElem?_eq_some.mpr hheld
    · exact decide_eq_true hdiffers

/-- A difference lists its objects by address. -/
theorem missing_pairwise : (missing before after).Pairwise fun first second =>
    compare first.handle second.handle = .lt := by
  have hvalues := after.addressed.pairwise
  refine List.Pairwise.sublist ?_ hvalues
  exact List.Sublist.map Prod.snd List.filter_sublist

theorem missing_nodup : ((missing before after).map OsObject.handle).Nodup := by
  refine List.pairwise_map.mpr (missing_pairwise.imp ?_)
  intro first second hlt hsame
  rw [hsame, ReflOrd.compare_self] at hlt
  cases hlt

theorem between_isEmpty_iff : (between before after).isEmpty = true ↔ before = after := by
  constructor
  · intro hempty
    have hnone : missing before after = [] ∧ missing after before = [] := by
      simpa [isEmpty, between] using hempty
    have hhalf : ∀ {first second : OsState}, missing first second = [] →
        ∀ (address : Handle) (object : OsObject), second.objects[address]? = some object →
          first.objects[address]? = some object := by
      intro first second hmissing address object hobject
      have haddress := second.addressed address object hobject
      subst haddress
      by_contra hdiffers
      have hmem := mem_missing.mpr ⟨hobject, hdiffers⟩
      rw [hmissing] at hmem
      cases hmem
    refine OsState.ext_getElem? fun address => ?_
    ext object
    exact ⟨hhalf hnone.2 address object, hhalf hnone.1 address object⟩
  · rintro rfl
    exact between_self before

/-- Removing what is gone and inserting what is new leads from one state to the other. -/
theorem between_applies : ∃ middle, before.removeAll (between before after).removed = some middle ∧
    middle.insertAll (between before after).added = some after := by
  obtain ⟨middle, hmiddle, hobjects⟩ := @OsState.removeAll_held before (missing after before)
    missing_nodup fun object hmem => (mem_missing.mp hmem).1
  have hvacant : ∀ object ∈ missing before after, middle.objects[object.handle]? = none := by
    intro object hmem
    rw [hobjects]
    obtain ⟨hnew, hdiffers⟩ := mem_missing.mp hmem
    cases hold : before.objects[object.handle]? with
    | none => simp
    | some old =>
        have haddress := before.addressed _ _ hold
        rw [if_pos]
        refine List.mem_map.mpr ⟨old, mem_missing.mpr ⟨?_, ?_⟩, haddress⟩
        · rw [haddress, hold]
        · rw [haddress, hnew]
          intro hsame
          rw [hold] at hdiffers
          exact hdiffers hsame.symm
  obtain ⟨last, hlast, hheld⟩ := OsState.insertAll_vacant missing_nodup hvacant
  refine ⟨middle, hmiddle, hlast.trans (congrArg some (OsState.ext_getElem? fun address => ?_))⟩
  ext object
  rw [hheld address object, hobjects address]
  constructor
  · rintro (⟨hmem, rfl⟩ | hkept)
    · exact (mem_missing.mp hmem).1
    · split at hkept
      next => cases hkept
      next hstays =>
        have haddress := before.addressed address object hkept
        subst haddress
        by_contra hdiffers
        exact hstays (List.mem_map_of_mem (mem_missing.mpr ⟨hkept, hdiffers⟩))
  · intro hafter
    have haddress := after.addressed address object hafter
    subst haddress
    by_cases hsame : before.objects[object.handle]? = some object
    · refine Or.inr ?_
      rw [if_neg, hsame]
      intro hmem
      obtain ⟨other, hother, haddress⟩ := List.mem_map.mp hmem
      obtain ⟨hheld, hdiffers⟩ := mem_missing.mp hother
      rw [haddress, hsame, Option.some.injEq] at hheld
      subst hheld
      exact hdiffers hafter
    · exact Or.inl ⟨mem_missing.mpr ⟨hafter, hsame⟩, rfl⟩

end Diff

/-! ## Canonical equivalence -/

namespace OsState

/-- How often each owner holds each capability. -/
def canonicalMultiset (state : OsState) : Multiset (CellOwner × Capability) :=
  state.values.foldl (fun counts object => (object.owner, object.capability) ::ₘ counts) 0

/-- Compares owner, complete capability and multiplicity, and ignores grant identities. -/
def canonicallyEquivalent (state other : OsState) : Bool :=
  state.canonicalMultiset = other.canonicalMultiset

end OsState

/-- The object under another grant identity. -/
def OsObject.renamed (rename : UniverseClass → GrantId → GrantId) (object : OsObject) : OsObject :=
  { object with id := rename object.class object.id }

namespace OsState

/-- The state with every grant identity renamed, if no two objects meet at one address. -/
def renamed (rename : UniverseClass → GrantId → GrantId) (state : OsState) : Option OsState :=
  insertAll .empty (state.values.map (OsObject.renamed rename))

/-- A renaming keeps the held identities of each class apart. -/
def Separates (rename : UniverseClass → GrantId → GrantId) (state : OsState) : Prop :=
  ∀ first ∈ state.values, ∀ second ∈ state.values, first.class = second.class →
    rename first.class first.id = rename second.class second.id → first.id = second.id

theorem canonicalMultiset_eq (state : OsState) : state.canonicalMultiset =
    ((state.values.map fun object => (object.owner, object.capability) : List _) : Multiset _) := by
  have hfold : ∀ (objects : List OsObject) (counts : Multiset (CellOwner × Capability)),
      objects.foldl (fun counts object => (object.owner, object.capability) ::ₘ counts) counts =
        ((objects.map fun object => (object.owner, object.capability) : List _) : Multiset _) +
          counts := by
    intro objects
    induction objects with
    | nil => intro counts; simp
    | cons object rest ih =>
        intro counts
        rw [List.foldl_cons, ih, List.map_cons, ← Multiset.cons_coe, Multiset.add_cons,
          Multiset.cons_add]
  rw [canonicalMultiset, hfold, add_zero]

theorem canonicallyEquivalent_iff {state other : OsState} :
    state.canonicallyEquivalent other = true ↔ state.canonicalMultiset = other.canonicalMultiset :=
  decide_eq_true_iff

theorem canonicallyEquivalent_equivalence :
    Equivalence fun state other : OsState => state.canonicallyEquivalent other = true where
  refl _ := canonicallyEquivalent_iff.mpr rfl
  symm hsame := canonicallyEquivalent_iff.mpr (canonicallyEquivalent_iff.mp hsame).symm
  trans hfirst hsecond := canonicallyEquivalent_iff.mpr
    ((canonicallyEquivalent_iff.mp hfirst).trans (canonicallyEquivalent_iff.mp hsecond))

theorem mem_values_iff {state : OsState} {object : OsObject} :
    object ∈ state.values ↔ state.objects[object.handle]? = some object := by
  refine ⟨fun hmem => state.addressed.getElem? hmem, fun hheld => ?_⟩
  exact OrderedMap.mem_values.mpr ⟨object.handle, hheld⟩

/-- A renaming that keeps identities apart gives a state that differs in nothing else. -/
theorem renamed_equivalent {rename : UniverseClass → GrantId → GrantId} {state : OsState}
    (hseparates : state.Separates rename) :
    ∃ next, state.renamed rename = some next ∧
    next.canonicalMultiset = state.canonicalMultiset := by
  have hinjective : ∀ first ∈ state.values, ∀ second ∈ state.values,
      (first.renamed rename).handle = (second.renamed rename).handle → first = second := by
    intro first hfirst second hsecond hsame
    simp only [OsObject.handle, OsObject.renamed, OsObject.class, Handle.mk.injEq] at hsame
    have hid := hseparates first hfirst second hsecond hsame.1 hsame.2
    have hfirst := mem_values_iff.mp hfirst
    have hhandle : first.handle = second.handle := by
      simp only [OsObject.handle, OsObject.class, Handle.mk.injEq]
      exact ⟨hsame.1, hid⟩
    rw [hhandle, mem_values_iff.mp hsecond, Option.some.injEq] at hfirst
    exact hfirst.symm
  have hvalues : state.values.Nodup := state.addressed.values_nodup
  have hnodup : ((state.values.map (OsObject.renamed rename)).map OsObject.handle).Nodup := by
    rw [List.map_map]
    exact hvalues.map_on hinjective
  obtain ⟨next, hnext, hobjects⟩ := @insertAll_vacant .empty _ hnodup fun object _ => by
    simp [empty]
  refine ⟨next, hnext, ?_⟩
  have hperm : next.values.Perm (state.values.map (OsObject.renamed rename)) := by
    refine (List.perm_ext_iff_of_nodup next.addressed.values_nodup
      (List.Nodup.of_map _ hnodup)).mpr fun object => ?_
    change object ∈ next.values ↔ _
    rw [mem_values_iff, hobjects object.handle object]
    simp [empty]
  rw [canonicalMultiset_eq, canonicalMultiset_eq, Multiset.coe_eq_coe]
  refine (hperm.map _).trans (List.Perm.of_eq ?_)
  rw [List.map_map]
  rfl

end OsState

/-- A difference is empty exactly between equal states, lists its objects by address, has both
objects of an address whose object changed, and leads from the first state to the second.
Canonical equivalence is an equivalence, and a renaming of identities does not change it. -/
theorem diff_is_exact_and_applies (before after : OsState) :
    ((Diff.between before after).isEmpty = true ↔ before = after) ∧
    ((Diff.between before after).added.Pairwise fun first second =>
      compare first.handle second.handle = .lt) ∧
    ((Diff.between before after).removed.Pairwise fun first second =>
      compare first.handle second.handle = .lt) ∧
    (∀ (address : Handle) (old new : OsObject), before.objects[address]? = some old →
      after.objects[address]? = some new → old ≠ new →
      new ∈ (Diff.between before after).added ∧ old ∈ (Diff.between before after).removed) ∧
    (∃ middle, before.removeAll (Diff.between before after).removed = some middle ∧
      middle.insertAll (Diff.between before after).added = some after) ∧
    (Equivalence fun state other : OsState => state.canonicallyEquivalent other = true) ∧
    (∀ rename rename', before.Separates rename → after.Separates rename' →
      ∃ before' after', before.renamed rename = some before' ∧
        after.renamed rename' = some after' ∧ before'.canonicallyEquivalent before = true ∧
        before'.canonicallyEquivalent after' = before.canonicallyEquivalent after) := by
  refine ⟨Diff.between_isEmpty_iff, Diff.missing_pairwise, Diff.missing_pairwise, ?_,
    Diff.between_applies, OsState.canonicallyEquivalent_equivalence, ?_⟩
  · intro address old new hold hnew hne
    have hnewAddress := after.addressed address new hnew
    have holdAddress := before.addressed address old hold
    refine ⟨Diff.mem_missing.mpr ?_, Diff.mem_missing.mpr ?_⟩
    · rw [hnewAddress, hold]
      exact ⟨hnew, fun hsame => hne (Option.some.inj hsame)⟩
    · rw [holdAddress, hnew]
      exact ⟨hold, fun hsame => hne (Option.some.inj hsame).symm⟩
  · intro rename rename' hbefore hafter
    obtain ⟨before', hbefore', hsame⟩ := OsState.renamed_equivalent hbefore
    obtain ⟨after', hafter', hsame'⟩ := OsState.renamed_equivalent hafter
    refine ⟨before', after', hbefore', hafter', ?_, ?_⟩
    · exact OsState.canonicallyEquivalent_iff.mpr hsame
    · unfold OsState.canonicallyEquivalent
      rw [hsame, hsame']

end Plasmosome.Backend
