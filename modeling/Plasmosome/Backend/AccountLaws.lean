import Plasmosome.Foundation.Checks
import Plasmosome.Backend.Account

/-!
# When an account is accepted

`EnforcementSnapshot.new` accepts exactly the rows that agree with each other,
and the accepted account depends on the order of its rows only up to sorting.
-/

namespace Plasmosome.Backend

open Foundation Std

theorem valid_eq_ok {address : Handle} {checked : Except RecipeError Unit} :
    valid address checked = .ok () ↔ checked = .ok () :=
  mapError_eq_ok

/-- The rows of an account agree: every capability is valid, no address is repeated, and each issued
record stands for one standing or incomplete row. -/
structure Accepts (state : OsState) (grants : List LedgerEntry)
    (incomplete : List IncompleteEffect) : Prop where
  standing_valid : ∀ object ∈ state.values, object.capability.validate = .ok ()
  issued_valid : ∀ entry ∈ grants,
    entry.capability.validate = .ok () ∧ entry.handle.class = entry.capability.class
  incomplete_valid : ∀ effect ∈ incomplete, effect.operation.validate = .ok ()
  incomplete_nodup : (incomplete.map IncompleteEffect.handle).Nodup
  disjoint : ∀ effect ∈ incomplete, state.objects[effect.handle]? = none
  issued_nodup : (grants.map LedgerEntry.handle).Nodup
  backed : ∀ entry ∈ grants,
    (∃ object, state.objects[entry.handle]? = some object ∧
      object.owner = entry.owner ∧ object.capability = entry.capability) ∨
    ∃ effect ∈ incomplete, effect.handle = entry.handle ∧
      effect.operation.owner = entry.owner ∧ effect.operation.capability = entry.capability

/-- Agreement does not depend on the order of the rows. -/
theorem Accepts.of_perm {state : OsState} {grants grants' : List LedgerEntry}
    {incomplete incomplete' : List IncompleteEffect} (haccepts : Accepts state grants incomplete)
    (hgrants : grants'.Perm grants) (hincomplete : incomplete'.Perm incomplete) :
    Accepts state grants' incomplete' where
  standing_valid := haccepts.standing_valid
  issued_valid entry hentry := haccepts.issued_valid entry (hgrants.subset hentry)
  incomplete_valid effect heffect := haccepts.incomplete_valid effect (hincomplete.subset heffect)
  incomplete_nodup := (hincomplete.map _).nodup_iff.mpr haccepts.incomplete_nodup
  disjoint effect heffect := haccepts.disjoint effect (hincomplete.subset heffect)
  issued_nodup := (hgrants.map _).nodup_iff.mpr haccepts.issued_nodup
  backed entry hentry := by
    obtain hstanding | ⟨effect, heffect, hrow⟩ := haccepts.backed entry (hgrants.subset hentry)
    · exact .inl hstanding
    · exact .inr ⟨effect, hincomplete.symm.subset heffect, hrow⟩

namespace EnforcementSnapshot

/-! ## The rows of an account at one address -/

def standingAt (snapshot : EnforcementSnapshot) (handle : Handle) : List OsObject :=
  snapshot.state.values.filter fun object => object.handle = handle

def issuedAt (snapshot : EnforcementSnapshot) (handle : Handle) : List LedgerEntry :=
  snapshot.grants.filter fun entry => entry.handle = handle

def incompleteAt (snapshot : EnforcementSnapshot) (handle : Handle) : List IncompleteEffect :=
  snapshot.incomplete.filter fun effect => effect.handle = handle

/-- The owner and capability of every standing or incomplete row at an address. -/
def rowsAt (snapshot : EnforcementSnapshot) (handle : Handle) :
    List (CellOwner × Capability) :=
  (snapshot.standingAt handle).map (fun object => (object.owner, object.capability)) ++
    (snapshot.incompleteAt handle).map fun effect =>
      (effect.operation.owner, effect.operation.capability)

/-- The three collections of an account agree. -/
structure Consistent (snapshot : EnforcementSnapshot) : Prop where
  disjoint : ∀ handle, snapshot.standingAt handle = [] ∨ snapshot.incompleteAt handle = []
  backed : ∀ entry ∈ snapshot.grants,
    snapshot.rowsAt entry.handle = [(entry.owner, entry.capability)]
  standing_valid : ∀ object ∈ snapshot.state.values, object.capability.validate = .ok ()
  issued_valid : ∀ entry ∈ snapshot.grants, entry.capability.validate = .ok ()
  incomplete_valid : ∀ effect ∈ snapshot.incomplete,
    effect.operation.capability.validate = .ok ()

/-- Two accounts hold the same rows at an address. -/
structure AgreeAt (before after : EnforcementSnapshot) (handle : Handle) : Prop where
  standing : after.standingAt handle = before.standingAt handle
  issued : after.issuedAt handle = before.issuedAt handle
  incomplete : after.incompleteAt handle = before.incompleteAt handle

/-! ## When each check succeeds -/

theorem checkStanding_eq_ok {state : OsState} :
    checkStanding state = .ok () ↔
      ∀ object ∈ state.values, object.capability.validate = .ok () := by
  simp only [checkStanding, forM_eq_ok, valid_eq_ok]

theorem checkIssued_eq_ok {grants : List LedgerEntry} :
    checkIssued grants = .ok () ↔ ∀ entry ∈ grants,
      entry.capability.validate = .ok () ∧ entry.handle.class = entry.capability.class := by
  simp only [checkIssued, forM_eq_ok, check_bind_eq_ok, valid_eq_ok, refuse_unless_eq_ok,
    ne_eq, not_not]

theorem checkIncomplete_eq_ok {incomplete : List IncompleteEffect} :
    checkIncomplete incomplete = .ok () ↔
      ∀ effect ∈ incomplete, effect.operation.validate = .ok () := by
  simp only [checkIncomplete, forM_eq_ok, valid_eq_ok]

section Collect

variable {Row : Type} {address : Row → Handle}

/-- Collecting succeeds exactly when no address is met twice. -/
theorem collect_isOk_iff {list : List Row} {rows : OrderedMap Handle Row} :
    (∃ collected, collect address list rows = .ok collected) ↔
      (list.map address).Nodup ∧ ∀ row ∈ list, rows[address row]? = none := by
  induction list generalizing rows with
  | nil => simp [collect]
  | cons head tail ih =>
      rw [collect]
      split
      next hmem =>
        have hsome := ExtTreeMap.mem_iff_isSome_getElem?.mp hmem
        constructor
        · rintro ⟨_, ⟨⟩⟩
        · rintro ⟨_, hvacant⟩
          simp [hvacant head List.mem_cons_self] at hsome
      next hmem =>
        have hvacant : rows[address head]? = none := ExtTreeMap.getElem?_eq_none hmem
        rw [ih, List.map_cons, List.nodup_cons, List.forall_mem_cons]
        simp only [OrderedMap.getElem?_insert', hvacant, true_and]
        constructor
        · rintro ⟨hnodup, hrows⟩
          refine ⟨⟨?_, hnodup⟩, fun row hrow => ?_⟩
          · intro hhead
            obtain ⟨row, hrow, heq⟩ := List.mem_map.mp hhead
            simpa [heq] using hrows row hrow
          · have hrow' := hrows row hrow
            split at hrow'
            · cases hrow'
            · exact hrow'
        · rintro ⟨⟨hhead, hnodup⟩, hrows⟩
          refine ⟨hnodup, fun row hrow => ?_⟩
          rw [if_neg (fun heq : address head = address row =>
            hhead (heq.symm ▸ List.mem_map_of_mem hrow))]
          exact hrows row hrow

/-- A collected row is the first of its address. -/
theorem collect_getElem? {list : List Row} {rows collected : OrderedMap Handle Row}
    (hcollect : collect address list rows = .ok collected) (handle : Handle) :
    collected[handle]? =
      (list.find? fun row => address row = handle).or rows[handle]? := by
  induction list generalizing rows with
  | nil =>
      cases hcollect
      rfl
  | cons head tail ih =>
      rw [collect] at hcollect
      split at hcollect
      · cases hcollect
      next hmem =>
        rw [ih hcollect, OrderedMap.getElem?_insert', List.find?_cons]
        by_cases heq : address head = handle
        · obtain ⟨_, hfresh⟩ := collect_isOk_iff.mp ⟨_, hcollect⟩
          have hmiss : tail.find? (fun row => address row = handle) = none := by
            refine List.find?_eq_none.mpr fun row hrow hsame => ?_
            have := hfresh row hrow
            simp_all [OrderedMap.getElem?_insert']
          simp [heq, hmiss]
        · simp [heq]

end Collect

theorem standingRows_getElem? (state : OsState) (handle : Handle) :
    (standingRows state)[handle]? =
      state.objects[handle]?.map fun object => (object.owner, object.capability) :=
  state.addressed.getElem?_ofList _ handle

theorem notMem_standingRows {state : OsState} {handle : Handle} :
    handle ∉ standingRows state ↔ state.objects[handle]? = none := by
  rw [ExtTreeMap.mem_iff_isSome_getElem?, standingRows_getElem?, Option.isSome_map,
    Option.not_isSome_iff_eq_none]

/-- The row a record stands for, when no address is both standing and incomplete. -/
theorem row_eq_some_iff {state : OsState} {incomplete : List IncompleteEffect}
    {unfinished : OrderedMap Handle IncompleteEffect}
    (hcollect : collect IncompleteEffect.handle incomplete ∅ = .ok unfinished)
    (hdisjoint : ∀ effect ∈ incomplete, state.objects[effect.handle]? = none)
    {handle : Handle} {owner : CellOwner} {capability : Capability} :
    row (standingRows state) unfinished handle = some (owner, capability) ↔
      (∃ object, state.objects[handle]? = some object ∧
        object.owner = owner ∧ object.capability = capability) ∨
      ∃ effect ∈ incomplete, effect.handle = handle ∧
        effect.operation.owner = owner ∧ effect.operation.capability = capability := by
  have hnodup := (collect_isOk_iff.mp ⟨_, hcollect⟩).1
  have hlookup := collect_getElem? hcollect handle
  simp only [ExtTreeMap.getElem?_empty, Option.or_none] at hlookup
  simp only [row, standingRows_getElem?, hlookup]
  cases hstanding : state.objects[handle]? with
  | some object =>
      have hmissing : ¬ ∃ effect ∈ incomplete, effect.handle = handle ∧
          effect.operation.owner = owner ∧ effect.operation.capability = capability := by
        rintro ⟨effect, heffect, rfl, _⟩
        simp [hdisjoint effect heffect] at hstanding
      simp [hmissing]
  | none =>
      simp only [Option.map_none, Option.none_or, reduceCtorEq, false_and, exists_false, false_or]
      cases hfind : incomplete.find? (fun effect => effect.handle = handle) with
      | none =>
          have hmiss := List.find?_eq_none.mp hfind
          simp only [Option.map_none, reduceCtorEq, false_iff, not_exists, not_and]
          intro effect heffect heq
          exact absurd (decide_eq_true heq) (hmiss effect heffect)
      | some effect =>
          have hmem := List.mem_of_find?_eq_some hfind
          have hhandle : effect.handle = handle := by simpa using List.find?_some hfind
          simp only [Option.map_some, Option.some.injEq, Prod.mk.injEq]
          constructor
          · rintro ⟨howner, hcapability⟩
            exact ⟨effect, hmem, hhandle, howner, hcapability⟩
          · rintro ⟨other, hother, heq, howner, hcapability⟩
            cases List.inj_on_of_nodup_map hnodup hmem hother (hhandle.trans heq.symm)
            exact ⟨howner, hcapability⟩

/-- Exactly the agreeing rows are accepted, and the account is then the sorted rows. -/
theorem new_eq_ok_iff {state : OsState} {grants : List LedgerEntry}
    {incomplete : List IncompleteEffect} {snapshot : EnforcementSnapshot} :
    new state grants incomplete = .ok snapshot ↔
      Accepts state grants incomplete ∧
        snapshot = ⟨state, sortByKey LedgerEntry.handle grants,
          sortByKey IncompleteEffect.handle incomplete⟩ := by
  rw [new, check_bind_eq_ok, check_bind_eq_ok, check_bind_eq_ok, bind_eq_ok,
    checkStanding_eq_ok, checkIssued_eq_ok, checkIncomplete_eq_ok]
  constructor
  · rintro ⟨hstanding, hissued, hincomplete, unfinished, hunfinished, h⟩
    have hnodup := (collect_isOk_iff.mp ⟨_, hunfinished⟩).1
    dsimp only at h
    split at h
    · cases h
    next hdisjoint =>
      replace hdisjoint : ∀ effect ∈ incomplete, state.objects[effect.handle]? = none := by
        intro effect heffect
        have hmiss := List.find?_eq_none.mp hdisjoint effect heffect
        exact notMem_standingRows.mp (by simpa using hmiss)
      obtain ⟨issued, hgrants, h⟩ := bind_eq_ok.mp h
      split at h
      · cases h
      next hagree =>
        split at h
        · cases h
        next hbacked =>
          refine ⟨⟨hstanding, hissued, hincomplete, hnodup, hdisjoint,
            (collect_isOk_iff.mp ⟨_, hgrants⟩).1, fun entry hentry => ?_⟩, (Except.ok.inj h).symm⟩
          rw [← row_eq_some_iff hunfinished hdisjoint]
          have hagree := List.find?_eq_none.mp hagree entry hentry
          have hbacked := List.find?_eq_none.mp hbacked entry hentry
          cases hrow : row (standingRows state) unfinished entry.handle with
          | none => simp [hrow] at hbacked
          | some held => simpa [hrow] using hagree
  · rintro ⟨haccepts, rfl⟩
    obtain ⟨unfinished, hunfinished⟩ := collect_isOk_iff.mpr
      ⟨haccepts.incomplete_nodup, fun effect _ => ExtTreeMap.getElem?_empty⟩
    obtain ⟨issued, hgrants⟩ := collect_isOk_iff.mpr
      ⟨haccepts.issued_nodup, fun entry _ => ExtTreeMap.getElem?_empty⟩
    refine ⟨haccepts.standing_valid, haccepts.issued_valid, haccepts.incomplete_valid,
      unfinished, hunfinished, ?_⟩
    have hdisjoint :
        incomplete.find? (fun effect => effect.handle ∈ standingRows state) = none := by
      refine List.find?_eq_none.mpr fun effect heffect => ?_
      simpa using notMem_standingRows.mpr (haccepts.disjoint effect heffect)
    have hrow : ∀ entry ∈ grants, row (standingRows state) unfinished entry.handle =
        some (entry.owner, entry.capability) := fun entry hentry =>
      (row_eq_some_iff hunfinished haccepts.disjoint).mpr (haccepts.backed entry hentry)
    have hagree : grants.find? (fun entry =>
        (row (standingRows state) unfinished entry.handle).any
          fun held => held ≠ (entry.owner, entry.capability)) = none := by
      refine List.find?_eq_none.mpr fun entry hentry => ?_
      simp [hrow entry hentry]
    have hbacked : grants.find? (fun entry =>
        (row (standingRows state) unfinished entry.handle).isNone) = none := by
      refine List.find?_eq_none.mpr fun entry hentry => ?_
      simp [hrow entry hentry]
    simp only [hdisjoint, hgrants, hagree, hbacked, bind, Except.bind]

end EnforcementSnapshot

end Plasmosome.Backend
