import Plasmosome.Backend.AccountLaws
import Plasmosome.Backend.FakeRefinement

/-!
# The account of the in-memory backend

The rows of the account at an address are the readings of its site, so every
reachable backend gives a consistent account, and what one call does to the
account is what it does to one site.
-/

namespace Plasmosome.Backend

open Foundation Std

namespace FakeBackend

variable {backend : FakeBackend} {sites : Handle → Site}

/-- The unfinished effects, in address order. -/
def unfinishedRows (backend : FakeBackend) : List IncompleteEffect :=
  (OrderedMap.values backend.incomplete).map fun unfinished => ⟨unfinished.operation⟩

/-- The rows the three maps state. -/
def rows (backend : FakeBackend) : EnforcementSnapshot :=
  ⟨backend.state, OrderedMap.values backend.grants, backend.unfinishedRows⟩

namespace Represents

/-- A holding that reads an issued record is at the record's address. -/
theorem issued_keyed (hbackend : backend.Represents sites) :
    OrderedMap.Keyed LedgerEntry.handle backend.grants := by
  intro handle entry hentry
  rw [hbackend.issued handle] at hentry
  obtain ⟨holding, hholding, hhandle, -⟩ := Site.holding_of_entry hentry
  exact hhandle.symm.trans (hbackend.sound handle holding hholding).1

theorem unfinished_keyed (hbackend : backend.Represents sites) :
    OrderedMap.Keyed (fun unfinished : Unfinished => unfinished.operation.handle)
      backend.incomplete := by
  intro handle unfinished hunfinished
  rw [hbackend.unfinished handle] at hunfinished
  obtain ⟨holding, hholding, -, hobject⟩ := Site.holding_of_unfinished hunfinished
  obtain ⟨hhandle, -⟩ := hbackend.sound handle holding hholding
  rw [← hhandle, hobject, UniverseOp.object_handle]

theorem standingAt_rows (hbackend : backend.Represents sites) (handle : Handle) :
    backend.rows.standingAt handle = (sites handle).standing.toList := by
  rw [← hbackend.standing handle]
  exact backend.state.addressed.filter_values handle

theorem issuedAt_rows (hbackend : backend.Represents sites) (handle : Handle) :
    backend.rows.issuedAt handle = (sites handle).entry.toList := by
  rw [← hbackend.issued handle]
  exact hbackend.issued_keyed.filter_values handle

theorem incompleteAt_rows (hbackend : backend.Represents sites) (handle : Handle) :
    backend.rows.incompleteAt handle =
      (sites handle).unfinished.toList.map fun unfinished => ⟨unfinished.operation⟩ := by
  rw [← hbackend.unfinished handle, ← hbackend.unfinished_keyed.filter_values handle]
  simp only [EnforcementSnapshot.incompleteAt, rows, unfinishedRows, List.filter_map]
  rfl

theorem mem_unfinishedRows (hbackend : backend.Represents sites) {effect : IncompleteEffect} :
    effect ∈ backend.unfinishedRows ↔
      ∃ detail, (sites effect.handle).unfinished = some ⟨effect.operation, detail⟩ := by
  simp only [unfinishedRows, List.mem_map, OrderedMap.mem_values]
  constructor
  · rintro ⟨⟨operation, detail⟩, ⟨handle, hat⟩, rfl⟩
    have hkey := hbackend.unfinished_keyed handle _ hat
    refine ⟨detail, ?_⟩
    rw [← hat, hbackend.unfinished handle, ← hkey]
    rfl
  · rintro ⟨detail, hunfinished⟩
    exact ⟨_, ⟨_, (hbackend.unfinished effect.handle).trans hunfinished⟩, rfl⟩

theorem mem_standing (hbackend : backend.Represents sites) {object : OsObject}
    (hobject : object ∈ backend.state.values) :
    (sites object.handle).standing = some object := by
  rw [← hbackend.standing object.handle]
  exact backend.state.addressed.getElem? hobject

theorem mem_issued (hbackend : backend.Represents sites) {entry : LedgerEntry}
    (hentry : entry ∈ OrderedMap.values backend.grants) :
    (sites entry.handle).entry = some entry := by
  rw [← hbackend.issued entry.handle]
  exact hbackend.issued_keyed.getElem? hentry

/-- The rows of a represented backend agree. -/
theorem accepts (hbackend : backend.Represents sites) :
    Accepts backend.state (OrderedMap.values backend.grants) backend.unfinishedRows where
  standing_valid := by
    intro object hobject
    obtain ⟨holding, hholding, -, rfl⟩ := Site.holding_of_standing (hbackend.mem_standing hobject)
    exact (hbackend.sound _ holding hholding).2
  issued_valid := by
    intro entry hentry
    obtain ⟨holding, hholding, hhandle, hobject⟩ :=
      Site.holding_of_entry (hbackend.mem_issued hentry)
    obtain ⟨-, hvalid⟩ := hbackend.sound _ holding hholding
    rw [← hhandle, hobject]
    rw [hobject] at hvalid
    exact ⟨hvalid, rfl⟩
  incomplete_valid := by
    intro effect heffect
    obtain ⟨detail, hunfinished⟩ := hbackend.mem_unfinishedRows.mp heffect
    obtain ⟨holding, hholding, -, hobject⟩ := Site.holding_of_unfinished hunfinished
    have hvalid := (hbackend.sound _ holding hholding).2
    rw [hobject] at hvalid
    simpa using hvalid
  incomplete_nodup := by
    rw [unfinishedRows, List.map_map]
    exact hbackend.unfinished_keyed.nodup
  disjoint := by
    intro effect heffect
    obtain ⟨detail, hunfinished⟩ := hbackend.mem_unfinishedRows.mp heffect
    obtain ⟨holding, hholding, hfailure, -⟩ := Site.holding_of_unfinished hunfinished
    rw [hbackend.standing effect.handle, Site.standing, hholding]
    simp [Holding.standing, hfailure]
  issued_nodup := hbackend.issued_keyed.nodup
  backed := by
    intro entry hentry
    obtain ⟨holding, hholding, hhandle, hobject⟩ :=
      Site.holding_of_entry (hbackend.mem_issued hentry)
    have howner : holding.object.owner = entry.owner := congrArg OsObject.owner hobject
    have hcapability : holding.object.capability = entry.capability :=
      congrArg OsObject.capability hobject
    cases hfailure : holding.failure with
    | none =>
        refine .inl ⟨holding.object, ?_, howner, hcapability⟩
        rw [hbackend.standing entry.handle, Site.standing, hholding]
        simp [Holding.standing, hfailure]
    | some detail =>
        refine .inr ⟨⟨holding.object.operation⟩, ?_, ?_, ?_, ?_⟩
        · refine hbackend.mem_unfinishedRows.mpr ⟨detail, ?_⟩
          have heffect : IncompleteEffect.handle ⟨holding.object.operation⟩ = entry.handle := by
            simpa [IncompleteEffect.handle] using hhandle
          rw [heffect, Site.unfinished, hholding]
          simp [Holding.unfinished, hfailure]
        · simpa [IncompleteEffect.handle] using hhandle
        · simpa using howner
        · simpa using hcapability

/-- The rows of a represented backend are accepted in any order, and sorted into its own. -/
theorem account_of_perm (hbackend : backend.Represents sites) {grants : List LedgerEntry}
    {incomplete : List IncompleteEffect} (hgrants : grants.Perm backend.rows.grants)
    (hincomplete : incomplete.Perm backend.rows.incomplete) :
    EnforcementSnapshot.new backend.state grants incomplete = .ok backend.rows := by
  have haccepts : Accepts backend.state grants incomplete :=
    hbackend.accepts.of_perm hgrants hincomplete
  have hsorted : sortByKey IncompleteEffect.handle backend.unfinishedRows =
      backend.unfinishedRows :=
    sortByKey_of_pairwise (List.pairwise_map.mpr hbackend.unfinished_keyed.pairwise)
  refine EnforcementSnapshot.new_eq_ok_iff.mpr ⟨haccepts, ?_⟩
  rw [sortByKey_eq_of_perm hgrants haccepts.issued_nodup,
    sortByKey_eq_of_perm hincomplete haccepts.incomplete_nodup]
  simp only [rows, hsorted, hbackend.issued_keyed.sortByKey_values]

/-- A represented backend's account is its rows, as its maps hold them. -/
theorem account_eq (hbackend : backend.Represents sites) :
    backend.account = .ok backend.rows :=
  hbackend.account_of_perm (.refl _) (.refl _)

/-- A backend with no observation fault is observed as its rows. -/
theorem snapshotOsState_eq (hbackend : backend.Represents sites)
    (hfault : backend.observationFault = none) :
    backend.snapshotOsState = (.ok backend.rows, backend) := by
  unfold FakeBackend.snapshotOsState
  rw [hfault, hbackend.account_eq]

/-- The sites determine the account. -/
theorem rows_eq {after : FakeBackend} (hbackend : backend.Represents sites)
    (hafter : after.Represents sites) :
    after.rows = backend.rows := by
  have hstate : after.state = backend.state :=
    OsState.ext_objects (ExtTreeMap.ext_getElem? fun handle =>
      (hafter.standing handle).trans (hbackend.standing handle).symm)
  have hgrants : after.grants = backend.grants :=
    ExtTreeMap.ext_getElem? fun handle =>
      (hafter.issued handle).trans (hbackend.issued handle).symm
  have hincomplete : after.incomplete = backend.incomplete :=
    ExtTreeMap.ext_getElem? fun handle =>
      (hafter.unfinished handle).trans (hbackend.unfinished handle).symm
  simp only [rows, unfinishedRows, hstate, hgrants, hincomplete]

theorem consistent (hbackend : backend.Represents sites) : backend.rows.Consistent where
  disjoint := by
    intro handle
    rw [hbackend.standingAt_rows, hbackend.incompleteAt_rows]
    cases hunfinished : (sites handle).unfinished with
    | none => exact .inr rfl
    | some unfinished =>
        obtain ⟨holding, hholding, hfailure, -⟩ := Site.holding_of_unfinished hunfinished
        simp [Site.standing, hholding, Holding.standing, hfailure]
  backed := by
    intro entry hentry
    obtain ⟨⟨object, issued, failure⟩, hholding, -, rfl⟩ :=
      Site.holding_of_entry (hbackend.mem_issued hentry)
    rw [EnforcementSnapshot.rowsAt, hbackend.standingAt_rows, hbackend.incompleteAt_rows,
      Site.standing, Site.unfinished, hholding]
    cases failure <;> simp [Holding.standing, Holding.unfinished]
  standing_valid := hbackend.accepts.standing_valid
  issued_valid entry hentry := (hbackend.accepts.issued_valid entry hentry).1
  incomplete_valid := by
    intro effect heffect
    have hvalid := hbackend.accepts.incomplete_valid effect heffect
    rwa [UniverseOp.validate_eq_capability_validate] at hvalid

end Represents

/-- After any run the three maps agree, and an observation nothing makes fail returns them. -/
theorem snapshotOsState_final_consistent (inputs : List FakeInput) :
    let backend := machine.final .new inputs
    backend.rows.Consistent ∧
      (backend.observationFault = none →
        backend.snapshotOsState = (.ok backend.rows, backend)) := by
  obtain ⟨sites, hsites⟩ := final_represents inputs
  exact ⟨hsites.consistent, hsites.snapshotOsState_eq⟩

end FakeBackend

end Plasmosome.Backend
