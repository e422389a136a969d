import Plasmosome.Backend.FakeAccount

/-!
# Calls that nothing makes fail

With no fault armed, a valid operation at a fresh address stands, and the exact
withdrawal of what it put there leaves the address as it was.
-/

namespace Plasmosome.Backend

open Foundation Std

/-- No owner has a fault armed. -/
def OwnerFaults.none : OwnerFaults := ⟨∅, ∅, ∅⟩

/-- A site that holds one standing object, issued with a record of the kind if there is one. -/
def Site.held (object : OsObject) (issued : Option GrantKind) : Site :=
  ⟨some ⟨object, issued, .none⟩, false, .none⟩

namespace FakeBackend

/-- No fault is armed on the backend. -/
structure Unarmed (backend : FakeBackend) : Prop where
  refusedOwners : backend.refusedOwners = ∅
  doomedOwners : backend.doomedOwners = ∅
  stalledOwners : backend.stalledOwners = ∅
  stuckHandles : backend.stuckHandles = ∅
  failingWithdrawals : backend.failingWithdrawals = ∅
  observationFault : backend.observationFault = none

/-- The backend has no row of any kind at the address. -/
structure Fresh (backend : FakeBackend) (handle : Handle) : Prop where
  standing : backend.state.objects[handle]? = none
  issued : backend.grants[handle]? = none
  incomplete : backend.incomplete[handle]? = none

theorem Unarmed.ownerFaults {backend : FakeBackend} (hunarmed : backend.Unarmed) :
    backend.ownerFaults = .none := by
  simp [FakeBackend.ownerFaults, OwnerFaults.none, hunarmed.refusedOwners, hunarmed.doomedOwners,
    hunarmed.stalledOwners]

/-- A fresh address of an unarmed backend is a vacant site. -/
theorem Represents.vacant {backend : FakeBackend} {sites : Handle → Site}
    (hbackend : backend.Represents sites) (hunarmed : backend.Unarmed) {handle : Handle}
    (hfresh : backend.Fresh handle) : sites handle = .vacant := by
  have hstanding := (hbackend.standing handle).symm.trans hfresh.standing
  have hunfinished := (hbackend.unfinished handle).symm.trans hfresh.incomplete
  have hholding := Site.holding_eq_none hstanding hunfinished
  have hstuck := (hbackend.stuck handle).symm
  have hfailing := (hbackend.failing handle).symm
  rw [hunarmed.stuckHandles, ExtTreeSet.contains_empty] at hstuck
  rw [hunarmed.failingWithdrawals, ExtTreeMap.getElem?_empty] at hfailing
  cases hsite : sites handle with
  | mk holding stuck failing =>
      rw [hsite] at hholding hstuck hfailing
      cases hholding
      cases hstuck
      cases hfailing
      rfl

end FakeBackend

namespace Site

variable {operation : UniverseOp}

theorem admitted_vacant (hvalid : operation.validate = .ok ()) :
    vacant.admitted .none operation = .ok () := by
  have hchecked : checked operation.object = .ok () :=
    checked_eq_ok.mpr (by simpa using hvalid)
  unfold admitted
  rw [hchecked]
  rfl

theorem grant_vacant (hvalid : operation.validate = .ok ()) (kind : GrantKind) :
    vacant.grant .none operation kind =
      (.ok (FakeBackend.issuedEntry operation kind), held operation.object (some kind)) := by
  unfold grant
  rw [admitted_vacant hvalid]
  rfl

theorem apply_vacant (hvalid : operation.validate = .ok ()) :
    vacant.apply .none operation = (.ok (), held operation.object .none) := by
  unfold apply
  rw [admitted_vacant hvalid]
  rfl

/-- Withdrawing exactly what stands leaves the site vacant, under either policy. -/
theorem withdraw_held (operation : UniverseOp) (issued : Option GrantKind) (drain : DrainSpec) :
    (held operation.object issued).withdraw .none operation.removal operation.owner drain =
      (.ok (), vacant) := by
  have hselected : (held operation.object issued).holding.filter (fun holding =>
      holding.object = operation.removal.object operation.owner) =
      some ⟨operation.object, issued, .none⟩ := by
    simp [held]
  have hstalled : (drain.policy = .graceful && ((held operation.object issued).stuck ||
      OwnerFaults.none.stalled.contains operation.owner)) = false := by
    simp [held, OwnerFaults.none]
  unfold withdraw
  simp only [hselected, hstalled, Bool.false_eq_true, if_false]
  rfl

theorem revoke_held (operation : UniverseOp) (kind : GrantKind) (drain : DrainSpec) :
    (held operation.object (some kind)).revoke .none operation.handle drain =
      (.ok (FakeBackend.issuedEntry operation kind), vacant) := by
  have hentry : (held operation.object (some kind)).entry =
      some (FakeBackend.issuedEntry operation kind) := by
    simp [entry, held, Holding.entry, FakeBackend.issuedEntry]
  have hremoval : (FakeBackend.issuedEntry operation kind).removal = operation.removal := by
    cases operation <;> rfl
  have howner : (FakeBackend.issuedEntry operation kind).owner = operation.owner := rfl
  unfold revoke
  simp only [hentry, hremoval, howner, withdraw_held]
  rfl

end Site

end Plasmosome.Backend
