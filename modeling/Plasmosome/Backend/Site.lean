import Plasmosome.Backend.Fake

/-!
# Addresses as independent sites

What a backend holds is one site for each address. A site holds nothing, a
standing holding or an unfinished one, and only calls naming its address move
it. The in-memory backend is a faithful presentation of such a family of sites:
its three maps are the three readings of the sites.
-/

namespace Plasmosome.Backend

open Foundation Std

/-- What one address holds: its object, the kind it was issued with if it was granted, and the detail
of the failure that left it unfinished if one did. -/
structure Holding where
  object : OsObject
  issued : Option GrantKind
  failure : Option String

/-- One address: its holding and the faults armed on it. -/
structure Site where
  holding : Option Holding
  stuck : Bool
  failing : Option String

/-- The faults armed on whole owners. -/
structure OwnerFaults where
  refused : OrderedMap CellOwner String
  doomed : OrderedMap CellOwner String
  stalled : OrderedSet CellOwner

namespace Holding

def standing (holding : Holding) : Option OsObject :=
  if holding.failure.isNone then some holding.object else none

def unfinished (holding : Holding) : Option Unfinished :=
  holding.failure.map fun detail => ⟨holding.object.operation, detail⟩

def entry (holding : Holding) : Option LedgerEntry :=
  holding.issued.map fun kind =>
    ⟨holding.object.handle, holding.object.owner, holding.object.capability, kind⟩

end Holding

namespace Site

/-- An address nothing was done to. -/
def vacant : Site := ⟨none, false, none⟩

def standing (site : Site) : Option OsObject := site.holding.bind Holding.standing

def unfinished (site : Site) : Option Unfinished := site.holding.bind Holding.unfinished

def entry (site : Site) : Option LedgerEntry := site.holding.bind Holding.entry

/-- A site at `handle` holds only a valid object of that address. -/
def Sound (handle : Handle) (site : Site) : Prop :=
  ∀ holding, site.holding = some holding →
    holding.object.handle = handle ∧ holding.object.capability.validate = .ok ()

/-- Whether a grant or apply may reach the site at all. -/
def admitted (faults : OwnerFaults) (site : Site) (operation : UniverseOp) :
    Except BackendError Unit :=
  match checked operation.object with
  | .error error => .error error
  | .ok () =>
      match site.unfinished with
      | some unfinished =>
          if unfinished.operation = operation then .error unfinished.error
          else .error (identityConflict operation.handle)
      | none =>
          match faults.refused[operation.owner]? with
          | some cause => .error (.fault cause)
          | none => .ok ()

/-- The first holding of a vacant site, which a doomed owner's operation leaves unfinished. -/
def start (faults : OwnerFaults) (site : Site) (operation : UniverseOp)
    (issued : Option GrantKind) : Except BackendError Unit × Site :=
  match faults.doomed[operation.owner]? with
  | some detail =>
      (.error (Unfinished.mk operation detail).error,
        { site with holding := some ⟨operation.object, none, some detail⟩ })
  | none => (.ok (), { site with holding := some ⟨operation.object, issued, none⟩ })

def grant (faults : OwnerFaults) (site : Site) (operation : UniverseOp) (kind : GrantKind) :
    Except BackendError LedgerEntry × Site :=
  match site.admitted faults operation with
  | .error error => (.error error, site)
  | .ok () =>
      let entry := FakeBackend.issuedEntry operation kind
      match site.entry with
      | some issued =>
          (if issued = entry then .ok issued else .error (identityConflict entry.handle), site)
      | none =>
          if site.standing.isSome then (.error (identityConflict entry.handle), site)
          else (site.start faults operation (some kind)).map (·.map fun _ => entry) id

def apply (faults : OwnerFaults) (site : Site) (operation : UniverseOp) :
    Except BackendError Unit × Site :=
  match site.admitted faults operation with
  | .error error => (.error error, site)
  | .ok () =>
      match site.standing with
      | some held =>
          (if held = operation.object then .ok ()
            else .error (identityConflict operation.handle), site)
      | none => site.start faults operation none

def plant (site : Site) (object : OsObject) : Except BackendError Unit × Site :=
  match checked object with
  | .error error => (.error error, site)
  | .ok () =>
      if site.unfinished.isSome then (.error (identityConflict object.handle), site)
      else
        match site.standing with
        | some held =>
            (if held = object then .ok () else .error (identityConflict object.handle), site)
        | none => (.ok (), { site with holding := some ⟨object, none, none⟩ })

/-- Withdraws the holding of exactly the selected object. -/
def withdraw (faults : OwnerFaults) (site : Site) (removal : UniverseRemoval) (owner : CellOwner)
    (drain : DrainSpec) : Except BackendError Unit × Site :=
  match site.holding.filter fun holding => holding.object = removal.object owner with
  | none =>
      (.error (.unknownObject removal.handle.class.asStr removal.key owner removal.handle.id),
        site)
  | some holding =>
      if drain.policy = .graceful && (site.stuck || faults.stalled.contains owner) then
        (.error (.drainTimedOut removal.handle drain.deadlineMs), site)
      else
        match site.failing with
        | some detail =>
            (.error (Unfinished.mk holding.object.operation detail).error,
              { site with
                holding := some { holding with failure := some detail }
                failing := none })
        | none => (.ok (), vacant)

def revoke (faults : OwnerFaults) (site : Site) (handle : Handle) (drain : DrainSpec) :
    Except BackendError LedgerEntry × Site :=
  match site.entry with
  | none => (.error (.unknownHandle handle), site)
  | some entry =>
      (site.withdraw faults entry.removal entry.owner drain).map (·.map fun _ => entry) id

/-- The answer of the site a call names, and the site after it. -/
def change (faults : OwnerFaults) (site : Site) : HoldingCall → HoldingReply × Site
  | .grant operation kind => (site.grant faults operation kind).map .entry id
  | .revoke handle drain => (site.revoke faults handle drain).map .entry id
  | .apply operation => (site.apply faults operation).map .done id
  | .applyRemoval removal owner drain => (site.withdraw faults removal owner drain).map .done id
  | .plant object => (site.plant object).map .done id

/-- The sites after a fault is armed. A fault of an owner is no site's. -/
def arm (sites : Handle → Site) : Fault → Handle → Site
  | .failNextWithdrawal handle detail =>
      Function.update sites handle { sites handle with failing := some detail }
  | .markStuck handle => Function.update sites handle { sites handle with stuck := true }
  | .failBeforeEffectForOwner .. | .failAfterEffectForOwner ..
  | .stallGracefulDrainsForOwner _ => sites

end Site

def OwnerFaults.arm (faults : OwnerFaults) : Fault → OwnerFaults
  | .failBeforeEffectForOwner owner cause =>
      { faults with refused := faults.refused.insert owner cause }
  | .failAfterEffectForOwner owner detail =>
      { faults with doomed := faults.doomed.insert owner detail }
  | .stallGracefulDrainsForOwner owner => { faults with stalled := faults.stalled.insert owner }
  | .failNextWithdrawal .. | .markStuck _ => faults

/-! ## The in-memory backend as a family of sites -/

def FakeBackend.ownerFaults (backend : FakeBackend) : OwnerFaults :=
  ⟨backend.refusedOwners, backend.doomedOwners, backend.stalledOwners⟩

/-- The backend's maps are the readings of `sites`. -/
structure FakeBackend.Represents (backend : FakeBackend) (sites : Handle → Site) : Prop where
  standing : OrderedMap.Reads backend.state.objects sites Site.standing
  issued : OrderedMap.Reads backend.grants sites Site.entry
  unfinished : OrderedMap.Reads backend.incomplete sites Site.unfinished
  stuck : ∀ handle, backend.stuckHandles.contains handle = (sites handle).stuck
  failing : OrderedMap.Reads backend.failingWithdrawals sites Site.failing
  sound : ∀ handle, (sites handle).Sound handle

/-! ## What a site reads -/

namespace Site

@[simp] theorem vacant_standing : vacant.standing = none := rfl
@[simp] theorem vacant_unfinished : vacant.unfinished = none := rfl
@[simp] theorem vacant_entry : vacant.entry = none := rfl

/-- A site that reads neither a standing nor an unfinished holding holds nothing. -/
theorem holding_eq_none {site : Site} (hstanding : site.standing = none)
    (hunfinished : site.unfinished = none) : site.holding = none := by
  obtain ⟨_ | ⟨object, issued, _ | detail⟩, stuck, failing⟩ := site
  · rfl
  · cases hstanding
  · cases hunfinished

/-- An unfinished reading comes from a holding that failed. -/
theorem holding_of_unfinished {site : Site} {unfinished : Unfinished}
    (hunfinished : site.unfinished = some unfinished) :
    ∃ holding, site.holding = some holding ∧ holding.failure = some unfinished.detail ∧
      holding.object = unfinished.operation.object := by
  obtain ⟨_ | ⟨object, issued, _ | detail⟩, stuck, failing⟩ := site
  · cases hunfinished
  · cases hunfinished
  · cases hunfinished
    exact ⟨_, rfl, rfl, (OsObject.operation_object _).symm⟩

/-- A standing reading comes from a holding that did not fail. -/
theorem holding_of_standing {site : Site} {object : OsObject}
    (hstanding : site.standing = some object) :
    ∃ holding, site.holding = some holding ∧ holding.failure = none ∧
      holding.object = object := by
  obtain ⟨_ | ⟨held, issued, _ | detail⟩, stuck, failing⟩ := site
  · cases hstanding
  · cases hstanding
    exact ⟨_, rfl, rfl, rfl⟩
  · cases hstanding

/-- An issued reading withdraws exactly the object of its holding. -/
theorem holding_of_entry {site : Site} {entry : LedgerEntry} (hentry : site.entry = some entry) :
    ∃ holding, site.holding = some holding ∧ holding.object.handle = entry.handle ∧
      holding.object = entry.removal.object entry.owner := by
  obtain ⟨_ | ⟨held, _ | kind, failure⟩, stuck, failing⟩ := site
  · cases hentry
  · cases hentry
  · cases hentry
    exact ⟨_, rfl, rfl, rfl⟩

theorem Sound.set {handle : Handle} {object : OsObject} (hhandle : object.handle = handle)
    (hvalid : object.capability.validate = .ok ()) (issued : Option GrantKind)
    (failure : Option String) (stuck : Bool) (failing : Option String) :
    Sound handle ⟨some ⟨object, issued, failure⟩, stuck, failing⟩ := by
  rintro holding ⟨⟩
  exact ⟨hhandle, hvalid⟩

/-- Arming a fault moves no holding. -/
theorem arm_holding (sites : Handle → Site) (fault : Fault) (handle : Handle) :
    (arm sites fault handle).holding = (sites handle).holding := by
  cases fault with
  | failNextWithdrawal at_ _ | markStuck at_ =>
      by_cases heq : handle = at_
      · subst heq
        simp [arm]
      · simp [arm, heq]
  | failBeforeEffectForOwner | failAfterEffectForOwner | stallGracefulDrainsForOwner => rfl

theorem sound_vacant (handle : Handle) : Sound handle vacant := by
  rintro holding ⟨⟩

end Site

theorem checked_eq_ok {object : OsObject} :
    checked object = .ok () ↔ object.capability.validate = .ok () := by
  unfold checked
  cases object.capability.validate <;> simp [Except.mapError]

theorem Site.admitted_eq_ok {faults : OwnerFaults} {site : Site} {operation : UniverseOp}
    (hadmitted : site.admitted faults operation = .ok ()) :
    operation.capability.validate = .ok () ∧ site.unfinished = none := by
  unfold Site.admitted at hadmitted
  split at hadmitted
  · cases hadmitted
  next hchecked =>
    refine ⟨checked_eq_ok.mp hchecked, ?_⟩
    split at hadmitted
    · split at hadmitted <;> cases hadmitted
    next hunfinished => exact hunfinished

/-- A broken rule is reported before anything happens. -/
theorem checked_error_complete {object : OsObject} {error : BackendError}
    (hchecked : checked object = .error error) : ¬ error.IsIncomplete := by
  unfold checked at hchecked
  cases hvalidate : object.capability.validate with
  | error refusal =>
      rw [hvalidate] at hchecked
      cases hchecked
      exact id
  | ok _ =>
      rw [hvalidate] at hchecked
      cases hchecked

end Plasmosome.Backend
