import Plasmosome.Foundation.Checks
import Plasmosome.Backend.Site

/-!
# The in-memory backend refines a family of sites

Every call answers as the site it names answers, moves that site as the site
moves, and leaves every other site alone.
-/

namespace Plasmosome.Backend

open Foundation Std

namespace FakeBackend

variable {backend : FakeBackend} {sites : Handle → Site}

/-- One call, seen at the site it names. -/
structure Refines (backend : FakeBackend) (sites : Handle → Site) (handle : Handle)
    {Result : Type} (concrete : Result × FakeBackend) (abstract : Result × Site) : Prop where
  result : concrete.1 = abstract.1
  represents : concrete.2.Represents (Function.update sites handle abstract.2)
  ownerFaults : concrete.2.ownerFaults = backend.ownerFaults
  observationFault : concrete.2.observationFault = backend.observationFault

theorem Refines.map {handle : Handle} {Result Result' : Type} {concrete : Result × FakeBackend}
    {abstract : Result × Site} (hrefines : backend.Refines sites handle concrete abstract)
    (wrap : Result → Result') :
    backend.Refines sites handle (concrete.map wrap id) (abstract.map wrap id) where
  result := congrArg wrap hrefines.result
  represents := hrefines.represents
  ownerFaults := hrefines.ownerFaults
  observationFault := hrefines.observationFault

namespace Represents

/-- An operation is admitted by the backend as by its site. -/
theorem admitted_eq (hbackend : backend.Represents sites) (operation : UniverseOp) :
    backend.admitted operation = (sites operation.handle).admitted backend.ownerFaults operation := by
  unfold admitted Site.admitted
  rw [hbackend.unfinished operation.handle]
  rfl

/-- A handle is occupied when an object stands at its site. -/
theorem occupied_eq (hbackend : backend.Represents sites) (handle : Handle) :
    backend.occupied handle = (sites handle).standing.isSome := by
  rw [← hbackend.standing handle, Bool.eq_iff_iff]
  simp only [occupied, OsState.values, List.any_eq_true, OrderedMap.mem_values,
    Bool.and_eq_true, decide_eq_true_eq, Option.isSome_iff_exists]
  constructor
  · rintro ⟨held, ⟨key, hkey⟩, hclass, hid⟩
    have hheld : held.handle = handle := by
      obtain ⟨_, _⟩ := handle
      exact congrArg₂ Handle.mk hclass hid
    have haddress := backend.state.addressed key held hkey
    exact ⟨held, by rw [← hheld, haddress, hkey]⟩
  · rintro ⟨held, hheld⟩
    have haddress := backend.state.addressed handle held hheld
    exact ⟨held, ⟨handle, hheld⟩, congrArg Handle.class haddress, congrArg Handle.id haddress⟩

/-- A call that changes nothing refines a site that stays as it is. -/
theorem unchanged (hbackend : backend.Represents sites) (handle : Handle) {Result : Type}
    (result : Result) : backend.Refines sites handle (result, backend) (result, sites handle) where
  result := rfl
  represents := by simpa using hbackend
  ownerFaults := rfl
  observationFault := rfl

theorem stuck_keep (hbackend : backend.Represents sites) {handle : Handle} {site : Site}
    (hsite : site.stuck = (sites handle).stuck) (at_ : Handle) :
    backend.stuckHandles.contains at_ = (Function.update sites handle site at_).stuck := by
  revert at_
  rw [Function.forall_update_iff sites
    fun at_ site => backend.stuckHandles.contains at_ = site.stuck]
  exact ⟨(hbackend.stuck handle).trans hsite.symm, fun at_ _ => hbackend.stuck at_⟩

theorem stuck_insert (hbackend : backend.Represents sites) {handle : Handle} {site : Site}
    (hsite : site.stuck = true) (at_ : Handle) :
    (backend.stuckHandles.insert handle).contains at_ =
      (Function.update sites handle site at_).stuck := by
  rw [ExtTreeSet.contains_insert]
  by_cases heq : handle = at_
  · subst heq
    simp [hsite]
  · rw [Function.update_of_ne (Ne.symm heq), ← hbackend.stuck at_]
    simp [heq]

theorem stuck_erase (hbackend : backend.Represents sites) {handle : Handle} {site : Site}
    (hsite : site.stuck = false) (at_ : Handle) :
    (backend.stuckHandles.erase handle).contains at_ =
      (Function.update sites handle site at_).stuck := by
  rw [ExtTreeSet.contains_erase]
  by_cases heq : handle = at_
  · subst heq
    simp [hsite]
  · rw [Function.update_of_ne (Ne.symm heq), ← hbackend.stuck at_]
    simp [heq]

theorem sound_update (hbackend : backend.Represents sites) {handle : Handle} {site : Site}
    (hsite : site.Sound handle) (at_ : Handle) :
    (Function.update sites handle site at_).Sound at_ := by
  revert at_
  rw [Function.forall_update_iff sites fun at_ site => site.Sound at_]
  exact ⟨hsite, fun at_ _ => hbackend.sound at_⟩

/-- The first effect of an admitted operation at a site that holds nothing. -/
theorem failAfterTheFirstEffect_refines (hbackend : backend.Represents sites)
    {operation : UniverseOp} {detail : String}
    (hvalid : operation.capability.validate = .ok ())
    (hholding : (sites operation.handle).holding = none) :
    ({ backend with
        incomplete := backend.incomplete.insert operation.handle ⟨operation, detail⟩ } :
        FakeBackend).Represents
      (Function.update sites operation.handle
        { sites operation.handle with holding := some ⟨operation.object, none, some detail⟩ }) where
  standing := hbackend.standing.keep (by simp [Site.standing, Holding.standing, hholding])
  issued := hbackend.issued.keep (by simp [Site.entry, Holding.entry, hholding])
  unfinished := hbackend.unfinished.insert (by simp [Site.unfinished, Holding.unfinished])
  stuck := hbackend.stuck_keep rfl
  failing := hbackend.failing.keep rfl
  sound := hbackend.sound_update (Site.Sound.set operation.object_handle hvalid _ _ _ _)

/-- A standing holding put at a site that holds nothing. -/
theorem stand_refines (hbackend : backend.Represents sites) {object : OsObject}
    (hvalid : object.capability.validate = .ok ())
    (hholding : (sites object.handle).holding = none) :
    ({ backend with state := (backend.state.insert object).2 } : FakeBackend).Represents
      (Function.update sites object.handle
        { sites object.handle with holding := some ⟨object, none, none⟩ }) where
  standing := by
    have hvacant : backend.state.objects[object.handle]? = none := by
      simp [hbackend.standing object.handle, Site.standing, hholding]
    rw [(OsState.insert_of_vacant hvacant).2]
    exact hbackend.standing.insert rfl
  issued := hbackend.issued.keep (by simp [Site.entry, Holding.entry, hholding])
  unfinished := hbackend.unfinished.keep (by simp [Site.unfinished, Holding.unfinished, hholding])
  stuck := hbackend.stuck_keep rfl
  failing := hbackend.failing.keep rfl
  sound := hbackend.sound_update (Site.Sound.set rfl hvalid _ _ _ _)

/-- A granted holding put at a site that holds nothing. -/
theorem issue_refines (hbackend : backend.Represents sites) {operation : UniverseOp}
    (kind : GrantKind) (hvalid : operation.capability.validate = .ok ())
    (hholding : (sites operation.handle).holding = none) :
    ({ backend with
        state := (backend.state.insert operation.object).2
        grants := backend.grants.insert operation.handle (issuedEntry operation kind) } :
        FakeBackend).Represents
      (Function.update sites operation.handle
        { sites operation.handle with holding := some ⟨operation.object, some kind, none⟩ }) where
  standing := by
    have hvacant : backend.state.objects[operation.object.handle]? = none := by
      simp [hbackend.standing operation.handle, Site.standing, hholding]
    rw [(OsState.insert_of_vacant hvacant).2, operation.object_handle]
    exact hbackend.standing.insert rfl
  issued := by
    refine hbackend.issued.insert ?_
    simp [Site.entry, Holding.entry, issuedEntry]
  unfinished := hbackend.unfinished.keep (by simp [Site.unfinished, Holding.unfinished, hholding])
  stuck := hbackend.stuck_keep rfl
  failing := hbackend.failing.keep rfl
  sound := hbackend.sound_update (Site.Sound.set operation.object_handle hvalid _ _ _ _)

theorem insert_fst_of_holding_eq_none (hbackend : backend.Represents sites) {object : OsObject}
    (hholding : (sites object.handle).holding = none) :
    (backend.state.insert object).1 = .ok true := by
  refine (OsState.insert_of_vacant ?_).1
  simp [hbackend.standing object.handle, Site.standing, hholding]

/-- A grant changes one site as the model of a site says. -/
theorem grant_refines (hbackend : backend.Represents sites) (operation : UniverseOp)
    (kind : GrantKind) :
    backend.Refines sites operation.handle (backend.grant operation kind)
      ((sites operation.handle).grant backend.ownerFaults operation kind) := by
  have hentryHandle : (issuedEntry operation kind).handle = operation.handle := rfl
  unfold grant Site.grant
  rw [hbackend.admitted_eq]
  cases hadmitted : (sites operation.handle).admitted backend.ownerFaults operation with
  | error error => exact hbackend.unchanged _ _
  | ok _ =>
      obtain ⟨hvalid, hunfinished⟩ := Site.admitted_eq_ok hadmitted
      simp only [hentryHandle, hbackend.issued operation.handle, hbackend.occupied_eq]
      cases hentry : (sites operation.handle).entry with
      | some issued =>
          by_cases hsame : issued = issuedEntry operation kind
          · simp only [if_pos hsame]
            exact hbackend.unchanged _ _
          · simp only [if_neg hsame]
            exact hbackend.unchanged _ _
      | none =>
          cases hstanding : (sites operation.handle).standing with
          | some held => exact hbackend.unchanged _ _
          | none =>
              have hholding := Site.holding_eq_none hstanding hunfinished
              simp only [Option.isSome_none, Bool.false_eq_true, if_false,
                failAfterTheFirstEffect, Site.start, ownerFaults]
              cases hdoomed : backend.doomedOwners[operation.owner]? with
              | some detail =>
                  exact ⟨rfl, hbackend.failAfterTheFirstEffect_refines hvalid hholding, rfl, rfl⟩
              | none =>
                  have hinserted : (backend.state.insert operation.object).1 = .ok true :=
                    hbackend.insert_fst_of_holding_eq_none (by rwa [operation.object_handle])
                  have hissued := hbackend.issue_refines kind hvalid hholding
                  cases hinsert : backend.state.insert operation.object with
                  | mk inserted state =>
                      simp only [hinsert] at hinserted hissued
                      cases hinserted
                      simp only [hinsert]
                      exact ⟨rfl, hissued, rfl, rfl⟩

theorem insert_standing (hbackend : backend.Represents sites) {object held : OsObject}
    (hstanding : (sites object.handle).standing = some held) :
    backend.state.insert object =
      if held = object then (.ok false, backend.state)
      else (.error (identityConflict object.handle), backend.state) :=
  OsState.insert_of_held ((hbackend.standing object.handle).trans hstanding)

/-- An apply changes one site as the model of a site says. -/
theorem apply_refines (hbackend : backend.Represents sites) (operation : UniverseOp) :
    backend.Refines sites operation.handle (backend.apply operation)
      ((sites operation.handle).apply backend.ownerFaults operation) := by
  unfold apply Site.apply
  rw [hbackend.admitted_eq]
  cases hadmitted : (sites operation.handle).admitted backend.ownerFaults operation with
  | error error => exact hbackend.unchanged _ _
  | ok _ =>
      obtain ⟨hvalid, hunfinished⟩ := Site.admitted_eq_ok hadmitted
      simp only [hbackend.occupied_eq]
      cases hstanding : (sites operation.handle).standing with
      | some held =>
          rw [← operation.object_handle] at hstanding
          simp only [Option.isSome_some, if_true, hbackend.insert_standing hstanding,
            operation.object_handle]
          by_cases hsame : held = operation.object
          · simp only [if_pos hsame]
            exact hbackend.unchanged _ _
          · simp only [if_neg hsame]
            exact hbackend.unchanged _ _
      | none =>
          have hholding := Site.holding_eq_none hstanding hunfinished
          simp only [Option.isSome_none, Bool.false_eq_true, if_false,
            failAfterTheFirstEffect, Site.start, ownerFaults]
          cases hdoomed : backend.doomedOwners[operation.owner]? with
          | some detail =>
              exact ⟨rfl, hbackend.failAfterTheFirstEffect_refines hvalid hholding, rfl, rfl⟩
          | none =>
              rw [← operation.object_handle] at hholding ⊢
              have hinserted := hbackend.insert_fst_of_holding_eq_none hholding
              have hstood := @stand_refines _ _ hbackend operation.object hvalid hholding
              cases hinsert : backend.state.insert operation.object with
              | mk inserted state =>
                  simp only [hinsert] at hinserted hstood
                  cases hinserted
                  simp only [hinsert]
                  exact ⟨rfl, hstood, rfl, rfl⟩

/-- A planted object changes one site. -/
theorem plant_refines (hbackend : backend.Represents sites) (object : OsObject) :
    backend.Refines sites object.handle (backend.plant object)
      ((sites object.handle).plant object) := by
  unfold plant Site.plant
  cases hchecked : checked object with
  | error error => exact hbackend.unchanged _ _
  | ok _ =>
      have hvalid := checked_eq_ok.mp hchecked
      simp only [object.operation_handle, ExtTreeMap.mem_iff_isSome_getElem?,
        hbackend.unfinished object.handle]
      cases hunfinished : (sites object.handle).unfinished with
      | some unfinished => exact hbackend.unchanged _ _
      | none =>
          simp only [Option.isSome_none, Bool.false_eq_true, if_false]
          cases hstanding : (sites object.handle).standing with
          | some held =>
              simp only [hbackend.insert_standing hstanding]
              by_cases hsame : held = object
              · simp only [if_pos hsame]
                exact hbackend.unchanged _ _
              · simp only [if_neg hsame]
                exact hbackend.unchanged _ _
          | none =>
              have hholding := Site.holding_eq_none hstanding hunfinished
              have hinserted := hbackend.insert_fst_of_holding_eq_none hholding
              have hstood := hbackend.stand_refines hvalid hholding
              cases hinsert : backend.state.insert object with
              | mk inserted state =>
                  simp only [hinsert] at hinserted hstood
                  cases hinserted
                  exact ⟨rfl, hstood, rfl, rfl⟩

/-- The backend's two tests for a withdrawal are one test of the site. -/
theorem withdrawable_eq (hbackend : backend.Represents sites) (removal : UniverseRemoval)
    (owner : CellOwner) :
    (backend.incomplete[removal.handle]?.any (·.operation.object = removal.object owner) ||
      backend.state.selects removal owner) =
    ((sites removal.handle).holding.filter (·.object = removal.object owner)).isSome := by
  rw [Bool.eq_iff_iff, Bool.or_eq_true, OsState.selects_iff, hbackend.standing removal.handle,
    hbackend.unfinished removal.handle]
  obtain ⟨holding, stuck, failing⟩ := sites removal.handle
  cases holding with
  | none => simp [Site.standing, Site.unfinished]
  | some holding =>
      obtain ⟨object, issued, failure⟩ := holding
      cases failure <;>
        simp [Site.standing, Site.unfinished, Holding.standing, Holding.unfinished]

/-- Taking the selected object leaves its address without a standing object. -/
theorem remove_reads (hbackend : backend.Represents sites) {removal : UniverseRemoval}
    {owner : CellOwner} {holding : Holding}
    (hholding : (sites removal.handle).holding = some holding)
    (hobject : holding.object = removal.object owner) {site : Site} (hsite : site.standing = none) :
    OrderedMap.Reads (backend.state.remove removal owner).2.objects
      (Function.update sites removal.handle site) Site.standing := by
  rw [OsState.remove_objects]
  split
  · exact hbackend.standing.erase hsite
  next hnot =>
    refine hbackend.standing.keep (hsite.trans ?_)
    rw [hbackend.standing removal.handle] at hnot
    simp only [Site.standing, hholding, Option.bind_some, Holding.standing, hobject] at hnot ⊢
    split at hnot
    · exact absurd rfl hnot
    next hfailed => rw [if_neg hfailed]

/-- A removal changes one site as the model of a site says. -/
theorem applyRemoval_refines (hbackend : backend.Represents sites) (removal : UniverseRemoval)
    (owner : CellOwner) (drain : DrainSpec) :
    backend.Refines sites removal.handle (backend.applyRemoval removal owner drain)
      ((sites removal.handle).withdraw backend.ownerFaults removal owner drain) := by
  unfold applyRemoval Site.withdraw
  have htest : (!(backend.incomplete[removal.handle]?.any
        (·.operation.object = removal.object owner)) && !backend.state.selects removal owner) =
      ((sites removal.handle).holding.filter (·.object = removal.object owner)).isNone := by
    rw [← Bool.not_or, hbackend.withdrawable_eq, Option.not_isSome]
  simp only [htest, hbackend.stuck removal.handle, hbackend.failing removal.handle]
  cases hselected : (sites removal.handle).holding.filter (·.object = removal.object owner) with
  | none => exact hbackend.unchanged _ _
  | some holding =>
      obtain ⟨hholding, hobject⟩ := Option.filter_eq_some_iff.mp hselected
      replace hobject : holding.object = removal.object owner := of_decide_eq_true hobject
      obtain ⟨hhandle, hvalid⟩ := hbackend.sound removal.handle holding hholding
      have hfaults : backend.ownerFaults.stalled = backend.stalledOwners := rfl
      simp only [Option.isNone_some, Bool.false_eq_true, if_false]
      rw [hfaults]
      by_cases hstalled : (drain.policy = .graceful &&
          ((sites removal.handle).stuck || backend.stalledOwners.contains owner)) = true
      · rw [if_pos hstalled, if_pos hstalled]
        exact hbackend.unchanged _ _
      · rw [if_neg hstalled, if_neg hstalled]
        cases hfailing : (sites removal.handle).failing with
        | some detail =>
            refine ⟨by rw [hobject], ?_, rfl, rfl⟩
            exact {
              standing := hbackend.remove_reads hholding hobject rfl
              issued := hbackend.issued.keep (by
                simp [Site.entry, hholding, Holding.entry])
              unfinished := hbackend.unfinished.insert (by
                simp [Site.unfinished, Holding.unfinished, hobject])
              stuck := hbackend.stuck_keep rfl
              failing := hbackend.failing.erase rfl
              sound := hbackend.sound_update (Site.Sound.set hhandle hvalid _ _ _ _) }
        | none =>
            refine ⟨rfl, ?_, rfl, rfl⟩
            exact {
              standing := hbackend.remove_reads hholding hobject rfl
              issued := hbackend.issued.erase rfl
              unfinished := hbackend.unfinished.erase rfl
              stuck := hbackend.stuck_erase rfl
              failing := hbackend.failing.keep hfailing.symm
              sound := hbackend.sound_update (Site.sound_vacant _) }

theorem recorded (hbackend : backend.Represents sites) (revocations : List Handle) :
    ({ backend with revocations } : FakeBackend).Represents sites :=
  ⟨hbackend.standing, hbackend.issued, hbackend.unfinished, hbackend.stuck, hbackend.failing,
    hbackend.sound⟩

/-- An issued record withdraws at its own address. -/
theorem entry_removal_handle (hbackend : backend.Represents sites) {handle : Handle}
    {entry : LedgerEntry} (hentry : (sites handle).entry = some entry) :
    entry.removal.handle = handle := by
  obtain ⟨holding, hholding, -, hobject⟩ := Site.holding_of_entry hentry
  obtain ⟨hhandle, -⟩ := hbackend.sound handle holding hholding
  rw [← hhandle, hobject]
  rfl

/-- A revoke changes one site as the model of a site says. -/
theorem revoke_refines (hbackend : backend.Represents sites) (handle : Handle)
    (drain : DrainSpec) :
    backend.Refines sites handle (backend.revoke handle drain)
      ((sites handle).revoke backend.ownerFaults handle drain) := by
  unfold revoke Site.revoke
  rw [hbackend.issued handle]
  cases hentry : (sites handle).entry with
  | none => exact hbackend.unchanged _ _
  | some entry =>
      have hremoval := hbackend.applyRemoval_refines entry.removal entry.owner drain
      rw [hbackend.entry_removal_handle hentry] at hremoval
      obtain ⟨hresult, hrepresents, howner, hobservation⟩ := hremoval
      simp only
      cases hconcrete : backend.applyRemoval entry.removal entry.owner drain with
      | mk result after =>
          cases habstract : (sites handle).withdraw backend.ownerFaults entry.removal entry.owner
              drain with
          | mk result' site =>
              simp only [hconcrete, habstract] at hresult hrepresents howner hobservation
              subst hresult
              cases result with
              | error error => exact ⟨rfl, hrepresents, howner, hobservation⟩
              | ok _ => exact ⟨rfl, hrepresents.recorded _, howner, hobservation⟩

/-- Every change of a holding refines the change of its site. -/
theorem change_refines (hbackend : backend.Represents sites) (call : HoldingCall) :
    backend.Refines sites call.handle (EnforcementBackend.change backend call)
      ((sites call.handle).change backend.ownerFaults call) := by
  cases call with
  | grant operation kind => exact (hbackend.grant_refines operation kind).map _
  | revoke handle drain => exact (hbackend.revoke_refines handle drain).map _
  | apply operation => exact (hbackend.apply_refines operation).map _
  | applyRemoval removal owner drain =>
      exact (hbackend.applyRemoval_refines removal owner drain).map _
  | plant object => exact (hbackend.plant_refines object).map _

/-! ## Armed faults and runs -/

theorem arm (hbackend : backend.Represents sites) (fault : Fault) :
    (backend.arm fault).Represents (Site.arm sites fault) := by
  cases fault with
  | failBeforeEffectForOwner owner cause | failAfterEffectForOwner owner detail
  | stallGracefulDrainsForOwner owner =>
      exact ⟨hbackend.standing, hbackend.issued, hbackend.unfinished, hbackend.stuck,
        hbackend.failing, hbackend.sound⟩
  | failNextWithdrawal handle detail =>
      exact {
        standing := hbackend.standing.keep rfl
        issued := hbackend.issued.keep rfl
        unfinished := hbackend.unfinished.keep rfl
        stuck := hbackend.stuck_keep rfl
        failing := hbackend.failing.insert rfl
        sound := hbackend.sound_update (hbackend.sound handle) }
  | markStuck handle =>
      exact {
        standing := hbackend.standing.keep rfl
        issued := hbackend.issued.keep rfl
        unfinished := hbackend.unfinished.keep rfl
        stuck := hbackend.stuck_insert rfl
        failing := hbackend.failing.keep rfl
        sound := hbackend.sound_update (hbackend.sound handle) }

theorem observed (hbackend : backend.Represents sites) (observationFault : Option String) :
    ({ backend with observationFault } : FakeBackend).Represents sites :=
  ⟨hbackend.standing, hbackend.issued, hbackend.unfinished, hbackend.stuck, hbackend.failing,
    hbackend.sound⟩

theorem snapshotOsState_represents (hbackend : backend.Represents sites) :
    backend.snapshotOsState.2.Represents sites := by
  unfold snapshotOsState
  split
  · exact hbackend.observed none
  · exact hbackend

/-- The family of vacant sites, at the empty backend. -/
theorem new : FakeBackend.new.Represents fun _ => .vacant where
  standing _ := ExtTreeMap.getElem?_empty
  issued _ := ExtTreeMap.getElem?_empty
  unfinished _ := ExtTreeMap.getElem?_empty
  stuck _ := ExtTreeSet.contains_empty
  failing _ := ExtTreeMap.getElem?_empty
  sound := Site.sound_vacant

end Represents

/-- Armed faults on a backend that holds nothing leave it holding nothing. -/
theorem foldl_arm_represents (faults : List Fault) (hbackend : backend.Represents sites)
    (hholding : ∀ handle, (sites handle).holding = none) :
    ∃ armed, (faults.foldl FakeBackend.arm backend).Represents armed ∧
      ∀ handle, (armed handle).holding = none := by
  induction faults generalizing backend sites with
  | nil => exact ⟨sites, hbackend, hholding⟩
  | cons fault rest ih =>
      refine ih (hbackend.arm fault) fun handle => ?_
      rw [Site.arm_holding]
      exact hholding handle

@[simp] theorem arm_ownerFaults (backend : FakeBackend) (fault : Fault) :
    (backend.arm fault).ownerFaults = backend.ownerFaults.arm fault := by
  cases fault <;> rfl

@[simp] theorem arm_observationFault (backend : FakeBackend) (fault : Fault) :
    (backend.arm fault).observationFault = backend.observationFault := by
  cases fault <;> rfl

theorem foldl_arm_observationFault (faults : List Fault) (backend : FakeBackend) :
    (faults.foldl FakeBackend.arm backend).observationFault = backend.observationFault := by
  induction faults generalizing backend with
  | nil => rfl
  | cons fault rest ih => rw [List.foldl_cons, ih, arm_observationFault]

/-- One step of a run keeps the backend a family of sites. -/
theorem step_represents (backend : FakeBackend) (input : FakeInput)
    (hbackend : ∃ sites, backend.Represents sites) :
    ∃ sites, (machine.step backend input).2.Represents sites := by
  obtain ⟨sites, hsites⟩ := hbackend
  cases input with
  | call call =>
      cases call with
      | change call => exact ⟨_, (hsites.change_refines call).represents⟩
      | snapshotOsState => exact ⟨sites, hsites.snapshotOsState_represents⟩
  | arm fault => exact ⟨_, hsites.arm fault⟩
  | failNextObservation cause => exact ⟨sites, hsites.observed (some cause)⟩

/-- Every run ends in a family of sites. -/
theorem final_represents (inputs : List FakeInput) :
    ∃ sites, (machine.final .new inputs).Represents sites :=
  machine.final_invariant step_represents ⟨_, Represents.new⟩ inputs

/-- Every backend that a run reaches represents some sites. -/
theorem Reachable.exists_sites (hreachable : backend.Reachable) :
    ∃ sites, backend.Represents sites := by
  obtain ⟨inputs, rfl⟩ := hreachable
  exact final_represents inputs

end FakeBackend

end Plasmosome.Backend
