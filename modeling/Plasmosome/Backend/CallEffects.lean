import Plasmosome.Backend.FakeAccount

/-!
# What one call does to the account

A call moves one site. Refused, it leaves that site as it was, or leaves an
unfinished effect there that an exact forced removal clears. Every other
address keeps its rows.
-/

namespace Plasmosome.Backend

open Foundation Std

/-! ## One site -/

namespace Site

variable {faults : OwnerFaults} {site : Site}

/-- An unfinished site has no standing object. -/
theorem standing_eq_none (hunfinished : site.unfinished.isSome) : site.standing = none := by
  obtain ⟨unfinished, hsome⟩ := Option.isSome_iff_exists.mp hunfinished
  obtain ⟨holding, hholding, hfailure, -⟩ := holding_of_unfinished hsome
  simp [standing, hholding, Holding.standing, hfailure]

/-- A refusal leaves the site as it was, or leaves it unfinished with its record kept. -/
structure Settles {Result : Type} (site : Site) (answer : Except BackendError Result × Site) :
    Prop where
  refused : ∀ error, answer.1 = .error error → ¬ error.IsIncomplete → answer.2 = site
  incomplete : ∀ error, answer.1 = .error error → error.IsIncomplete →
    answer.2.unfinished.isSome ∧ answer.2.entry = site.entry

namespace Settles

variable {Result Result' : Type}

theorem ok (result : Result) (after : Site) :
    site.Settles ((.ok result, after) : Except BackendError Result × Site) where
  refused := nofun
  incomplete := nofun

theorem refuse {error : BackendError} (herror : ¬ error.IsIncomplete) :
    site.Settles ((.error error, site) : Except BackendError Result × Site) where
  refused _ _ _ := rfl
  incomplete := by
    rintro _ ⟨⟩ hincomplete
    exact absurd hincomplete herror

theorem unfinish {unfinished : Unfinished} {after : Site} (hafter : after.unfinished.isSome)
    (hentry : after.entry = site.entry) :
    site.Settles ((.error unfinished.error, after) : Except BackendError Result × Site) where
  refused := by
    rintro _ ⟨⟩ hcomplete
    exact absurd trivial hcomplete
  incomplete _ _ _ := ⟨hafter, hentry⟩

/-- The same, said of the refusal as a reply carries it. -/
theorem reply {answer : Except BackendError Result × Site} (hanswer : site.Settles answer) :
    (∀ error, refusal? answer.1 = some error → ¬ error.IsIncomplete → answer.2 = site) ∧
      ∀ error, refusal? answer.1 = some error → error.IsIncomplete →
        answer.2.unfinished.isSome ∧ answer.2.entry = site.entry := by
  obtain ⟨refusal | result, after⟩ := answer
  · constructor
    · rintro error ⟨⟩ hcomplete
      exact hanswer.refused _ rfl hcomplete
    · rintro error ⟨⟩ hincomplete
      exact hanswer.incomplete _ rfl hincomplete
  · exact ⟨nofun, nofun⟩

theorem map {answer : Except BackendError Result × Site} (hanswer : site.Settles answer)
    (wrap : Result → Result') : site.Settles (answer.map (·.map wrap) id) := by
  obtain ⟨_ | result, after⟩ := answer
  · constructor
    · rintro error ⟨⟩ hcomplete
      exact hanswer.refused _ rfl hcomplete
    · rintro error ⟨⟩ hincomplete
      exact hanswer.incomplete _ rfl hincomplete
  · exact ok (wrap result) after

end Settles

theorem admitted_settles {Result : Type} {operation : UniverseOp} {error : BackendError}
    (hadmitted : site.admitted faults operation = .error error) :
    site.Settles ((.error error, site) : Except BackendError Result × Site) := by
  unfold admitted at hadmitted
  split at hadmitted
  next refusal hchecked =>
    cases hadmitted
    exact Settles.refuse (checked_error_complete hchecked)
  next hchecked =>
    split at hadmitted
    next unfinished hunfinished =>
      split at hadmitted
      · cases hadmitted
        exact Settles.unfinish (by simp [hunfinished]) rfl
      · cases hadmitted
        exact Settles.refuse id
    next hunfinished =>
      split at hadmitted
      · cases hadmitted
        exact Settles.refuse id
      · cases hadmitted

/-- A vacant site starts with a standing holding or an unfinished one. -/
theorem start_settles (operation : UniverseOp) (issued : Option GrantKind)
    (hholding : site.holding = none) : site.Settles (site.start faults operation issued) := by
  unfold start
  split
  · refine Settles.unfinish rfl ?_
    simp [entry, hholding, Holding.entry]
  · exact Settles.ok _ _

theorem grant_settles (operation : UniverseOp) (kind : GrantKind) :
    site.Settles (site.grant faults operation kind) := by
  unfold grant
  split
  next error hadmitted => exact admitted_settles hadmitted
  next hadmitted =>
    obtain ⟨-, hunfinished⟩ := admitted_eq_ok hadmitted
    simp only
    split
    next issued hentry =>
      split
      · exact Settles.ok _ _
      · exact Settles.refuse id
    next hentry =>
      split
      · exact Settles.refuse id
      next hstanding =>
        have hholding := holding_eq_none (Option.not_isSome_iff_eq_none.mp hstanding) hunfinished
        exact (start_settles operation (some kind) hholding).map _

theorem apply_settles (operation : UniverseOp) : site.Settles (site.apply faults operation) := by
  unfold apply
  split
  next error hadmitted => exact admitted_settles hadmitted
  next hadmitted =>
    obtain ⟨-, hunfinished⟩ := admitted_eq_ok hadmitted
    split
    next held hstanding =>
      split
      · exact Settles.ok _ _
      · exact Settles.refuse id
    next hstanding => exact start_settles operation none (holding_eq_none hstanding hunfinished)

theorem plant_settles (object : OsObject) : site.Settles (site.plant object) := by
  unfold plant
  split
  next error hchecked => exact Settles.refuse (checked_error_complete hchecked)
  next hchecked =>
    split
    · exact Settles.refuse id
    · split
      next held hstanding =>
        split
        · exact Settles.ok _ _
        · exact Settles.refuse id
      · exact Settles.ok _ _

theorem withdraw_settles (removal : UniverseRemoval) (owner : CellOwner) (drain : DrainSpec) :
    site.Settles (site.withdraw faults removal owner drain) := by
  unfold withdraw
  split
  · exact Settles.refuse id
  next holding hselected =>
    obtain ⟨hholding, -⟩ := Option.filter_eq_some_iff.mp hselected
    split
    · exact Settles.refuse id
    · split
      · refine Settles.unfinish rfl ?_
        simp [entry, hholding, Holding.entry]
      · exact Settles.ok _ _

theorem revoke_settles (handle : Handle) (drain : DrainSpec) :
    site.Settles (site.revoke faults handle drain) := by
  unfold revoke
  split
  · exact Settles.refuse id
  next entry hentry =>
    exact (withdraw_settles entry.removal entry.owner drain).map _

/-- The exact forced removal of an unfinished operation empties its site. -/
theorem withdraw_forced {unfinished : Unfinished} {drain : DrainSpec}
    (hunfinished : site.unfinished = some unfinished) (hpolicy : drain.policy = .force)
    (hfailing : site.failing = none) :
    site.withdraw faults unfinished.operation.removal unfinished.operation.owner drain =
      (.ok (), vacant) := by
  obtain ⟨holding, hholding, -, hobject⟩ := holding_of_unfinished hunfinished
  have hselected : site.holding.filter (fun holding => holding.object =
      unfinished.operation.removal.object unfinished.operation.owner) = some holding := by
    simp [hholding, hobject]
  unfold withdraw
  simp only [hselected, hpolicy, hfailing]
  rfl

/-- One call as a refusal of its site, whatever the call returns. -/
theorem change_settles (call : HoldingCall) :
    (∀ error, (site.change faults call).1.error? = some error → ¬ error.IsIncomplete →
      (site.change faults call).2 = site) ∧
    ∀ error, (site.change faults call).1.error? = some error → error.IsIncomplete →
      (site.change faults call).2.unfinished.isSome ∧
        (site.change faults call).2.entry = site.entry := by
  cases call with
  | grant operation kind => exact (grant_settles operation kind).reply
  | revoke handle drain => exact (revoke_settles handle drain).reply
  | apply operation => exact (apply_settles operation).reply
  | applyRemoval removal owner drain => exact (withdraw_settles removal owner drain).reply
  | plant object => exact (plant_settles object).reply

end Site

namespace FakeBackend

variable {backend after : FakeBackend} {sites : Handle → Site}

/-- Accounts agree wherever their sites do. -/
theorem Represents.agreeAt {sites' : Handle → Site} (hbackend : backend.Represents sites)
    (hafter : after.Represents sites') {handle : Handle} (hsite : sites' handle = sites handle) :
    backend.rows.AgreeAt after.rows handle where
  standing := by rw [hafter.standingAt_rows, hbackend.standingAt_rows, hsite]
  issued := by rw [hafter.issuedAt_rows, hbackend.issuedAt_rows, hsite]
  incomplete := by rw [hafter.incompleteAt_rows, hbackend.incompleteAt_rows, hsite]

/-- An account has no row at an address. -/
structure ClearAt (rows : EnforcementSnapshot) (handle : Handle) : Prop where
  standing : rows.standingAt handle = []
  issued : rows.issuedAt handle = []
  incomplete : rows.incompleteAt handle = []

/-- The account shows an unfinished effect at the address, which its owner can still clear. -/
structure LeftUnfinished (before rows : EnforcementSnapshot) (after : FakeBackend)
    (handle : Handle) : Prop where
  incomplete : rows.incompleteAt handle ≠ []
  standing : rows.standingAt handle = []
  issued : rows.issuedAt handle ≠ [] ↔ before.issuedAt handle ≠ []
  /-- The exact forced removal by the operation's owner, whatever its deadline. -/
  cleared : ∀ effect ∈ rows.incompleteAt handle, ∀ drain : DrainSpec, drain.policy = .force →
    after.failingWithdrawals[handle]? = none →
      ∃ cleared emptied,
        after.applyRemoval effect.operation.removal effect.operation.owner drain =
          (.ok (), cleared) ∧
        cleared.account = .ok emptied ∧ ClearAt emptied handle

theorem Represents.leftUnfinished {sites' : Handle → Site} (hbackend : backend.Represents sites)
    (hafter : after.Represents sites') {handle : Handle}
    (hunfinished : (sites' handle).unfinished.isSome)
    (hentry : (sites' handle).entry = (sites handle).entry) :
    LeftUnfinished backend.rows after.rows after handle := by
  obtain ⟨unfinished, hsome⟩ := Option.isSome_iff_exists.mp hunfinished
  have hat : after.rows.incompleteAt handle = [⟨unfinished.operation⟩] := by
    rw [hafter.incompleteAt_rows, hsome]
    rfl
  refine ⟨by simp [hat], ?_, ?_, ?_⟩
  · rw [hafter.standingAt_rows, Site.standing_eq_none hunfinished]
    rfl
  · rw [hafter.issuedAt_rows, hbackend.issuedAt_rows, hentry]
  · intro effect heffect drain hpolicy hfailing
    rw [hat, List.mem_singleton] at heffect
    subst heffect
    have hhandle : unfinished.operation.removal.handle = handle := by
      rw [UniverseOp.removal_handle]
      exact hafter.unfinished_keyed handle unfinished ((hafter.unfinished handle).trans hsome)
    have hremoval := hafter.applyRemoval_refines unfinished.operation.removal
      unfinished.operation.owner drain
    rw [hhandle, Site.withdraw_forced hsome hpolicy ((hafter.failing handle).symm.trans hfailing)]
      at hremoval
    have hcleared := hremoval.represents
    refine ⟨_, _, Prod.ext hremoval.result rfl, hcleared.account_eq, ?_, ?_, ?_⟩
    · simp [hcleared.standingAt_rows]
    · simp [hcleared.issuedAt_rows]
    · simp [hcleared.incompleteAt_rows]

/-- What one call does to the account of any backend a run reaches: a call that fails before its
first effect changes nothing, one that fails after it leaves an unfinished effect at its own
address, and no call changes a row of another address. -/
theorem change_final_account (inputs : List FakeInput) (call : HoldingCall) :
    let backend := machine.final .new inputs
    let answer := EnforcementBackend.change backend call
    ∃ before rows, backend.account = .ok before ∧ answer.2.account = .ok rows ∧
      (∀ error, answer.1.error? = some error → ¬ error.IsIncomplete → rows = before) ∧
      (∀ handle, handle ≠ call.handle → before.AgreeAt rows handle) ∧
      ∀ error, answer.1.error? = some error → error.IsIncomplete →
        LeftUnfinished before rows answer.2 call.handle := by
  obtain ⟨sites, hsites⟩ := final_represents inputs
  intro backend answer
  have hanswer : backend.Refines sites call.handle answer _ := hsites.change_refines call
  have hafter := hanswer.represents
  obtain ⟨hrefused, hincomplete⟩ :=
    @Site.change_settles backend.ownerFaults (sites call.handle) call
  rw [← hanswer.result] at hrefused hincomplete
  refine ⟨_, _, hsites.account_eq, hafter.account_eq, ?_, ?_, ?_⟩
  · intro error herror hcomplete
    rw [hrefused error herror hcomplete, Function.update_eq_self] at hafter
    exact hsites.rows_eq hafter
  · intro handle hother
    exact hsites.agreeAt hafter (Function.update_of_ne hother _ _)
  · intro error herror hunfinished
    obtain ⟨hsome, hentry⟩ := hincomplete error herror hunfinished
    refine hsites.leftUnfinished hafter ?_ ?_
    · rwa [Function.update_self]
    · rwa [Function.update_self]

end FakeBackend

end Plasmosome.Backend
