import Plasmosome.Backend.Unarmed
import Plasmosome.Reversal.Resume

/-!
# Attach, then detach

Each step of an attach puts one object at a fresh address and pushes the effect
that takes it back, or pushes an effect no call takes back. Detaching replays
them last first, so each step is undone at the sites it left, and the account
is what it was.
-/

namespace Plasmosome.Reversal

open Backend Foundation Std

/-! ## Steps of an attach -/

/-- How a step puts its object in place. -/
inductive Attachment where
  | granted (kind : GrantKind)
  | applied
deriving DecidableEq, Repr

/-- Which effect a step pushes for its object. -/
inductive Recording where
  | exactHandle
  | exactRemoval
  | compensating
deriving DecidableEq, Repr

/-- The kind of the record an attachment issues, if it issues one. -/
def Attachment.issued : Attachment → Option GrantKind
  | .granted kind => some kind
  | .applied => none

inductive AttachStep where
  | hold (operation : UniverseOp) (attachment : Attachment) (recording : Recording)
      (description : String)
  | delayed (description : String) (outbox : Outbox)
  | external (description : String) (policy : Policy)
deriving DecidableEq, Repr

namespace AttachStep

/-- The effect the step pushes. -/
def effect : AttachStep → Effect
  | .hold operation _ .exactHandle description =>
      Effect.exact description (.backend operation.handle)
  | .hold operation _ .exactRemoval description =>
      Effect.exact description (.universe operation.removal)
  | .hold operation _ .compensating description =>
      Effect.compensating description operation.removal
  | .delayed description outbox => ⟨description, .delayed outbox⟩
  | .external description policy => ⟨description, .external policy⟩

/-- The address the step takes, if it takes one. -/
def address : AttachStep → Option Handle
  | .hold operation _ _ _ => some operation.handle
  | .delayed .. | .external .. => none

/-- The step's call of the backend. -/
def perform {Backend : Type} [EnforcementBackend Backend] (backend : Backend) :
    AttachStep → Except BackendError Unit × Backend
  | .hold operation (.granted kind) _ _ =>
      (EnforcementBackend.grant backend operation kind).map (·.map fun _ => ()) id
  | .hold operation .applied _ _ => EnforcementBackend.apply backend operation
  | .delayed .. | .external .. => (.ok (), backend)

/-- The step holds a valid operation of this owner, and names it by handle only if it was
granted. -/
def Proper (owner : CellOwner) : AttachStep → Prop
  | .hold operation attachment recording _ =>
      operation.validate = .ok () ∧ operation.owner = owner ∧
        (recording = .exactHandle → attachment ≠ .applied)
  | .delayed .. | .external .. => True

end AttachStep

/-- Performs the steps and pushes their effects. -/
def attach {Backend : Type} [EnforcementBackend Backend] :
    List AttachStep → Backend → Ledger → Except BackendError (Backend × Ledger)
  | [], backend, ledger => .ok (backend, ledger)
  | step :: rest, backend, ledger =>
      match step.perform backend with
      | (.error error, _) => .error error
      | (.ok (), backend) => attach rest backend (ledger.push step.effect)

/-- The addresses the steps take, in order. -/
def addresses (steps : List AttachStep) : List Handle := steps.filterMap AttachStep.address

/-- A delayed effect that was never published, which detach discards. -/
def Effect.unpublished (effect : Effect) : Bool :=
  match effect.reversibility with
  | .delayed outbox => !outbox.published
  | .exact _ | .compensating _ | .external _ => false

namespace Effect

variable {owner : CellOwner} {drain : DrainSpec} {effect : Effect}

theorem unpublished_of_inverseCall {call : HoldingCall}
    (hcall : effect.inverseCall owner drain = some call) : effect.unpublished = false := by
  obtain ⟨description, ⟨_, _ | _⟩ | ⟨_⟩ | _ | _⟩ := effect <;> first | rfl | cases hcall

theorem unpublished_of_assertion {assertion : String}
    (hassertion : effect.assertion = some assertion) : effect.unpublished = false := by
  obtain ⟨description, _ | _ | ⟨channel, payload, _ | _⟩ | _⟩ := effect
  · cases hassertion
  · cases hassertion
  · cases hassertion
  · rfl
  · rfl

/-- An effect with no inverse and no assertion is a delayed one nobody published. -/
theorem unpublished_of_neither (hcall : effect.inverseCall owner drain = none)
    (hassertion : effect.assertion = none) : effect.unpublished = true := by
  obtain ⟨description, ⟨_, _ | _⟩ | ⟨_⟩ | ⟨channel, payload, _ | _⟩ | _⟩ := effect
  · cases hcall
  · cases hcall
  · cases hcall
  · rfl
  · cases hassertion
  · cases hassertion

end Effect

/-! ## The sites of an attach -/

namespace AttachStep

/-- The sites after the step. -/
def move (sites : Handle → Site) : AttachStep → Handle → Site
  | .hold operation attachment _ _ =>
      Function.update sites operation.handle
        (.held operation.object attachment.issued)
  | .delayed .. | .external .. => sites

theorem move_of_address_ne {sites : Handle → Site} {step : AttachStep} {handle : Handle}
    (hother : step.address ≠ some handle) : step.move sites handle = sites handle := by
  cases step with
  | hold operation attachment recording description =>
      have hne : handle ≠ operation.handle := fun heq => hother (congrArg some heq.symm)
      exact Function.update_of_ne hne _ _
  | delayed description outbox => rfl
  | external description policy => rfl

end AttachStep

/-- The sites after the steps. -/
def moved (sites : Handle → Site) (steps : List AttachStep) : Handle → Site :=
  steps.foldl AttachStep.move sites

theorem moved_of_notMem {steps : List AttachStep} {handle : Handle}
    (hother : handle ∉ addresses steps) (sites : Handle → Site) :
    moved sites steps handle = sites handle := by
  induction steps generalizing sites with
  | nil => rfl
  | cons step rest ih =>
      have hstep : step.address ≠ some handle := by
        intro heq
        exact hother (List.mem_filterMap.mpr ⟨step, List.mem_cons_self, heq⟩)
      have hrest : handle ∉ addresses rest := by
        intro hmem
        obtain ⟨later, hlater, haddress⟩ := List.mem_filterMap.mp hmem
        exact hother (List.mem_filterMap.mpr ⟨later, List.mem_cons_of_mem _ hlater, haddress⟩)
      rw [moved, List.foldl_cons]
      exact (ih hrest _).trans (AttachStep.move_of_address_ne hstep)

/-! ## One step, and its undoing -/

/-- A backend that is a family of sites and has no owner fault, with its observation fault. -/
structure Quiet (sites : Handle → Site) (observationFault : Option String)
    (backend : FakeBackend) : Prop where
  represents : backend.Represents sites
  ownerFaults : backend.ownerFaults = .none
  observationFault : backend.observationFault = observationFault

section Step

variable {sites : Handle → Site} {fault : Option String} {backend : FakeBackend}
  {owner : CellOwner}

theorem Quiet.of_refines {handle : Handle} {Result : Type} {concrete : Result × FakeBackend}
    {abstract : Result × Site} (hbackend : Quiet sites fault backend)
    (hrefines : backend.Refines sites handle concrete abstract) :
    Quiet (Function.update sites handle abstract.2) fault concrete.2 where
  represents := hrefines.represents
  ownerFaults := hrefines.ownerFaults.trans hbackend.ownerFaults
  observationFault := hrefines.observationFault.trans hbackend.observationFault

/-- A proper step at a vacant address succeeds and moves only that address. -/
theorem AttachStep.perform_ok {step : AttachStep} (hbackend : Quiet sites fault backend)
    (hproper : step.Proper owner)
    (hvacant : ∀ handle, step.address = some handle → sites handle = .vacant) :
    ∃ after, step.perform backend = (.ok (), after) ∧ Quiet (step.move sites) fault after := by
  cases step with
  | delayed description outbox => exact ⟨backend, rfl, hbackend⟩
  | external description policy => exact ⟨backend, rfl, hbackend⟩
  | hold operation attachment recording description =>
      obtain ⟨hvalid, -, -⟩ := hproper
      cases attachment with
      | granted kind =>
          have hrefines := hbackend.represents.grant_refines operation kind
          rw [hbackend.ownerFaults, hvacant _ rfl, Site.grant_vacant hvalid] at hrefines
          refine ⟨_, Prod.ext ?_ rfl, hbackend.of_refines hrefines⟩
          exact congrArg (·.map fun _ => ()) hrefines.result
      | applied =>
          have hrefines := hbackend.represents.apply_refines operation
          rw [hbackend.ownerFaults, hvacant _ rfl, Site.apply_vacant hvalid] at hrefines
          exact ⟨_, Prod.ext hrefines.result rfl, hbackend.of_refines hrefines⟩

/-- The call that undoes a step names its address and empties the site the step left. -/
theorem AttachStep.undo_held {operation : UniverseOp} {attachment : Attachment}
    {recording : Recording} {description : String} {drain : DrainSpec} {call : HoldingCall}
    (hproper : (AttachStep.hold operation attachment recording description).Proper owner)
    (hcall : (AttachStep.hold operation attachment recording description).effect.inverseCall
      owner drain = some call) :
    call.handle = operation.handle ∧
      ((Site.held operation.object attachment.issued).change .none call).1.error? = none ∧
      ((Site.held operation.object attachment.issued).change .none call).2 = .vacant := by
  obtain ⟨-, rfl, hgranted⟩ := hproper
  cases recording with
  | exactHandle =>
      cases hcall
      cases attachment with
      | applied => exact absurd rfl (hgranted rfl)
      | granted kind =>
          have hrevoke := Site.revoke_held operation kind drain
          refine ⟨rfl, ?_, ?_⟩
          · simp [Site.change, Attachment.issued, hrevoke, HoldingReply.error?, refusal?]
          · simp [Site.change, Attachment.issued, hrevoke]
  | exactRemoval | compensating =>
      cases hcall
      have hwithdraw := Site.withdraw_held operation attachment.issued drain
      refine ⟨operation.removal_handle, ?_, ?_⟩
      · simp [Site.change, hwithdraw, HoldingReply.error?, refusal?]
      · simp [Site.change, hwithdraw]

/-- The call that undoes a step succeeds and leaves the sites as they were before the step. -/
theorem AttachStep.undo_ok {step : AttachStep} {drain : DrainSpec} {call : HoldingCall}
    (hbackend : Quiet (step.move sites) fault backend) (hproper : step.Proper owner)
    (hvacant : ∀ handle, step.address = some handle → sites handle = .vacant)
    (hcall : step.effect.inverseCall owner drain = some call) :
    (EnforcementBackend.change backend call).1.error? = none ∧
      Quiet sites fault (EnforcementBackend.change backend call).2 := by
  cases step with
  | delayed description outbox => cases hcall
  | external description policy => cases hcall
  | hold operation attachment recording description =>
      obtain ⟨hhandle, hreply, hemptied⟩ := AttachStep.undo_held hproper hcall
      have hrefines := hbackend.represents.change_refines call
      rw [hbackend.ownerFaults, hhandle, AttachStep.move, Function.update_self] at hrefines
      have hafter := hbackend.of_refines hrefines
      rw [hemptied, AttachStep.move, Function.update_idem, ← hvacant operation.handle rfl,
        Function.update_eq_self] at hafter
      exact ⟨hrefines.result ▸ hreply, hafter⟩

/-- A step whose effect no call undoes moved no site. -/
theorem AttachStep.move_of_no_call {step : AttachStep} {drain : DrainSpec}
    (hcall : step.effect.inverseCall owner drain = none) (sites : Handle → Site) :
    step.move sites = sites := by
  cases step with
  | delayed description outbox => rfl
  | external description policy => rfl
  | hold operation attachment recording description => cases recording <;> cases hcall

end Step

/-! ## The whole attach, and the whole replay -/

section Run

variable {sites : Handle → Site} {fault : Option String} {backend : FakeBackend}
  {owner : CellOwner} {steps : List AttachStep}

theorem addresses_cons (step : AttachStep) (rest : List AttachStep) :
    addresses (step :: rest) = step.address.toList ++ addresses rest := by
  cases hstep : step.address <;> simp [addresses, hstep]

/-- Proper steps at distinct vacant addresses all succeed, and their effects are pushed in order. -/
theorem attach_ok (hbackend : Quiet sites fault backend)
    (hproper : ∀ step ∈ steps, step.Proper owner)
    (hvacant : ∀ handle ∈ addresses steps, sites handle = .vacant)
    (hnodup : (addresses steps).Nodup) (ledger : Ledger) :
    ∃ attached,
      attach steps backend ledger =
        .ok (attached, ⟨ledger.plugin, ledger.effects ++ steps.map AttachStep.effect⟩) ∧
      Quiet (moved sites steps) fault attached := by
  induction steps generalizing backend ledger sites with
  | nil => exact ⟨backend, by simp [attach], hbackend⟩
  | cons step rest ih =>
      rw [addresses_cons] at hvacant hnodup
      obtain ⟨-, hrest, hdisjoint⟩ := List.nodup_append'.mp hnodup
      obtain ⟨after, hperform, hafter⟩ := AttachStep.perform_ok hbackend
        (hproper step List.mem_cons_self) fun handle haddress =>
          hvacant handle (List.mem_append_left _ (by simp [haddress]))
      have hvacant' : ∀ handle ∈ addresses rest, step.move sites handle = .vacant := by
        intro handle hmem
        have hne : step.address ≠ some handle := by
          intro haddress
          exact hdisjoint (by simp [haddress]) hmem
        rw [AttachStep.move_of_address_ne hne]
        exact hvacant handle (List.mem_append_right _ hmem)
      obtain ⟨attached, hattach, hquiet⟩ := ih hafter
        (fun later hlater => hproper later (List.mem_cons_of_mem _ hlater)) hvacant' hrest
        (ledger.push step.effect)
      refine ⟨attached, ?_, hquiet⟩
      rw [attach, hperform]
      simpa [Ledger.push] using hattach

/-- The step at an index meets the sites of the steps before it, where its address is vacant. -/
theorem moved_take_vacant (hvacant : ∀ handle ∈ addresses steps, sites handle = .vacant)
    (hnodup : (addresses steps).Nodup) {index : Nat} (hindex : index < steps.length)
    {handle : Handle} (haddress : steps[index].address = some handle) :
    moved sites (steps.take index) handle = .vacant := by
  have hsplit : addresses steps =
      addresses (steps.take index) ++ addresses (steps.drop index) := by
    rw [addresses, addresses, addresses, ← List.filterMap_append, List.take_append_drop]
  have hlater : handle ∈ addresses (steps.drop index) := by
    rw [List.drop_eq_getElem_cons hindex, addresses_cons, haddress]
    exact List.mem_append_left _ (by simp)
  rw [hsplit] at hnodup hvacant
  have hnotMem : handle ∉ addresses (steps.take index) := fun hearlier =>
    (List.nodup_append'.mp hnodup).2.2 hearlier hlater
  rw [moved_of_notMem hnotMem]
  exact hvacant handle (List.mem_append_right _ hlater)

/-- Every replay from the sites of the first `pending` steps succeeds and restores the sites they
started from. -/
theorem replay_restores (hproper : ∀ step ∈ steps, step.Proper owner)
    (hvacant : ∀ handle ∈ addresses steps, sites handle = .vacant)
    (hnodup : (addresses steps).Nodup) (drain : DrainSpec) (forced : Option Force)
    (pending : Nat) (hpending : pending ≤ (steps.map AttachStep.effect).length)
    (asserted : List String) (report : DetachReport)
    (hbackend : Quiet (moved sites (steps.take pending)) fault backend) :
    ∃ final progress,
      replay owner (steps.map AttachStep.effect) drain forced pending hpending asserted backend
        report = (.ok final, progress) ∧
      Quiet sites fault progress.backend ∧
      final.replayed = report.replayed ++
        ((steps.take pending).map AttachStep.effect).reverse.filterMap Effect.undone ∧
      final.delayedDiscarded = report.delayedDiscarded +
        ((steps.take pending).map AttachStep.effect).countP Effect.unpublished := by
  induction pending generalizing backend asserted report with
  | zero => exact ⟨_, _, rfl, hbackend, by simp, by simp⟩
  | succ index ih =>
      have hindex : index < steps.length := by simpa using hpending
      have heffect : (steps.map AttachStep.effect)[index] = steps[index].effect := by simp
      have htake := List.take_succ_eq_append_getElem hindex
      have hmoved : moved sites (steps.take (index + 1)) =
          steps[index].move (moved sites (steps.take index)) := by
        rw [htake, moved, List.foldl_append]
        rfl
      have hvacantAt : ∀ handle, steps[index].address = some handle →
          moved sites (steps.take index) handle = .vacant := fun handle =>
        moved_take_vacant hvacant hnodup hindex
      have hproperAt := hproper steps[index] (List.getElem_mem hindex)
      rw [hmoved] at hbackend
      rw [replay, htake, List.map_append, List.reverse_append, List.filterMap_append,
        List.countP_append]
      simp only [heffect, List.map_cons, List.map_nil, List.reverse_singleton]
      cases hcall : steps[index].effect.inverseCall owner drain with
      | some call =>
          obtain ⟨hreply, hquiet⟩ := AttachStep.undo_ok hbackend hproperAt hvacantAt hcall
          obtain ⟨-, -, hundone, -⟩ := Effect.of_inverseCall hcall
          obtain ⟨final, progress, hreplay, hrestored, hreplayed, hdiscarded⟩ :=
            ih (Nat.le_of_succ_le hpending) asserted
              { report with replayed := report.replayed ++ [steps[index].effect.description] }
              hquiet
          refine ⟨final, progress, ?_, hrestored, ?_, ?_⟩
          · simp only [hreply]
            exact hreplay
          · simp [hreplayed, hundone]
          · simp [hdiscarded, Effect.unpublished_of_inverseCall hcall]
      | none =>
          rw [AttachStep.move_of_no_call hcall] at hbackend
          obtain ⟨-, hundone⟩ := Effect.of_no_inverseCall hcall
          cases hassertion : steps[index].effect.assertion with
          | some assertion =>
              obtain ⟨final, progress, hreplay, hrestored, hreplayed, hdiscarded⟩ :=
                ih (Nat.le_of_succ_le hpending) (asserted ++ [assertion]) report hbackend
              refine ⟨final, progress, hreplay, hrestored, ?_, ?_⟩
              · simp [hreplayed, hundone]
              · simp [hdiscarded, Effect.unpublished_of_assertion hassertion]
          | none =>
              obtain ⟨final, progress, hreplay, hrestored, hreplayed, hdiscarded⟩ :=
                ih (Nat.le_of_succ_le hpending) asserted
                  { report with delayedDiscarded := report.delayedDiscarded + 1 } hbackend
              refine ⟨final, progress, hreplay, hrestored, ?_, ?_⟩
              · simp [hreplayed, hundone]
              · simp [hdiscarded, Effect.unpublished_of_neither hcall hassertion]
                omega

end Run

/-- A detach of a ledger just closed is one replay of all its effects. -/
theorem ClosedLedger.detach_closed {Backend : Type} [EnforcementBackend Backend] (ledger : Ledger)
    (backend : Backend) (cell : CellId) (drain : DrainSpec) (forced : Option Force) :
    ∃ left, ledger.closed.detach backend cell drain forced =
      ((replay ⟨cell, ledger.plugin⟩ ledger.effects drain forced ledger.effects.length
          (Nat.le_refl _) [] backend (DetachReport.new ledger.plugin)).1, left,
        (replay ⟨cell, ledger.plugin⟩ ledger.effects drain forced ledger.effects.length
          (Nat.le_refl _) [] backend (DetachReport.new ledger.plugin)).2.backend) := by
  have hbind : bind ledger.closed.began cell ledger.closed.plugin =
      (.ok ⟨cell, ledger.plugin⟩, some cell) := by
    simp [bind, Ledger.closed]
  unfold ClosedLedger.detach
  rw [hbind]
  exact ⟨_, rfl⟩

/-- An attach planned for one plugin in one cell: on a backend with no fault armed, proper steps at
distinct addresses the backend has no row at. -/
structure AttachPlan (backend : FakeBackend) (cell : CellId) (plugin : PluginId)
    (steps : List AttachStep) : Prop where
  reachable : backend.Reachable
  unarmed : backend.Unarmed
  proper : ∀ step ∈ steps, step.Proper ⟨cell, plugin⟩
  fresh : ∀ handle ∈ addresses steps, backend.Fresh handle
  distinct : (addresses steps).Nodup

/-- The ledger the steps fill. -/
def filled (plugin : PluginId) (steps : List AttachStep) : Ledger :=
  ⟨plugin, steps.map AttachStep.effect⟩

/-- A planned attach succeeds, and detaching it in full restores the account. -/
theorem AttachPlan.restores {backend : FakeBackend} {cell : CellId} {plugin : PluginId}
    {steps : List AttachStep} (hplan : AttachPlan backend cell plugin steps) :
    ∃ attached,
      attach steps backend (.new plugin) = .ok (attached, filled plugin steps) ∧
      backend.snapshotOsState.1 = .ok backend.rows ∧
      ∀ drain forced, ∃ report left detached,
        (filled plugin steps).closed.detach attached cell drain forced =
          (.ok report, left, detached) ∧
        detached.snapshotOsState.1 = .ok backend.rows ∧
        report.replayed = (filled plugin steps).effects.reverse.filterMap Effect.undone ∧
        report.delayedDiscarded = (filled plugin steps).effects.countP Effect.unpublished := by
  obtain ⟨sites, hsites⟩ := hplan.reachable.exists_sites
  have hobserved := hsites.snapshotOsState_eq hplan.unarmed.observationFault
  have hquiet : Quiet sites none backend :=
    ⟨hsites, hplan.unarmed.ownerFaults, hplan.unarmed.observationFault⟩
  have hvacant : ∀ handle ∈ addresses steps, sites handle = .vacant := fun handle hmem =>
    hsites.vacant hplan.unarmed (hplan.fresh handle hmem)
  obtain ⟨attached, hattach, hattached⟩ :=
    attach_ok hquiet hplan.proper hvacant hplan.distinct (.new plugin)
  refine ⟨attached, hattach, congrArg Prod.fst hobserved, fun drain forced => ?_⟩
  have hlength : (steps.map AttachStep.effect).length = steps.length := List.length_map _
  have hfull : Quiet (moved sites (steps.take (steps.map AttachStep.effect).length)) none
      attached := by
    rwa [hlength, List.take_length]
  obtain ⟨report, progress, hreplay, hrestored, hreplayed, hdiscarded⟩ :=
    replay_restores hplan.proper hvacant hplan.distinct drain forced _ (Nat.le_refl _) []
      (DetachReport.new plugin) hfull
  obtain ⟨left, hdetach⟩ :=
    ClosedLedger.detach_closed (filled plugin steps) attached cell drain forced
  rw [hlength, List.take_length] at hreplayed hdiscarded
  refine ⟨report, left, progress.backend, ?_, ?_, ?_, ?_⟩
  · rw [hdetach]
    simp only [filled]
    rw [hreplay]
  · rw [hrestored.represents.snapshotOsState_eq hrestored.observationFault,
      hsites.rows_eq hrestored.represents]
  · simpa [DetachReport.new, filled] using hreplayed
  · simpa [DetachReport.new, filled] using hdiscarded

/-- Attach then detach restores the account, with no force when nothing left the boundary and with
an operator's force when something did. -/
theorem attach_detach_restores {backend : FakeBackend} {cell : CellId} {plugin : PluginId}
    {steps : List AttachStep} (hplan : AttachPlan backend cell plugin steps) :
    ∃ attached ledger before,
      attach steps backend (.new plugin) = .ok (attached, ledger) ∧
      backend.snapshotOsState.1 = .ok before ∧
      ((∀ step ∈ steps, step.effect.reversibility.outstanding = false) →
        ∃ sealed, ledger.close = .externalFree sealed ∧
          ∀ drain, ∃ report left detached after,
            sealed.detach attached cell drain = (.ok report, left, detached) ∧
            detached.snapshotOsState.1 = .ok after ∧ after = before ∧
            (Diff.between before.state after.state).isEmpty = true ∧
            report.replayed = (steps.map AttachStep.effect).reverse.filterMap Effect.undone ∧
            report.delayedDiscarded = (steps.map AttachStep.effect).countP Effect.unpublished) ∧
      ((∃ step ∈ steps, step.effect.reversibility.outstanding = true) →
        ∃ forcedLedger, ledger.close = .outstandingExternal forcedLedger ∧
          ∀ drain force, ∃ report left detached,
            forcedLedger.detachForced attached cell drain force = (.ok report, left, detached) ∧
            detached.snapshotOsState.1 = .ok before) := by
  obtain ⟨attached, hattach, hbefore, hdetach⟩ := hplan.restores
  refine ⟨attached, filled plugin steps, backend.rows, hattach, hbefore, fun hinside => ?_,
    fun houtside => ?_⟩
  · refine ⟨⟨(filled plugin steps).closed⟩, ?_, fun drain => ?_⟩
    · rw [Ledger.close, if_neg]
      simpa [filled] using hinside
    · obtain ⟨report, left, detached, hdetached, hafter, hreplayed, hdiscarded⟩ :=
        hdetach drain none
      refine ⟨report, ⟨left⟩, detached, backend.rows, ?_, hafter, rfl,
        Diff.between_self _, hreplayed, hdiscarded⟩
      rw [SealedLedger.detach, hdetached]
      rfl
  · refine ⟨⟨(filled plugin steps).closed⟩, ?_, fun drain force => ?_⟩
    · rw [Ledger.close, if_pos]
      simpa [filled] using houtside
    · obtain ⟨report, left, detached, hdetached, hafter, -, -⟩ := hdetach drain (some force)
      refine ⟨report, ⟨left⟩, detached, ?_, hafter⟩
      rw [ForcedLedger.detachForced, hdetached]
      rfl

/-! ## A plan, and a step no plan allows -/

def sampleOwner : CellOwner := ⟨⟨"generated-cell"⟩, ⟨"generated"⟩⟩

def sampleId (number : Fin 4) : GrantId where
  uuid := BitVec.ofNat 128 (0x40008000000000000000 + number)
  random := by
    revert number
    decide

def sampleFile (id : Fin 4) : UniverseOp :=
  .writeSessionFile (sampleId id) "/skills/generated.md" ⟨[], .readOnly, "/run/plasmosome/session"⟩
    sampleOwner

/-- A granted file named by handle, an applied one named by its removal, a compensated one, and a
delayed effect nobody published. -/
def sampleSteps : List AttachStep :=
  [.hold (sampleFile 1) (.granted .hot) .exactHandle "granted file",
    .hold (sampleFile 2) .applied .exactRemoval "applied file",
    .hold (sampleFile 3) .applied .compensating "compensated file",
    .delayed "outbox" ⟨"outbox/generated", "payload", false⟩]

theorem fresh_new (handle : Handle) : FakeBackend.new.Fresh handle :=
  ⟨ExtTreeMap.getElem?_empty, ExtTreeMap.getElem?_empty, ExtTreeMap.getElem?_empty⟩

theorem unarmed_new : FakeBackend.new.Unarmed := ⟨rfl, rfl, rfl, rfl, rfl, rfl⟩

theorem sampleFile_validate (id : Fin 4) : (sampleFile id).validate = .ok () := by
  have hrules : sessionFileRules "/skills/generated.md"
      ⟨[], .readOnly, "/run/plasmosome/session"⟩ = .ok () := by decide
  exact hrules

theorem attachPlan_sampleSteps :
    AttachPlan .new sampleOwner.cell sampleOwner.plugin sampleSteps where
  reachable := ⟨[], rfl⟩
  unarmed := unarmed_new
  proper := by
    simp only [sampleSteps, List.forall_mem_cons]
    exact ⟨⟨sampleFile_validate 1, rfl, nofun⟩, ⟨sampleFile_validate 2, rfl, nofun⟩,
      ⟨sampleFile_validate 3, rfl, nofun⟩, trivial, nofun⟩
  fresh handle _ := fresh_new handle
  distinct := by decide

/-- The plan of `sampleSteps` in full, detached under any drain. -/
theorem sampleSteps_restored :
    ∃ attached ledger sealed,
      attach sampleSteps FakeBackend.new (.new sampleOwner.plugin) = .ok (attached, ledger) ∧
      ledger.close = .externalFree sealed ∧
      ∀ drain, ∃ report left detached,
        sealed.detach attached sampleOwner.cell drain = (.ok report, left, detached) ∧
        report.replayed = ["compensated file", "applied file", "granted file"] ∧
        report.delayedDiscarded = 1 := by
  obtain ⟨attached, ledger, before, hattach, -, hinside, -⟩ :=
    attach_detach_restores attachPlan_sampleSteps
  obtain ⟨sealed, hclose, hdetach⟩ := hinside (by decide)
  refine ⟨attached, ledger, sealed, hattach, hclose, fun drain => ?_⟩
  obtain ⟨report, left, detached, after, hdetached, -, -, -, hreplayed, hdiscarded⟩ :=
    hdetach drain
  exact ⟨report, left, detached, hdetached, hreplayed, hdiscarded⟩

/-- An applied object was never issued a record, so an effect naming it by handle is not undone. -/
theorem applied_by_handle_not_restored :
    (sampleFile 1).validate = .ok () ∧ (sampleFile 1).owner = sampleOwner ∧
      FakeBackend.new.Reachable ∧ FakeBackend.new.Unarmed ∧
      FakeBackend.new.Fresh (sampleFile 1).handle ∧
      ∃ attached ledger sealed,
        attach [.hold (sampleFile 1) .applied .exactHandle "applied file"] FakeBackend.new
          (.new sampleOwner.plugin) = .ok (attached, ledger) ∧
        ledger.close = .externalFree sealed ∧
        ∀ drain, (sealed.detach attached sampleOwner.cell drain).1 =
          .error (.backend (.unknownHandle (sampleFile 1).handle)) :=
  ⟨sampleFile_validate 1, rfl, ⟨[], rfl⟩, unarmed_new, fresh_new _, _, _, _, rfl, rfl,
    fun _ => rfl⟩

end Plasmosome.Reversal
