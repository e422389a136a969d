import Plasmosome.Foundation.Windows
import Plasmosome.Reversal.Detach

/-!
# Resumed detaches replay each inverse once

Whatever the backend answers and however often detach is called again, the
calls that succeeded are the inverses of the effects above the cursor, last
first, and the asserted list is what those effects assert. The backend is any
backend at all, with a record of the calls made of it.
-/

namespace Plasmosome.Reversal

open Backend Foundation

/-! ## Recorded backends -/

/-- A backend together with every call made of it and the reply to each. -/
structure Recorded (Backend : Type) where
  backend : Backend
  log : List (BackendCall × BackendReply)

/-- The refusal of a reply to any call, if it is one. -/
def replyError? : BackendReply → Option BackendError
  | .change reply => reply.error?
  | .account result => refusal? result

namespace Recorded

variable {Backend : Type}

def start (backend : Backend) : Recorded Backend := ⟨backend, []⟩

/-- Makes a call of the backend under the record. -/
def run [EnforcementBackend Backend] {Result : Type} (recorded : Recorded Backend)
    (call : BackendCall) (reply : Result → BackendReply) (method : Backend → Result × Backend) :
    Result × Recorded Backend :=
  let (result, backend) := method recorded.backend
  (result, ⟨backend, recorded.log ++ [(call, reply result)]⟩)

instance [EnforcementBackend Backend] : EnforcementBackend (Recorded Backend) where
  grant recorded operation kind :=
    recorded.run (.change (.grant operation kind)) (fun result => .change (.entry result))
      (EnforcementBackend.grant · operation kind)
  revoke recorded handle drain :=
    recorded.run (.change (.revoke handle drain)) (fun result => .change (.entry result))
      (EnforcementBackend.revoke · handle drain)
  snapshotOsState recorded :=
    recorded.run .snapshotOsState .account EnforcementBackend.snapshotOsState
  apply recorded operation :=
    recorded.run (.change (.apply operation)) (fun result => .change (.done result))
      (EnforcementBackend.apply · operation)
  applyRemoval recorded removal owner drain :=
    recorded.run (.change (.applyRemoval removal owner drain))
      (fun result => .change (.done result)) (EnforcementBackend.applyRemoval · removal owner drain)
  plant recorded object :=
    recorded.run (.change (.plant object)) (fun result => .change (.done result))
      (EnforcementBackend.plant · object)

/-- The calls the backend answered with Ok, in the order they were made. -/
def succeeded (recorded : Recorded Backend) : List BackendCall :=
  (recorded.log.filter fun entry => (replyError? entry.2).isNone).map Prod.fst

variable [EnforcementBackend Backend]

theorem change_log (recorded : Recorded Backend) (call : HoldingCall) :
    (EnforcementBackend.change recorded call).2.log =
      recorded.log ++ [(.change call, .change (EnforcementBackend.change recorded call).1)] := by
  cases call <;> rfl

theorem succeeded_of_refused {recorded : Recorded Backend} {call : HoldingCall}
    {error : BackendError}
    (hreply : (EnforcementBackend.change recorded call).1.error? = some error) :
    (EnforcementBackend.change recorded call).2.succeeded = recorded.succeeded := by
  simp [succeeded, change_log, replyError?, hreply]

theorem succeeded_of_ok {recorded : Recorded Backend} {call : HoldingCall}
    (hreply : (EnforcementBackend.change recorded call).1.error? = none) :
    (EnforcementBackend.change recorded call).2.succeeded =
      recorded.succeeded ++ [.change call] := by
  simp [succeeded, change_log, replyError?, hreply]

end Recorded

/-! ## What is to be undone -/

/-- A withdrawal, whatever drain it runs under. -/
inductive Undo where
  | revoke (handle : Handle)
  | applyRemoval (removal : UniverseRemoval) (owner : CellOwner)
deriving DecidableEq, Repr

/-- The withdrawal a backend call makes, if it makes one. -/
def undoOf : BackendCall → Option Undo
  | .change (.revoke handle _) => some (.revoke handle)
  | .change (.applyRemoval removal owner _) => some (.applyRemoval removal owner)
  | .change (.grant ..) | .change (.apply _) | .change (.plant _) | .snapshotOsState => none

namespace Effect

/-- The withdrawal that undoes the effect of a plugin in a cell, if one does. -/
def undo (owner : CellOwner) (effect : Effect) : Option Undo :=
  match effect.reversibility with
  | .exact ⟨_, .backend handle⟩ => some (.revoke handle)
  | .exact ⟨_, .universe removal⟩ => some (.applyRemoval removal owner)
  | .compensating ⟨witness⟩ => some (.applyRemoval witness owner)
  | .delayed _ | .external _ => none

/-- The description of an effect a withdrawal undoes. -/
def undone (effect : Effect) : Option String :=
  match effect.reversibility with
  | .exact _ | .compensating _ => some effect.description
  | .delayed _ | .external _ => none

/-- What a detach reports of an effect that nothing takes back: the policy of an external one, the
description of a message already published. -/
def asserted (effect : Effect) : Option String :=
  match effect.reversibility with
  | .external ⟨assertion⟩ => some assertion
  | .delayed ⟨_, _, true⟩ => some effect.description
  | .exact _ | .compensating _ | .delayed ⟨_, _, false⟩ => none

theorem assertion_eq_asserted : assertion = asserted := by
  funext ⟨description, reversibility⟩
  cases reversibility with
  | exact inverse => rfl
  | compensating compensation => rfl
  | delayed outbox => rcases outbox with ⟨channel, payload, _ | _⟩ <;> rfl
  | external policy => rfl

variable {owner : CellOwner} {drain : DrainSpec} {effect : Effect}

/-- An effect with an inverse is undone by that inverse and asserts nothing. -/
theorem of_inverseCall {call : HoldingCall} (hcall : effect.inverseCall owner drain = some call) :
    undoOf (.change call) = effect.undo owner ∧ (effect.undo owner).isSome ∧
      effect.undone = some effect.description ∧ effect.assertion = none := by
  obtain ⟨description, ⟨_, _ | _⟩ | ⟨_⟩ | _ | _⟩ := effect <;> cases hcall <;>
    exact ⟨rfl, rfl, rfl, rfl⟩

theorem of_no_inverseCall (hcall : effect.inverseCall owner drain = none) :
    effect.undo owner = none ∧ effect.undone = none := by
  obtain ⟨description, ⟨_, _ | _⟩ | ⟨_⟩ | _ | _⟩ := effect
  · cases hcall
  · cases hcall
  · cases hcall
  · exact ⟨rfl, rfl⟩
  · exact ⟨rfl, rfl⟩

end Effect

/-! ## One replay -/

section Replay

variable {Backend : Type} [EnforcementBackend Backend]

/-- The effects a cursor passes on its way down, last first. -/
def passed (effects : List Effect) (low high : Nat) : List Effect :=
  (window effects low high).reverse

@[simp] theorem passed_self (effects : List Effect) (index : Nat) :
    passed effects index index = [] := by
  simp [passed]

theorem passed_succ {effects : List Effect} {low index : Nat} (hlow : low ≤ index)
    (hindex : index < effects.length) :
    passed effects low (index + 1) = effects[index] :: passed effects low index := by
  simp [passed, window_succ effects hlow hindex]

theorem passed_append (effects : List Effect) {low middle high : Nat} (hlow : low ≤ middle)
    (hhigh : middle ≤ high) :
    passed effects middle high ++ passed effects low middle = passed effects low high := by
  simp [passed, ← window_append effects hlow hhigh]

/-- What a function selects of consecutive passed effects joins as they do. -/
theorem filterMap_passed_append {α : Type} (select : Effect → Option α) (effects : List Effect)
    {low middle high : Nat} (hlow : low ≤ middle) (hhigh : middle ≤ high) :
    (passed effects middle high).filterMap select ++ (passed effects low middle).filterMap select =
      (passed effects low high).filterMap select := by
  rw [← List.filterMap_append, passed_append effects hlow hhigh]

theorem passed_length (effects : List Effect) (low : Nat) :
    passed effects low effects.length = (effects.drop low).reverse := by
  rw [passed, window_length_eq_drop]

/-- What one replay did between the cursor it met and the cursor it left. -/
structure Replays (owner : CellOwner) (effects : List Effect) (pending : Nat)
    (asserted : List String) (recorded : Recorded Backend) (report : DetachReport)
    (outcome : Except DetachError DetachReport × Progress (Recorded Backend)) : Prop where
  pending_le : outcome.2.pending ≤ pending
  asserted : outcome.2.asserted =
    asserted ++ (passed effects outcome.2.pending pending).filterMap Effect.assertion
  succeeded : outcome.2.backend.succeeded.map undoOf = recorded.succeeded.map undoOf ++
    ((passed effects outcome.2.pending pending).filterMap (Effect.undo owner)).map some
  finished : ∀ final, outcome.1 = .ok final →
    outcome.2.pending = 0 ∧ final.asserted = outcome.2.asserted ∧
      final.replayed =
        report.replayed ++ (passed effects outcome.2.pending pending).filterMap Effect.undone

/-- An undone effect joins the effects passed after it. -/
theorem Replays.undo {owner : CellOwner} {effects : List Effect} {index : Nat}
    {asserted : List String} {recorded : Recorded Backend} {report : DetachReport}
    {outcome : Except DetachError DetachReport × Progress (Recorded Backend)}
    {drain : DrainSpec} {call : HoldingCall} (hindex : index < effects.length)
    (hcall : effects[index].inverseCall owner drain = some call)
    (hreply : (EnforcementBackend.change recorded call).1.error? = none)
    (hrest : Replays owner effects index asserted (EnforcementBackend.change recorded call).2
      { report with replayed := report.replayed ++ [effects[index].description] } outcome) :
    Replays owner effects (index + 1) asserted recorded report outcome := by
  obtain ⟨hundo, hsome, hundone, hassertion⟩ := Effect.of_inverseCall hcall
  obtain ⟨undo, hundo'⟩ := Option.isSome_iff_exists.mp hsome
  have hpassed := passed_succ hrest.pending_le hindex
  refine ⟨hrest.pending_le.trans (Nat.le_succ index), ?_, ?_, fun final hfinal => ?_⟩
  · rw [hrest.asserted, hpassed, List.filterMap_cons_none hassertion]
  · rw [hrest.succeeded, Recorded.succeeded_of_ok hreply, hpassed,
      List.filterMap_cons_some hundo']
    simp [hundo, hundo']
  · obtain ⟨hpending, hasserted, hreplayed⟩ := hrest.finished final hfinal
    refine ⟨hpending, hasserted, ?_⟩
    rw [hreplayed, hpassed, List.filterMap_cons_some hundone]
    simp

omit [EnforcementBackend Backend] in
/-- An effect no call undoes joins the effects passed after it. -/
theorem Replays.skip {owner : CellOwner} {effects : List Effect} {index : Nat}
    {asserted carried : List String} {recorded : Recorded Backend}
    {report skipped : DetachReport}
    {outcome : Except DetachError DetachReport × Progress (Recorded Backend)}
    {drain : DrainSpec} (hrest : Replays owner effects index carried recorded skipped outcome)
    (hindex : index < effects.length) (hcall : effects[index].inverseCall owner drain = none)
    (hcarried : carried = asserted ++ effects[index].assertion.toList)
    (hreport : skipped.replayed = report.replayed) :
    Replays owner effects (index + 1) asserted recorded report outcome := by
  obtain ⟨hundo, hundone⟩ := Effect.of_no_inverseCall hcall
  have hpassed := passed_succ hrest.pending_le hindex
  refine ⟨hrest.pending_le.trans (Nat.le_succ index), ?_, ?_, fun final hfinal => ?_⟩
  · rw [hrest.asserted, hpassed, hcarried, List.append_assoc]
    cases hassertion : effects[index].assertion with
    | none => rw [List.filterMap_cons_none hassertion]; rfl
    | some assertion => rw [List.filterMap_cons_some hassertion]; rfl
  · rw [hrest.succeeded, hpassed, List.filterMap_cons_none hundo]
  · obtain ⟨hpending, hasserted, hreplayed⟩ := hrest.finished final hfinal
    refine ⟨hpending, hasserted, ?_⟩
    rw [hreplayed, hpassed, List.filterMap_cons_none hundone, hreport]

theorem replay_replays (owner : CellOwner) (effects : List Effect) (drain : DrainSpec)
    (forced : Option Force) (pending : Nat) (hpending : pending ≤ effects.length)
    (asserted : List String) (recorded : Recorded Backend) (report : DetachReport) :
    Replays owner effects pending asserted recorded report
      (replay owner effects drain forced pending hpending asserted recorded report) := by
  induction pending generalizing asserted recorded report with
  | zero =>
      refine ⟨Nat.le_refl 0, by simp [replay], by simp [replay], ?_⟩
      rintro final ⟨⟩
      exact ⟨rfl, rfl, by simp [replay]⟩
  | succ index ih =>
      have hindex : index ≤ effects.length := Nat.le_of_succ_le hpending
      rw [replay]
      split
      next call hcall =>
        dsimp only
        split
        next error hreply =>
          refine ⟨Nat.le_refl _, by simp, ?_, by simp⟩
          simp [Recorded.succeeded_of_refused hreply]
        next hreply => exact Replays.undo hpending hcall hreply (ih hindex _ _ _)
      next hcall =>
        split
        next assertion hassertion =>
          exact (ih hindex _ _ _).skip hpending hcall (by simp [hassertion]) rfl
        next hassertion =>
          exact (ih hindex _ _ _).skip hpending hcall (by simp [hassertion]) rfl

/-! ## Runs of detach calls -/

/-- The asserted list and the record of a closed ledger agree with its cursor. -/
structure Resumes (plugin : PluginId) (effects : List Effect) (cell : CellId)
    (ledger : ClosedLedger) (recorded : Recorded Backend) : Prop where
  plugin_eq : ledger.plugin = plugin
  effects_eq : ledger.effects = effects
  began : ∀ bound ∈ ledger.began, bound = cell
  asserted : ledger.asserted =
    (passed effects ledger.pending effects.length).filterMap Effect.assertion
  succeeded : recorded.succeeded.map undoOf =
    ((passed effects ledger.pending effects.length).filterMap
      (Effect.undo ⟨cell, plugin⟩)).map some

/-- What a call of the bound cell returns, given the cursor it met. -/
structure Resumed (effects : List Effect) (pending : Nat)
    (outcome : Except DetachError DetachReport × ClosedLedger × Recorded Backend) : Prop where
  pending_le : outcome.2.1.pending ≤ pending
  finished : ∀ report, outcome.1 = .ok report →
    outcome.2.1.pending = 0 ∧
      report.asserted = effects.reverse.filterMap Effect.assertion ∧
      report.replayed = (passed effects 0 pending).filterMap Effect.undone

section Step

variable {plugin : PluginId} {effects : List Effect} {cell : CellId} {ledger : ClosedLedger}
  {recorded : Recorded Backend}

theorem Resumes.detach (hledger : Resumes plugin effects cell ledger recorded)
    (drain : DrainSpec) (forced : Option Force) :
    Resumes plugin effects cell (ledger.detach recorded cell drain forced).2.1
        (ledger.detach recorded cell drain forced).2.2 ∧
      (ledger.detach recorded cell drain forced).2.1.began = some cell ∧
      Resumed effects ledger.pending (ledger.detach recorded cell drain forced) := by
  obtain ⟨rfl, rfl, hbegan, hasserted, hsucceeded⟩ := hledger
  have hbound : ledger.began.getD cell = cell := by
    cases hat : ledger.began with
    | none => rfl
    | some bound => exact hbegan bound hat
  have hbind : bind ledger.began cell ledger.plugin = (.ok ⟨cell, ledger.plugin⟩, some cell) := by
    simp [bind, hbound]
  have hreplays := replay_replays ⟨cell, ledger.plugin⟩ ledger.effects drain forced ledger.pending
    ledger.inBounds ledger.asserted recorded (DetachReport.new ledger.plugin)
  have hasserts := (hreplays.asserted.trans (congrArg (· ++ _) hasserted)).trans
    (filterMap_passed_append _ _ hreplays.pending_le ledger.inBounds)
  unfold ClosedLedger.detach
  rw [hbind]
  dsimp only
  refine ⟨⟨rfl, rfl, ?_, ?_, ?_⟩, rfl, hreplays.pending_le, fun report hreport => ?_⟩
  · rintro bound ⟨⟩
    rfl
  · exact hasserts
  · rw [hreplays.succeeded, hsucceeded, ← List.map_append,
      filterMap_passed_append _ _ hreplays.pending_le ledger.inBounds]
  · obtain ⟨hzero, hreported, hreplayed⟩ := hreplays.finished report hreport
    refine ⟨hzero, ?_, ?_⟩
    · rw [hreported, hasserts, hzero, passed_length, List.drop_zero]
    · rw [hreplayed, hzero]
      rfl

end Step

namespace Closure

/-- The two kinds of closed ledger detach alike, up to the force they report. -/
theorem detach_eq (closure : Closure) (backend : Backend) (call : DetachCall) :
    ∃ forced, (closure.detach backend call).1 =
        (closure.closed.detach backend call.cell call.drain forced).1 ∧
      (closure.detach backend call).2.1.closed =
        (closure.closed.detach backend call.cell call.drain forced).2.1 ∧
      (closure.detach backend call).2.2 =
        (closure.closed.detach backend call.cell call.drain forced).2.2 := by
  cases closure with
  | externalFree sealed => exact ⟨none, rfl, rfl, rfl⟩
  | outstandingExternal forcedLedger => exact ⟨some call.force, rfl, rfl, rfl⟩

/-- A call of another cell asks the backend nothing and changes nothing. -/
theorem detach_of_ne {closure : Closure} {cell : CellId} (hbegan : closure.closed.began = some cell)
    {call : DetachCall} (hcell : call.cell ≠ cell) (backend : Backend) :
    closure.detach backend call = (.error (.cellChanged cell call.cell), closure, backend) := by
  have hbind : bind closure.closed.began call.cell closure.closed.plugin =
      (.error (.cellChanged cell call.cell), some cell) := by
    simp [bind, hbegan, hcell.symm]
  have hclosed (forced : Option Force) :
      closure.closed.detach backend call.cell call.drain forced =
        (.error (.cellChanged cell call.cell), closure.closed, backend) := by
    rw [ClosedLedger.detach, hbind]
    simp only [Prod.mk.injEq, and_true, true_and]
    rw [← hbegan]
  cases closure with
  | externalFree sealed =>
      have hsealed := hclosed none
      simp only [Closure.closed] at hsealed
      simp [detach, SealedLedger.detach, hsealed]
  | outstandingExternal forcedLedger =>
      have hforced := hclosed (some call.force)
      simp only [Closure.closed] at hforced
      simp [detach, ForcedLedger.detachForced, hforced]

end Closure

/-- A closed ledger under the run, and what a detach of it returned. -/
abbrev RunState (Backend : Type) : Type := Closure × Recorded Backend

/-- The cursor of the closed ledger under the run. -/
def RunState.cursor (state : RunState Backend) : Nat := state.1.closed.pending

/-- The descriptions one call replayed: a failed call's report is lost, and its effects are those
its cursor passed. -/
def replayedBy (state : RunState Backend) (call : DetachCall) : List String :=
  match (Closure.machine (Recorded Backend)).step state call with
  | (.ok report, _) => report.replayed
  | (.error _, next) =>
      (passed state.1.closed.effects (RunState.cursor next) state.cursor).filterMap Effect.undone

/-- The descriptions a run of calls replayed, in order. -/
def replayedAlong : RunState Backend → List DetachCall → List String
  | _, [] => []
  | state, call :: rest =>
      replayedBy state call ++
        replayedAlong ((Closure.machine (Recorded Backend)).step state call).2 rest

section Run

variable {plugin : PluginId} {effects : List Effect} {cell : CellId}
  {state : RunState Backend}

/-- A state some call already bound to its cell. -/
structure BoundTo (plugin : PluginId) (effects : List Effect) (cell : CellId)
    (state : RunState Backend) : Prop where
  resumes : Resumes plugin effects cell state.1.closed state.2
  began : state.1.closed.began = some cell

/-- What a step leaves and returns, whichever cell it names. -/
structure Steps (plugin : PluginId) (effects : List Effect) (cell : CellId)
    (state : RunState Backend) (call : DetachCall) : Prop where
  bound : BoundTo plugin effects cell ((Closure.machine (Recorded Backend)).step state call).2
  cursor_le :
    RunState.cursor ((Closure.machine (Recorded Backend)).step state call).2 ≤ state.cursor
  replayedBy_eq : replayedBy state call =
    (passed effects (RunState.cursor ((Closure.machine (Recorded Backend)).step state call).2)
      state.cursor).filterMap Effect.undone
  finished : ∀ report, ((Closure.machine (Recorded Backend)).step state call).1 = .ok report →
    RunState.cursor ((Closure.machine (Recorded Backend)).step state call).2 = 0 ∧
      report.asserted = effects.reverse.filterMap Effect.assertion

/-- A call of the bound cell, or the first call of all. -/
theorem Resumes.steps (hstate : Resumes plugin effects cell state.1.closed state.2)
    {call : DetachCall} (hcell : call.cell = cell) : Steps plugin effects cell state call := by
  subst hcell
  obtain ⟨forced, hresult, hclosed, hbackend⟩ := state.1.detach_eq state.2 call
  obtain ⟨hresumes, hbegan, hpending, hfinished⟩ := hstate.detach call.drain forced
  rw [← hclosed, ← hbackend] at hresumes
  rw [← hclosed] at hbegan hpending
  rw [← hclosed, ← hresult] at hfinished
  have hreplayed : replayedBy state call =
      (passed effects (RunState.cursor (state.1.detach state.2 call).2) state.cursor).filterMap
        Effect.undone := by
    change (match state.1.detach state.2 call with
      | (.ok report, _) => report.replayed
      | (.error _, next) => (passed state.1.closed.effects (RunState.cursor next)
          state.cursor).filterMap Effect.undone) = _
    generalize state.1.detach state.2 call = outcome at hfinished
    obtain ⟨error | report, next⟩ := outcome
    · rw [hstate.effects_eq]
    · obtain ⟨hzero, -, hreplayed⟩ := hfinished report rfl
      change report.replayed = (passed effects next.1.closed.pending _).filterMap _
      rw [hzero]
      exact hreplayed
  refine ⟨⟨hresumes, hbegan⟩, hpending, hreplayed, fun report hreport => ?_⟩
  obtain ⟨hzero, hasserted, -⟩ := hfinished report hreport
  exact ⟨hzero, hasserted⟩

theorem BoundTo.step_of_ne (hstate : BoundTo plugin effects cell state) {call : DetachCall}
    (hcell : call.cell ≠ cell) :
    (Closure.machine (Recorded Backend)).step state call =
      (.error (.cellChanged cell call.cell), state) :=
  Closure.detach_of_ne hstate.began hcell state.2

/-- Any call of a bound ledger. -/
theorem BoundTo.steps (hstate : BoundTo plugin effects cell state) (call : DetachCall) :
    Steps plugin effects cell state call := by
  by_cases hcell : call.cell = cell
  · exact hstate.resumes.steps hcell
  · have hstep := hstate.step_of_ne hcell
    refine ⟨?_, ?_, ?_, ?_⟩
    · rw [hstep]
      exact hstate
    · rw [hstep]
    · rw [replayedBy, hstep]
      simp
    · rw [hstep]
      exact nofun

/-- What a run from a bound state leaves. -/
structure Runs (plugin : PluginId) (effects : List Effect) (cell : CellId)
    (state : RunState Backend) (calls : List DetachCall) : Prop where
  bound : BoundTo plugin effects cell ((Closure.machine (Recorded Backend)).final state calls)
  cursor_le :
    RunState.cursor ((Closure.machine (Recorded Backend)).final state calls) ≤ state.cursor
  replayed : replayedAlong state calls =
    (passed effects (RunState.cursor ((Closure.machine (Recorded Backend)).final state calls))
      state.cursor).filterMap Effect.undone
  finished : ∀ report, .ok report ∈ (Closure.machine (Recorded Backend)).outputs state calls →
    RunState.cursor ((Closure.machine (Recorded Backend)).final state calls) = 0

/-- A step and the run after it are one run. -/
theorem Steps.cons {call : DetachCall} {rest : List DetachCall}
    (hstep : Steps plugin effects cell state call)
    (hrest : Runs plugin effects cell ((Closure.machine (Recorded Backend)).step state call).2
      rest) : Runs plugin effects cell state (call :: rest) where
  bound := hrest.bound
  cursor_le := hrest.cursor_le.trans hstep.cursor_le
  replayed := by
    rw [replayedAlong, hstep.replayedBy_eq, hrest.replayed,
      filterMap_passed_append _ _ hrest.cursor_le hstep.cursor_le]
    rfl
  finished report hreport := by
    rcases List.mem_cons.mp hreport with hfirst | hlater
    · have hzero := (hstep.finished report hfirst.symm).1
      exact Nat.le_zero.mp (hzero ▸ hrest.cursor_le)
    · exact hrest.finished report hlater

theorem BoundTo.runs (hstate : BoundTo plugin effects cell state) (calls : List DetachCall) :
    Runs plugin effects cell state calls := by
  induction calls generalizing state with
  | nil => exact ⟨hstate, Nat.le_refl _, by simp [replayedAlong], nofun⟩
  | cons call rest ih =>
      have hstep := hstate.steps call
      exact hstep.cons (ih hstep.bound)

omit [EnforcementBackend Backend] in
/-- A ledger just closed agrees with its cursor, whichever cell detaches it first. -/
theorem Ledger.close_resumes (ledger : Ledger) (backend : Backend) (cell : CellId) :
    Resumes ledger.plugin ledger.effects cell ledger.close.closed (Recorded.start backend) := by
  rw [ledger.close_closed]
  exact ⟨rfl, rfl, nofun, by simp [Ledger.closed], by simp [Ledger.closed, Recorded.succeeded,
    Recorded.start]⟩

end Run

/-- Every run of detach calls replays each inverse once, last first, for the owner of its first
cell; a call of another cell does nothing; and a call that succeeds asserts what every effect
asserts, however many calls failed before it. -/
theorem detach_run_replays_once (ledger : Ledger) (backend : Backend) (calls : List DetachCall) :
    let machine := Closure.machine (Recorded Backend)
    let start : RunState Backend := (ledger.close, Recorded.start backend)
    let state : RunState Backend := machine.final start calls
    (∀ first ∈ calls.head?,
      state.2.succeeded.map undoOf =
          ((ledger.effects.drop state.cursor).reverse.filterMap
            (Effect.undo ⟨first.cell, ledger.plugin⟩)).map some ∧
        ∀ other : DetachCall, other.cell ≠ first.cell →
          machine.step state other = (.error (.cellChanged first.cell other.cell), state)) ∧
      (∀ next report, (machine.step state next).1 = .ok report →
        report.asserted = ledger.effects.reverse.filterMap Effect.asserted) ∧
      replayedAlong start calls =
        (ledger.effects.drop state.cursor).reverse.filterMap Effect.undone ∧
      ∀ report, .ok report ∈ machine.outputs start calls → state.cursor = 0 := by
  intro machine start state
  rw [← Effect.assertion_eq_asserted]
  have hstart : start.cursor = ledger.effects.length := congrArg _ ledger.close_closed
  cases calls with
  | nil =>
      refine ⟨nofun, fun next report hreport => ?_, ?_, nofun⟩
      · exact ((ledger.close_resumes backend next.cell).steps rfl).finished report hreport |>.2
      · change [] = (ledger.effects.drop start.cursor).reverse.filterMap Effect.undone
        simp [hstart]
  | cons first rest =>
      have hsteps : Steps ledger.plugin ledger.effects first.cell start first :=
        Resumes.steps (ledger.close_resumes backend first.cell) rfl
      have hruns := hsteps.cons (hsteps.bound.runs rest)
      refine ⟨?_, fun next report hreport => ?_, ?_, hruns.finished⟩
      · rintro _ ⟨⟩
        refine ⟨?_, fun other hother => hruns.bound.step_of_ne hother⟩
        rw [← passed_length]
        exact hruns.bound.resumes.succeeded
      · exact ((hruns.bound.steps next).finished report hreport).2
      · rw [hruns.replayed, hstart, passed_length]

end Replay

end Plasmosome.Reversal
