import Plasmosome.Membrane.SupervisionLaws

/-!
# The life of a handle

Any calls and a drop, whatever the kernel answers. The child is never signalled after
it was reaped or lost, and no end is reported before its group was disposed of.
-/

namespace Plasmosome.Membrane.Vmm

open Foundation

variable {child : ChildPid} {history : List Event} {platform : Platform} {rounds : Nat}
  {lifecycle : Lifecycle}

/-! ## Calls -/

/-- The child ended: its state is terminal, or it was killed. -/
def Reply.Completes : Reply → Prop
  | .state told => told.Terminal
  | .killed => True

/-- What a call can come to. -/
def Performed (child : ChildPid) (outcome : Outcome SupervisionError Reply) (left : Lifecycle)
    (later : List Event) : Prop :=
  match outcome with
  | .ok reply => Fits child left later ∧ (reply.Completes → Complete child later)
  | .stop (.error error) => Broken child error left later
  | .stop .running => Safe child later

theorem performed_of_told {program : Step VmmState}
    (hprogram : program.Meets lifecycle history (Told child)) :
    (program >>= fun told => (return .state told : Step Reply)).Meets lifecycle history
      (Performed child) := by
  refine Program.meets_bind (hprogram.mono ?_)
  rintro (told | stop) left later htold
  · exact Program.meets_pure ⟨htold.1, htold.2.1⟩
  · cases stop <;> exact htold

theorem perform_meets (call : Call) (hfits : Fits child lifecycle history) :
    (perform platform child rounds call).Meets lifecycle history (Performed child) := by
  cases call with
  | state => exact performed_of_told (state_meets hfits)
  | waitTerminal deadline => exact performed_of_told (waitTerminal_meets hfits)
  | kill =>
      refine Program.meets_bind ((kill_meets hfits).mono ?_)
      rintro (done | stop) left later hkilled
      · exact Program.meets_pure ⟨hkilled.1, fun _ => hkilled.2⟩
      · cases stop <;> exact hkilled

/-- What calls one after the other leave, as long as each ends. -/
def Served (child : ChildPid) (outcome : Outcome SupervisionError Unit) (left : Lifecycle)
    (later : List Event) : Prop :=
  match outcome with
  | .ok () => Fits child left later
  | .stop _ => outcome = .stop .running ∧ Safe child later

theorem session_meets (calls : List Call) (hfits : Fits child lifecycle history) :
    (session platform child rounds calls).Meets lifecycle history (Served child) := by
  induction calls generalizing lifecycle history with
  | nil => exact Program.meets_pure hfits
  | cons call rest ih =>
      refine Program.meets_attempt_bind ((perform_meets call hfits).mono ?_)
      intro outcome left later hperformed
      cases outcome with
      | ok reply => exact ih hperformed.1
      | stop stop =>
          cases stop with
          | running => exact ⟨rfl, hperformed⟩
          | error error => exact ih hperformed.fits

/-! ## Dropping -/

/-- What a drop can come to. One without a report leaves a child that was reaped after its group
was disposed of. -/
def Dropped (child : ChildPid) (outcome : Outcome SupervisionError Report) (_ : Lifecycle)
    (later : List Event) : Prop :=
  Safe child later ∧ (outcome = .ok none → Complete child later)

theorem dropped_of_safe {outcome : Outcome SupervisionError Report} {left : Lifecycle}
    (hsafe : Safe child history)
    (hreport : outcome ≠ .ok none) : Dropped child outcome left history :=
  ⟨hsafe, fun hnone => absurd hnone hreport⟩

theorem reapAfterGroupFailure_meets {terminal : VmmState} {error : SupervisionError}
    (hfits : Fits child (.exitObserved terminal) history) :
    (reapAfterGroupFailure platform child rounds terminal error).Meets
    (.exitObserved terminal) history
      fun _ _ later => Safe child later := by
  refine Program.meets_bind (Program.meets_rounds
    (fun _ left later => left = .exitObserved terminal ∧
      Fits child (.exitObserved terminal) later)
    ?_ (fun _ _ _ hround => hround.2.safe) rounds ⟨rfl, hfits⟩)
  rintro - left later ⟨rfl, hfits⟩
  refine Program.meets_attempt_bind (waitOnce_meets hfits.1 ?_ ?_ ?_ ?_ ?_)
  · intro error event _ herror hquiet
    dsimp only
    split
    next => exact Program.meets_pure ⟨rfl, hfits.grow trivial hquiet⟩
    next =>
      refine Program.meets_pure ?_
      simp only [if_neg herror]
      exact Program.meets_pure hquiet.safe
  · intro event hsafe
    simp only [if_neg (show ECHILD ≠ EINTR by decide)]
    refine Program.meets_pure ?_
    simp only [if_true]
    exact Program.meets_set_bind (Program.meets_pure hsafe)
  · intro event hquiet
    exact Program.meets_pure (Program.meets_pure hquiet.safe)
  · intro event state hnowait
    cases hnowait
  · intro event state _ _ _ hsafe
    exact Program.meets_pure (Program.meets_set_bind (Program.meets_pure hsafe))

theorem dropTerminal_meets {terminal : VmmState} {blocking : Bool}
    {original : Option SupervisionError}
    (hfits : Fits child (.exitObserved terminal) history) :
    (dropTerminal platform child rounds terminal blocking original).Meets lifecycle history
      (Dropped child) := by
  refine Program.meets_attempt_bind ((signalGroupAndReap_meets hfits).mono ?_)
  intro outcome left later hsettled
  cases outcome with
  | ok state =>
      obtain ⟨rfl, hfits⟩ := hsettled
      exact Program.meets_pure ⟨hfits.safe, fun _ => hfits.2.2⟩
  | stop stop =>
      cases stop with
      | running => exact dropped_of_safe hsettled nofun
      | error error =>
          obtain ⟨hbroken, hsignal, -⟩ := hsettled
          dsimp only
          split
          next hoperation =>
            obtain rfl := hsignal hoperation
            refine Program.meets_bind ((reapAfterGroupFailure_meets hbroken.fits).mono ?_)
            rintro (report | stop) left later hsafe
            · exact Program.meets_pure (dropped_of_safe hsafe (by simp))
            · exact dropped_of_safe hsafe nofun
          next => exact Program.meets_pure (dropped_of_safe hbroken.fits.safe (by simp))

theorem finishedFailure_meets {state : VmmState} {failure : SupervisionError}
    (hsafe : Safe child history) :
    (finishedFailure).Meets (.finished state (some failure)) history fun outcome _ later =>
      outcome = .ok failure ∧ Safe child later :=
  Program.meets_get_bind (Program.meets_pure ⟨rfl, hsafe⟩)

/-- A drop that reports a child found lost. -/
theorem reportLost_meets {state : VmmState} {failure : SupervisionError}
    {report : SupervisionError → SupervisionError × Option SupervisionError}
    (hsafe : Safe child history) :
    (do
      let failure ← finishedFailure
      return some (report failure) : Step Report).Meets (.finished state (some failure)) history
        (Dropped child) := by
  refine Program.meets_bind ((finishedFailure_meets hsafe).mono ?_)
  rintro outcome left later ⟨rfl, hsafe⟩
  exact Program.meets_pure (dropped_of_safe hsafe (by simp))

theorem dropAfterLeaderSignalFailure_meets {original : SupervisionError}
    (hfits : Fits child .owned history) :
    (dropAfterLeaderSignalFailure platform child rounds original).Meets .owned history
      (Dropped child) := by
  have hwatching : Lifecycle.owned.Watching := trivial
  refine Program.meets_attempt_bind ((observe_meets hwatching hfits).mono ?_)
  intro outcome left later hobserved
  cases outcome with
  | stop stop =>
      cases stop with
      | running => exact dropped_of_safe hobserved nofun
      | error error => exact Program.meets_pure (dropped_of_safe hobserved.1.fits.safe (by simp))
  | ok state =>
      cases state with
      | running => exact Program.meets_pure (dropped_of_safe hobserved.2.safe (by simp))
      | lost =>
          obtain ⟨failure, rfl, -, hsafe⟩ := hobserved
          exact reportLost_meets hsafe
      | exited code =>
          obtain ⟨rfl, hfits⟩ := hobserved
          exact dropTerminal_meets hfits
      | signaled signal =>
          obtain ⟨rfl, hfits⟩ := hobserved
          exact dropTerminal_meets hfits

theorem dropRunning_meets (hfits : Fits child .owned history) :
    (do
      match ← signalLeader.attempt with
      | .error original => dropAfterLeaderSignalFailure platform child rounds original
      | .ok () => do
          match ← (waitForLeader platform child rounds).attempt with
          | .ok terminal => dropTerminal platform child rounds terminal true none
          | .error error => return some (error, none) : Step Report).Meets .owned history
        (Dropped child) := by
  have hopen : Lifecycle.owned.Open := trivial
  refine Program.meets_attempt_bind ((signalLeader_meets hfits hopen).mono ?_)
  rintro outcome left later ⟨rfl, hfits, hends, -⟩
  cases outcome with
  | stop stop =>
      cases stop with
      | running => exact absurd rfl hends
      | error error => exact dropAfterLeaderSignalFailure_meets hfits
  | ok done =>
      refine Program.meets_attempt_bind ((waitForLeader_meets hfits hopen).mono ?_)
      intro outcome left later hawaited
      cases outcome with
      | stop stop =>
          cases stop with
          | running => exact dropped_of_safe hawaited nofun
          | error error => exact Program.meets_pure (dropped_of_safe hawaited.fits.safe (by simp))
      | ok terminal =>
          obtain ⟨rfl, hfits⟩ := hawaited
          exact dropTerminal_meets hfits

theorem dropUnfinished_meets (hwatching : lifecycle.Watching)
    (hfits : Fits child lifecycle history) :
    (dropUnfinished platform child rounds).Meets lifecycle history (Dropped child) := by
  refine Program.meets_bind (Program.meets_rounds
    (fun _ left later => left.Watching ∧ Fits child left later) ?_ ?_ rounds ⟨hwatching, hfits⟩)
  · rintro - left later ⟨hwatching, hfits⟩
    refine Program.meets_attempt_bind ((observe_meets hwatching hfits).mono ?_)
    intro outcome left later hobserved
    cases outcome with
    | stop stop =>
        cases stop with
        | running => exact dropped_of_safe hobserved nofun
        | error error =>
            obtain ⟨hbroken, hwatching⟩ := hobserved
            dsimp only
            split
            next hinterrupted =>
              refine Program.meets_pure ⟨hwatching ?_, hbroken.fits⟩
              rw [hinterrupted]
              decide
            next =>
              exact Program.meets_pure
                (Program.meets_pure (dropped_of_safe hbroken.fits.safe (by simp)))
    | ok state =>
        refine Program.meets_pure ?_
        cases state with
        | running =>
            obtain ⟨rfl, hquiet⟩ := hobserved
            exact dropRunning_meets hquiet
        | lost =>
            obtain ⟨failure, rfl, -, hsafe⟩ := hobserved
            exact reportLost_meets hsafe
        | exited code =>
            obtain ⟨rfl, hfits⟩ := hobserved
            exact dropTerminal_meets hfits
        | signaled signal =>
            obtain ⟨rfl, hfits⟩ := hobserved
            exact dropTerminal_meets hfits
  · rintro - left later ⟨-, hfits⟩
    exact dropped_of_safe hfits.safe nofun

theorem dropTeardown_meets (hfits : Fits child lifecycle history) :
    (dropTeardown platform child rounds).Meets lifecycle history (Dropped child) := by
  refine Program.meets_get_bind ?_
  cases lifecycle with
  | owned => exact dropUnfinished_meets trivial hfits
  | exitObserved terminal => exact dropUnfinished_meets trivial hfits
  | groupSignaled terminal =>
      refine Program.meets_attempt_bind ((reap_meets hfits).mono ?_)
      intro outcome left later hreaped
      cases outcome with
      | ok state =>
          obtain ⟨rfl, hfits⟩ := hreaped
          exact Program.meets_pure ⟨hfits.safe, fun _ => hfits.2.2⟩
      | stop stop =>
          cases stop with
          | running => exact dropped_of_safe hreaped nofun
          | error error => exact Program.meets_pure (dropped_of_safe hreaped.2.fits.safe (by simp))
  | finished terminal failure =>
      cases failure with
      | none => exact Program.meets_pure ⟨hfits.safe, fun _ => hfits.2.2⟩
      | some failure => exact Program.meets_pure (dropped_of_safe hfits.safe (by simp))

theorem lifetime_meets (calls : List Call) (hfits : Fits child lifecycle history) :
    (lifetime platform child rounds calls).Meets lifecycle history (Dropped child) := by
  refine Program.meets_bind ((session_meets calls hfits).mono ?_)
  rintro (done | stop) left later hserved
  · exact dropTeardown_meets hserved
  · exact dropped_of_safe hserved.2 nofun

/-! ## From a new handle -/

theorem fits_owned : Fits child .owned [] :=
  ⟨safe_nil, fun hover => by obtain ⟨event, hmem, -⟩ := hover; cases hmem⟩

/-! ## A call that can complete -/

/-- A kernel in which the child has exited and its group takes signals. -/
def exitedWorld (child : ChildPid) : kernel.World
  | _, .waitid _ => .ok ⟨child.value, CLD_EXITED, 0⟩
  | _, .killLeader | _, .killGroup => .ok ()
  | _, .groupAllZombies => true
  | _, .lastErrno => (0 : Int32)
  | _, .elapsed => (0 : Nat)
  | _, .sleep _ => ()

theorem waitOnce_exited (platform : Platform) (child : ChildPid) (operation : SupervisionOperation)
    (options : WaitOptions) (lifecycle : Lifecycle) (past : List Event) :
    waitOnce platform child operation options (exitedWorld child) lifecycle past =
      ⟨.ok (some (.exited 0)), lifecycle,
        [⟨.waitid options, .ok ⟨child.value, CLD_EXITED, 0⟩⟩]⟩ := by
  have hpid : child.value ≠ 0 := fun hzero => absurd (hzero ▸ child.positive) (by decide)
  have hstatus : (0 : Int32) &&& 0xff = 0 := by decide
  have hexited : decodeInfo ⟨child.value, CLD_EXITED, 0⟩ = some (.exited 0) := by
    rw [decodeInfo, if_pos rfl, hstatus]
  simp [waitOnce, ask, Program.ask, bind, Program.bind, exitedWorld, hpid, hexited, pure,
    Program.pure]

theorem reap_exited (platform : Platform) (child : ChildPid) (rounds : Nat) (blocking : Bool)
    (lifecycle : Lifecycle) (past : List Event) :
    (reap platform child (rounds + 1) blocking (exitedWorld child) lifecycle past).outcome =
      .ok (.exited 0) := by
  simp [reap, Program.get, Program.rounds, Program.attempt, Program.set, bind, Program.bind,
    waitOnce_exited, pure, Program.pure]

theorem state_exited (platform : Platform) (child : ChildPid) (rounds : Nat)
    {lifecycle : Lifecycle} (hopen : lifecycle.Open) (past : List Event) :
    (perform platform child (rounds + 1) .state (exitedWorld child) lifecycle past).outcome =
      .ok (.state (.exited 0)) := by
  cases lifecycle with
  | owned =>
      simp [perform, state, observe, signalGroupAndReap, Lifecycle.cachedState,
        Lifecycle.observedExit, Program.get, Program.attempt, Program.set, bind, Program.bind,
        ask, Program.ask, exitedWorld, waitOnce_exited, reap_exited, pure, Program.pure]
  | exitObserved terminal =>
      simp [perform, state, observe, signalGroupAndReap, Lifecycle.cachedState,
        Lifecycle.observedExit, Program.get, Program.attempt, Program.set, bind, Program.bind,
        ask, Program.ask, exitedWorld, waitOnce_exited, reap_exited, pure, Program.pure]
  | groupSignaled terminal =>
      simp [perform, state, Lifecycle.cachedState, Program.get, bind, Program.bind, pure,
        Program.pure, reap_exited]
  | finished terminal failure => exact hopen.elim

def sampleChild : ChildPid := ⟨7, by decide⟩

/-! ## Every lifetime -/

/-- Whatever the kernel answers, a handle makes no call once its child was reaped or lost, and
signals the group only after it saw the child exit. A drop that reports nothing has reaped the
child after its group was disposed of. -/
theorem signals_only_with_authority (platform : Platform) (child : ChildPid) (rounds : Nat)
    (calls : List Call) (world : kernel.World) :
    Safe child (lifetime platform child rounds calls world .owned []).events ∧
      ((lifetime platform child rounds calls world .owned []).outcome = .ok none →
        Complete child (lifetime platform child rounds calls world .owned []).events) :=
  (lifetime_meets calls fits_owned).run world

theorem signals_only_with_authority_sample :
    let run := lifetime .linux sampleChild 3 [.state, .kill] (exitedWorld sampleChild) .owned []
    Safe sampleChild run.events ∧ (run.outcome = .ok none → Complete sampleChild run.events) :=
  signals_only_with_authority .linux sampleChild 3 [.state, .kill] (exitedWorld sampleChild)

/-- Whatever was called before, a call reports the child's end only when the child was reaped after
its group was disposed of, and a failure that does not lose the child leaves a handle that is not
finished: the next call completes in a kernel in which the child has exited. -/
theorem completion_reported_after_cleanup (platform : Platform) (child : ChildPid) (rounds : Nat)
    (calls : List Call) (call : Call) (world : kernel.World) :
    let run := (do
      session platform child rounds calls
      perform platform child rounds call : Step Reply) world .owned []
    Safe child run.events ∧
      (∀ reply, run.outcome = .ok reply → reply.Completes → Complete child run.events) ∧
      ∀ error, run.outcome = .stop (.error error) → error.errno ≠ ECHILD → run.memory.Open ∧
        ∀ more past, (perform platform child (more + 1) .state (exitedWorld child) run.memory
          past).outcome = .ok (.state (.exited 0)) := by
  have hmeets : (do
      session platform child rounds calls
      perform platform child rounds call : Step Reply).Meets .owned [] (Performed child) := by
    refine Program.meets_bind ((session_meets calls fits_owned).mono ?_)
    rintro (done | stop) left later hserved
    · exact perform_meets call hserved
    · obtain ⟨hends, hsafe⟩ := hserved
      cases hends
      exact hsafe
  intro run
  have hrun := hmeets.run world
  change Performed child run.outcome run.memory run.events at hrun
  cases houtcome : run.outcome with
  | ok reply =>
      rw [houtcome] at hrun
      refine ⟨hrun.1.safe, ?_, nofun⟩
      rintro told ⟨⟩
      exact hrun.2
  | stop stop =>
      rw [houtcome] at hrun
      cases stop with
      | running => exact ⟨hrun, nofun, nofun⟩
      | error error =>
          refine ⟨hrun.fits.safe, nofun, ?_⟩
          rintro failure ⟨⟩ hother
          exact ⟨hrun.unfinished hother, fun more past =>
            state_exited platform child more (hrun.unfinished hother) past⟩

/-- The child is killed, and waited for until it is reaped. -/
theorem completion_reported_after_cleanup_sample :
    let run := (do
      session .linux sampleChild 3 [.state]
      perform .linux sampleChild 3 .kill : Step Reply) (exitedWorld sampleChild) .owned []
    Safe sampleChild run.events ∧
      ∀ reply, run.outcome = .ok reply → reply.Completes → Complete sampleChild run.events :=
  have hcompletes :=
    completion_reported_after_cleanup .linux sampleChild 3 [.state] .kill (exitedWorld sampleChild)
  ⟨hcompletes.1, hcompletes.2.1⟩

end Plasmosome.Membrane.Vmm
