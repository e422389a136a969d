import Plasmosome.Membrane.Supervision

/-!
# What a handle knows

The lifecycle says how far the history of calls came: whether the child's exit was
seen, whether its group was disposed of, and whether the child was consumed. No
system call follows a wait that consumed the child or found it lost.
-/

namespace Plasmosome.Membrane

def VmmState.Terminal : VmmState → Prop
  | .exited _ | .signaled _ => True
  | .running | .lost => False

namespace Vmm

open Foundation

/-! ## Events -/

section Events

variable (child : ChildPid)

/-- A wait that leaves the child waitable reports its exit. -/
inductive Sees : Event → Prop where
  | mk {nohang : Bool} {info : SigInfo} {state : VmmState} (hpid : info.pid = child.value)
      (hstate : decodeInfo info = some state) : Sees ⟨.waitid ⟨nohang, true⟩, .ok info⟩

/-- A wait reaps the child. -/
inductive Consumes : Event → Prop where
  | mk {nohang : Bool} {info : SigInfo} {state : VmmState} (hpid : info.pid = child.value)
      (hstate : decodeInfo info = some state) : Consumes ⟨.waitid ⟨nohang, false⟩, .ok info⟩

/-- A wait finds that another one has reaped the child. -/
inductive Loses : Event → Prop where
  | mk {options : WaitOptions} : Loses ⟨.waitid options, .error ECHILD⟩

/-- The child was reaped, or found lost. -/
def Over (history : List Event) : Prop :=
  ∃ event ∈ history, Consumes child event ∨ Loses event

def Seen (history : List Event) : Prop := ∃ event ∈ history, Sees child event

/-- A signal reached the group, found none, or found only zombies. -/
inductive Disposes : List Event → Prop where
  | signalled : Disposes [⟨.killGroup, .ok ()⟩]
  | noGroup : Disposes [⟨.killGroup, .error ESRCH⟩]
  | zombies : Disposes [⟨.killGroup, .error EPERM⟩, ⟨.groupAllZombies, true⟩]

def Disposed (history : List Event) : Prop :=
  ∃ before disposal after, history = before ++ disposal ++ after ∧ Disposes disposal

/-- The group was disposed of, and then the child reaped. -/
def Complete (history : List Event) : Prop :=
  ∃ before event after, history = before ++ event :: after ∧ Disposed before ∧ Consumes child event

/-- No call comes when all is over, and none to the group before the child's exit was seen. -/
structure Allowed (before : List Event) (event : Event) : Prop where
  live : ¬Over child before
  seen : ∀ answer, event = ⟨.killGroup, answer⟩ → Seen child before

def Safe (history : List Event) : Prop :=
  ∀ before event after, history = before ++ event :: after → Allowed child before event

structure Quiet (history : List Event) : Prop where
  safe : Safe child history
  live : ¬Over child history

end Events

variable {child : ChildPid} {history later : List Event}

theorem safe_nil : Safe child [] := by
  intro before event after hsplit
  simp at hsplit

/-- An allowed event keeps a history safe. -/
theorem Safe.concat {event : Event} (hsafe : Safe child history)
    (hallowed : Allowed child history event) : Safe child (history ++ [event]) := by
  intro before other after hsplit
  rcases List.eq_nil_or_concat after with rfl | ⟨after, last, rfl⟩
  · obtain ⟨rfl, hlast⟩ := List.append_inj' hsplit rfl
    cases hlast
    exact hallowed
  · have hshorter : history ++ [event] = (before ++ other :: after) ++ [last] := by
      rw [hsplit, List.concat_eq_append, List.append_assoc, List.cons_append]
    obtain ⟨rfl, -⟩ := List.append_inj' hshorter rfl
    exact hsafe before other after rfl

/-- All is over before the last event, or by it. -/
theorem over_concat {event : Event} (hover : Over child (history ++ [event])) :
    Over child history ∨ Consumes child event ∨ Loses event := by
  obtain ⟨other, hmem, hother⟩ := hover
  rcases List.mem_append.mp hmem with hmem | hmem
  · exact Or.inl ⟨other, hmem, hother⟩
  · cases List.mem_singleton.mp hmem
    exact Or.inr hother

/-- An allowed event that neither reaps nor loses the child keeps a history quiet. -/
theorem Quiet.concat {event : Event} (hquiet : Quiet child history)
    (hallowed : Allowed child history event) (hconsumes : ¬Consumes child event)
    (hloses : ¬Loses event) : Quiet child (history ++ [event]) := by
  refine ⟨hquiet.safe.concat hallowed, fun hover => ?_⟩
  rcases over_concat hover with hover | hover | hover
  · exact hquiet.live hover
  · exact hconsumes hover
  · exact hloses hover

/-- An exit once seen stays seen. -/
theorem Seen.append (hseen : Seen child history) (more : List Event) :
    Seen child (history ++ more) := by
  obtain ⟨event, hmem, hsees⟩ := hseen
  exact ⟨event, List.mem_append_left more hmem, hsees⟩

/-- A group once disposed of stays so. -/
theorem Disposed.append (hdisposed : Disposed history) (more : List Event) :
    Disposed (history ++ more) := by
  obtain ⟨before, disposal, after, rfl, hdisposes⟩ := hdisposed
  exact ⟨before, disposal, after ++ more, (List.append_assoc _ _ _), hdisposes⟩

theorem Disposes.disposed {disposal : List Event} (hdisposes : Disposes disposal) :
    Disposed (history ++ disposal) :=
  ⟨history, disposal, [], (List.append_nil _).symm, hdisposes⟩

/-- A call that is no wait and does not signal the group. -/
def Neutral : Event → Prop
  | ⟨.waitid _, _⟩ | ⟨.killGroup, _⟩ => False
  | _ => True

theorem Neutral.not_over {event : Event} (hneutral : Neutral event) :
    ¬Consumes child event ∧ ¬Loses event ∧ ∀ answer, event ≠ ⟨.killGroup, answer⟩ := by
  refine ⟨?_, ?_, ?_⟩
  · intro hconsumes
    cases hconsumes
    exact hneutral
  · intro hloses
    cases hloses
    exact hneutral
  · rintro answer rfl
    exact hneutral

/-- An event that concerns neither the child nor its group keeps a history quiet. -/
theorem Quiet.neutral {event : Event} (hquiet : Quiet child history) (hneutral : Neutral event) :
    Quiet child (history ++ [event]) := by
  obtain ⟨hconsumes, hloses, hgroup⟩ := @Neutral.not_over child event hneutral
  refine hquiet.concat ⟨hquiet.live, fun answer hanswer => ?_⟩ hconsumes hloses
  exact absurd hanswer (hgroup answer)

/-! ## Lifecycles -/

/-- The handle is not finished. -/
def Lifecycle.Open : Lifecycle → Prop
  | .finished _ _ => False
  | _ => True

/-- The handle still waits for its child to exit, or for its group to be signalled. -/
def Lifecycle.Watching : Lifecycle → Prop
  | .owned | .exitObserved _ => True
  | _ => False

/-- What the lifecycle says of the history. -/
def Fits (child : ChildPid) : Lifecycle → List Event → Prop
  | .owned, history => Quiet child history
  | .exitObserved state, history => Quiet child history ∧ Seen child history ∧ state.Terminal
  | .groupSignaled state, history =>
      Quiet child history ∧ Seen child history ∧ state.Terminal ∧ Disposed history
  | .finished state none, history => Safe child history ∧ state.Terminal ∧ Complete child history
  | .finished state (some failure), history =>
      Safe child history ∧ state = .lost ∧ failure.errno = ECHILD

/-- A handle that is not finished has a quiet history. -/
theorem Fits.quiet {lifecycle : Lifecycle} (hfits : Fits child lifecycle history)
    (hopen : lifecycle.Open) : Quiet child history := by
  cases lifecycle with
  | owned => exact hfits
  | exitObserved state => exact hfits.1
  | groupSignaled state => exact hfits.1
  | finished state failure => exact hopen.elim

/-- Whatever the lifecycle, its history is safe. -/
theorem Fits.safe {lifecycle : Lifecycle} (hfits : Fits child lifecycle history) :
    Safe child history := by
  cases lifecycle with
  | finished state failure => cases failure <;> exact hfits.1
  | _ => exact (hfits.quiet trivial).safe

/-- Calls that tell nothing new of the child keep what an open lifecycle says. -/
theorem Fits.grow {lifecycle : Lifecycle} {more : List Event} (hfits : Fits child lifecycle history)
    (hopen : lifecycle.Open) (hquiet : Quiet child (history ++ more)) :
    Fits child lifecycle (history ++ more) := by
  cases lifecycle with
  | owned => exact hquiet
  | exitObserved state => exact ⟨hquiet, hfits.2.1.append more, hfits.2.2⟩
  | groupSignaled state =>
      exact ⟨hquiet, hfits.2.1.append more, hfits.2.2.1, hfits.2.2.2.append more⟩
  | finished state failure => exact hopen.elim

/-- A call that failed. Only a lost child ends its handle. -/
structure Broken (child : ChildPid) (error : SupervisionError) (left : Lifecycle)
    (later : List Event) : Prop where
  fits : Fits child left later
  unfinished : error.errno ≠ ECHILD → left.Open

theorem Broken.lost {error : SupervisionError} (herror : error.errno = ECHILD)
    (hsafe : Safe child later) : Broken child error (.finished .lost (some error)) later :=
  ⟨⟨hsafe, rfl, herror⟩, fun hother => absurd herror hother⟩

theorem EPROTO_ne (platform : Platform) : platform.EPROTO ≠ ECHILD := by
  cases platform <;> decide

/-- What a wait decodes is a terminal state. -/
theorem decodeInfo_terminal {info : SigInfo} {state : VmmState}
    (hdecode : decodeInfo info = some state) :
    state.Terminal := by
  unfold decodeInfo at hdecode
  split at hdecode
  next =>
    cases hdecode
    trivial
  next =>
    split at hdecode
    next =>
      cases hdecode
      trivial
    next => cases hdecode

/-! ## Waits -/

section Waits

variable {platform : Platform} {rounds : Nat} {lifecycle : Lifecycle}
  {operation : SupervisionOperation}

/-- A wait by what it tells of the child. -/
theorem waitOnce_meets {options : WaitOptions}
    {post : Outcome SupervisionError (Option VmmState) → Lifecycle → List Event → Prop}
    (hquiet : Quiet child history)
    (hfailed : ∀ error event, error.operation = operation → error.errno ≠ ECHILD →
      Quiet child (history ++ [event]) →
      post (.stop (.error error)) lifecycle (history ++ [event]))
    (hlost : ∀ event, Safe child (history ++ [event]) →
      post (.stop (.error ⟨operation, ECHILD, none⟩)) lifecycle (history ++ [event]))
    (hnone : ∀ event, Quiet child (history ++ [event]) →
      post (.ok none) lifecycle (history ++ [event]))
    (hsees : ∀ event state, options.nowait = true → state.Terminal → Sees child event →
      Quiet child (history ++ [event]) → post (.ok (some state)) lifecycle (history ++ [event]))
    (hconsumes : ∀ event state, options.nowait = false → state.Terminal → Consumes child event →
      Safe child (history ++ [event]) → post (.ok (some state)) lifecycle (history ++ [event])) :
    (waitOnce platform child operation options).Meets lifecycle history post := by
  have hallowed : ∀ answer : Except Int32 SigInfo,
      Allowed child history ⟨.waitid options, answer⟩ := by
    intro answer
    refine ⟨hquiet.live, fun other hother => ?_⟩
    cases hother
  have hsilent : ∀ info : SigInfo, (info.pid = child.value → decodeInfo info = none) →
      Quiet child (history ++ [⟨.waitid options, .ok info⟩]) := by
    intro info hinfo
    refine hquiet.concat (hallowed (.ok info)) ?_ ?_
    · intro hevent
      cases hevent with
      | mk hpid hstate =>
          rw [hinfo hpid] at hstate
          cases hstate
    · intro hevent
      cases hevent
  refine Program.meets_ask_bind fun answer => ?_
  change Except Int32 SigInfo at answer
  cases answer with
  | error errno =>
      refine Program.meets_throw ?_
      by_cases herrno : errno = ECHILD
      · rw [herrno]
        exact hlost _ (hquiet.safe.concat (hallowed (.error ECHILD)))
      · refine hfailed _ _ rfl herrno (hquiet.concat (hallowed (.error errno)) ?_ ?_)
        · intro hevent
          cases hevent
        · intro hevent
          cases hevent
          exact herrno rfl
  | ok info =>
      simp only
      split
      next hzero =>
        refine Program.meets_pure (hnone _ (hsilent info fun hpid => ?_))
        -- no child has process id 0
        have hpositive := child.positive
        rw [← hpid, hzero] at hpositive
        exact absurd hpositive (by decide)
      next =>
        split
        next hother =>
          refine Program.meets_throw (hfailed _ _ rfl (EPROTO_ne platform) (hsilent info ?_))
          exact fun hpid => absurd hpid hother
        next hpid =>
          have hpid := not_not.mp hpid
          split
          next hdecode =>
            exact Program.meets_throw
              (hfailed _ _ rfl (EPROTO_ne platform) (hsilent info fun _ => hdecode))
          next state hdecode =>
            refine Program.meets_pure ?_
            obtain ⟨nohang, nowait⟩ := options
            cases nowait with
            | true =>
                refine hsees _ state rfl (decodeInfo_terminal hdecode) (.mk hpid hdecode) ?_
                refine hquiet.concat (hallowed (.ok info)) ?_ ?_
                · intro hevent
                  cases hevent
                · intro hevent
                  cases hevent
            | false =>
                exact hconsumes _ state rfl (decodeInfo_terminal hdecode) (.mk hpid hdecode)
                  (hquiet.safe.concat (hallowed (.ok info)))

theorem seen_concat {event : Event} (hsees : Sees child event) : Seen child (history ++ [event]) :=
  ⟨event, List.mem_append_right _ List.mem_cons_self, hsees⟩

/-- What a look at the child can come to. -/
def Observed (child : ChildPid) (outcome : Outcome SupervisionError VmmState) (left : Lifecycle)
    (later : List Event) : Prop :=
  match outcome with
  | .ok .running => left = .owned ∧ Quiet child later
  | .ok .lost => ∃ failure, left = .finished .lost (some failure) ∧ failure.errno = ECHILD ∧
      Safe child later
  | .ok state => left = .exitObserved state ∧ Fits child left later
  | .stop (.error error) => Broken child error left later ∧
      (error.errno ≠ ECHILD → left.Watching)
  | .stop .running => Safe child later

theorem observed_terminal {terminal : VmmState} (hterminal : terminal.Terminal)
    (hfits : Fits child (.exitObserved terminal) later) :
    Observed child (.ok terminal) (.exitObserved terminal) later := by
  cases terminal with
  | running => exact hterminal.elim
  | lost => exact hterminal.elim
  | exited code => exact ⟨rfl, hfits⟩
  | signaled signal => exact ⟨rfl, hfits⟩

/-- An observation sees the exit, sees none, fails, or loses the child. -/
theorem observe_meets (hwatching : lifecycle.Watching) (hfits : Fits child lifecycle history) :
    (observe platform child).Meets lifecycle history (Observed child) := by
  have hopen : lifecycle.Open := by
    cases lifecycle <;> trivial
  have howned : lifecycle.observedExit = none → lifecycle = .owned := by
    intro hknown
    cases lifecycle with
    | owned => rfl
    | exitObserved state => cases hknown
    | groupSignaled state => exact hwatching.elim
    | finished state failure => exact hwatching.elim
  refine Program.meets_get_bind ?_
  refine Program.meets_attempt_bind (waitOnce_meets (hfits.quiet hopen) ?_ ?_ ?_ ?_ ?_)
  · intro error event _ herror hquiet
    simp only [if_neg herror]
    exact Program.meets_throw ⟨⟨hfits.grow hopen hquiet, fun _ => hopen⟩, fun _ => hwatching⟩
  · intro event hsafe
    simp only [if_true]
    refine Program.meets_set_bind ?_
    split
    next => exact Program.meets_pure ⟨_, rfl, rfl, hsafe⟩
    next => exact Program.meets_throw ⟨Broken.lost rfl hsafe, fun hother => absurd rfl hother⟩
  · intro event hquiet
    simp only
    split
    next hknown => exact Program.meets_pure ⟨howned hknown, hquiet⟩
    next =>
      exact Program.meets_throw ⟨⟨hfits.grow hopen hquiet, fun _ => hopen⟩, fun _ => hwatching⟩
  · intro event state _ hterminal hsees hquiet
    refine Program.meets_set_bind (Program.meets_pure ?_)
    exact observed_terminal hterminal ⟨hquiet, seen_concat hsees, hterminal⟩
  · intro event state hnowait
    cases hnowait

/-- What a wait for a child that was signalled can come to. -/
def Awaited (child : ChildPid) (outcome : Outcome SupervisionError VmmState) (left : Lifecycle)
    (later : List Event) : Prop :=
  match outcome with
  | .ok state => left = .exitObserved state ∧ Fits child left later
  | .stop (.error error) => Broken child error left later
  | .stop .running => Safe child later

/-- The wait for the leader ends with an exit seen. -/
theorem waitForLeader_meets (hfits : Fits child lifecycle history) (hopen : lifecycle.Open) :
    (waitForLeader platform child rounds).Meets lifecycle history (Awaited child) := by
  refine Program.meets_rounds (fun _ left later => left = lifecycle ∧ Fits child lifecycle later)
    ?_ (fun _ _ _ hround => hround.2.safe) rounds ⟨rfl, hfits⟩
  rintro - left later ⟨rfl, hfits⟩
  refine Program.meets_attempt_bind (waitOnce_meets (hfits.quiet hopen) ?_ ?_ ?_ ?_ ?_)
  · intro error event _ herror hquiet
    simp only [if_neg herror]
    split
    next => exact Program.meets_pure ⟨rfl, hfits.grow hopen hquiet⟩
    next => exact Program.meets_throw ⟨hfits.grow hopen hquiet, fun _ => hopen⟩
  · intro event hsafe
    simp only [if_neg (show ECHILD ≠ EINTR by decide), if_true]
    exact Program.meets_set_bind (Program.meets_throw (Broken.lost rfl hsafe))
  · intro event hquiet
    exact Program.meets_throw ⟨hfits.grow hopen hquiet, fun _ => hopen⟩
  · intro event state _ hterminal hsees hquiet
    exact Program.meets_set_bind (Program.meets_pure ⟨rfl, hquiet, seen_concat hsees, hterminal⟩)
  · intro event state hnowait
    cases hnowait

/-- What a reap can come to. -/
def Reaped (child : ChildPid) (outcome : Outcome SupervisionError VmmState) (left : Lifecycle)
    (later : List Event) : Prop :=
  match outcome with
  | .ok state => left = .finished state none ∧ Fits child left later
  | .stop (.error error) => error.operation = .reap ∧ Broken child error left later
  | .stop .running => Safe child later

/-- A reap consumes the child once its group was disposed of. -/
theorem reap_meets {terminal : VmmState} {blocking : Bool}
    (hfits : Fits child (.groupSignaled terminal) history) :
    (reap platform child rounds blocking).Meets (.groupSignaled terminal) history
      (Reaped child) := by
  refine Program.meets_get_bind ?_
  refine Program.meets_rounds
    (fun _ left later => left = .groupSignaled terminal ∧
      Fits child (.groupSignaled terminal) later)
    ?_ (fun _ _ _ hround => hround.2.safe) rounds ⟨rfl, hfits⟩
  rintro - left later ⟨rfl, hfits⟩
  refine Program.meets_attempt_bind (waitOnce_meets hfits.1 ?_ ?_ ?_ ?_ ?_)
  · intro error event hoperation herror hquiet
    simp only [if_neg herror]
    split
    next => exact Program.meets_pure ⟨rfl, hfits.grow trivial hquiet⟩
    next =>
      exact Program.meets_throw ⟨hoperation, hfits.grow trivial hquiet, fun _ => trivial⟩
  · intro event hsafe
    simp only [show ¬(blocking = true ∧
      ECHILD = EINTR) from fun hsame => absurd hsame.2 (by decide),
      if_false, if_true]
    exact Program.meets_set_bind (Program.meets_throw ⟨rfl, Broken.lost rfl hsafe⟩)
  · intro event hquiet
    exact Program.meets_throw ⟨rfl, hfits.grow trivial hquiet, fun _ => trivial⟩
  · intro event state hnowait
    cases hnowait
  · intro event state _ hterminal hconsumes hsafe
    refine Program.meets_set_bind (Program.meets_pure ⟨rfl, hsafe, hterminal, ?_⟩)
    exact ⟨later, event, [], rfl, hfits.2.2.2, hconsumes⟩

/-- What disposing of the group of a child that was seen to exit can come to: a failure to signal
leaves its exit observed. -/
def Settled (child : ChildPid) (terminal : VmmState) (outcome : Outcome SupervisionError VmmState)
    (left : Lifecycle) (later : List Event) : Prop :=
  match outcome with
  | .ok state => left = .finished state none ∧ Fits child left later
  | .stop (.error error) => Broken child error left later ∧
      (error.operation = .signalGroup → left = .exitObserved terminal) ∧
      (error.operation ≠ .signalGroup → error.operation = .reap)
  | .stop .running => Safe child later

theorem Reaped.settled {terminal : VmmState} {outcome : Outcome SupervisionError VmmState}
    {left : Lifecycle} (hreaped : Reaped child outcome left later) :
    Settled child terminal outcome left later := by
  cases outcome with
  | ok state => exact hreaped
  | stop stop =>
      cases stop with
      | running => exact hreaped
      | error error =>
          obtain ⟨hoperation, hbroken⟩ := hreaped
          refine ⟨hbroken, fun hsignal => ?_, fun _ => hoperation⟩
          rw [hoperation] at hsignal
          cases hsignal

/-- The group is signalled after the exit was seen, and then the child is reaped. -/
theorem signalGroupAndReap_meets {terminal : VmmState} {blocking : Bool} {lifecycle : Lifecycle}
    (hfits : Fits child (.exitObserved terminal) history) :
    (signalGroupAndReap platform child rounds terminal blocking).Meets lifecycle history
      (Settled child terminal) := by
  obtain ⟨hquiet, hseen, hterminal⟩ := hfits
  have hsignal : ∀ answer : Except Int32 Unit, Quiet child (history ++ [⟨.killGroup, answer⟩]) := by
    intro answer
    refine hquiet.concat ⟨hquiet.live, fun _ _ => hseen⟩ ?_ ?_
    · intro hconsumes
      cases hconsumes
    · intro hloses
      cases hloses
  have hreap : ∀ {later : List Event}, Quiet child later → Seen child later → Disposed later →
      (Program.set (Lifecycle.groupSignaled terminal) >>= fun _ =>
        reap platform child rounds blocking : Step VmmState).Meets lifecycle later
          (Settled child terminal) := by
    intro later hquiet hseen hdisposed
    refine Program.meets_set_bind ?_
    exact (reap_meets ⟨hquiet, hseen, hterminal, hdisposed⟩).mono fun _ _ _ => Reaped.settled
  refine Program.meets_ask_bind fun answer => ?_
  change Except Int32 Unit at answer
  cases answer with
  | ok done => exact hreap (hsignal (.ok done)) (hseen.append _) Disposes.signalled.disposed
  | error errno =>
      have hquiet := hsignal (.error errno)
      have hseen := hseen.append [(⟨.killGroup, .error errno⟩ : Event)]
      have hfail : ∀ {later : List Event} {zombies : Bool}, Quiet child later → Seen child later →
          zombies = false → errno ≠ ESRCH →
          (if errno = ESRCH ∨ zombies = true then do
            Program.set (Lifecycle.groupSignaled terminal)
            reap platform child rounds blocking
          else do
            Program.set (Lifecycle.exitObserved terminal)
            Program.throw ⟨.signalGroup, errno,
            some terminal⟩ : Step VmmState).Meets lifecycle later
              (Settled child terminal) := by
        intro later zombies hquiet hseen hzombies hother
        rw [if_neg (by simp [hzombies, hother])]
        refine Program.meets_set_bind
          (Program.meets_throw ⟨⟨⟨hquiet, hseen, hterminal⟩, ?_⟩, ?_, ?_⟩)
        · exact fun _ => trivial
        · exact fun _ => rfl
        · exact fun hoperation => absurd rfl hoperation
      simp only
      by_cases hdenied : errno = EPERM
      · subst hdenied
        rw [if_pos rfl]
        cases platform with
        | linux => exact Program.meets_pure_bind (hfail hquiet hseen rfl (by decide))
        | macos =>
            refine Program.meets_ask_bind fun zombies => ?_
            change Bool at zombies
            have hasked : Quiet child (history ++ [⟨.killGroup, .error EPERM⟩] ++
                [⟨.groupAllZombies, zombies⟩]) := hquiet.neutral trivial
            cases zombies with
            | false => exact hfail hasked (hseen.append _) rfl (by decide)
            | true =>
                rw [if_pos (Or.inr rfl)]
                refine hreap hasked (hseen.append _) ?_
                rw [List.append_assoc]
                exact Disposes.zombies.disposed
      · rw [if_neg hdenied]
        refine Program.meets_pure_bind ?_
        by_cases hnone : errno = ESRCH
        · subst hnone
          rw [if_pos (Or.inl rfl)]
          exact hreap hquiet hseen Disposes.noGroup.disposed
        · exact hfail hquiet hseen rfl hnone

/-! ## Calls -/

/-- What a call for the child's state can come to. A terminal state is reported only of a child
that was reaped after its group was disposed of. -/
def Told (child : ChildPid) (outcome : Outcome SupervisionError VmmState) (left : Lifecycle)
    (later : List Event) : Prop :=
  match outcome with
  | .ok state => Fits child left later ∧ (state.Terminal → Complete child later) ∧
      (state = .running → left.Open)
  | .stop (.error error) => Broken child error left later
  | .stop .running => Safe child later

theorem told_finished {state : VmmState} {left : Lifecycle} (hleft : left = .finished state none)
    (hfits : Fits child left later) : Told child (.ok state) left later := by
  subst hleft
  refine ⟨hfits, fun _ => hfits.2.2, ?_⟩
  rintro rfl
  exact hfits.2.1.elim

/-- What was settled is what is told. -/
theorem Settled.told {terminal : VmmState} {outcome : Outcome SupervisionError VmmState}
    {left : Lifecycle} (hsettled : Settled child terminal outcome left later) :
    Told child outcome left later := by
  cases outcome with
  | ok state => exact told_finished hsettled.1 hsettled.2
  | stop stop =>
      cases stop with
      | running => exact hsettled
      | error error => exact hsettled.1

/-- A finished handle tells what it remembers, and makes no call. -/
theorem told_cached {state : VmmState} {failure : Option SupervisionError} {fallback : VmmState}
    (hfits : Fits child (.finished state failure) history) :
    (Program.ofExcept ((Lifecycle.finished state failure).cachedState.getD (.ok fallback)) :
      Step VmmState).Meets (.finished state failure) history (Told child) := by
  cases failure with
  | none => exact Program.meets_pure (told_finished rfl hfits)
  | some failure =>
      obtain ⟨hsafe, hlost, herrno⟩ := hfits
      subst hlost
      simp only [Lifecycle.cachedState, Option.getD_some]
      split
      next => exact Program.meets_throw ⟨⟨hsafe, rfl, herrno⟩, fun hother => absurd herrno hother⟩
      next =>
        refine Program.meets_pure ⟨⟨hsafe, rfl, herrno⟩, fun hterminal => hterminal.elim, ?_⟩
        intro hrunning
        cases hrunning

theorem observing_meets (hwatching : lifecycle.Watching) (hfits : Fits child lifecycle history) :
    (do
      match ← observe platform child with
      | .running | .lost => cachedOrRunning
      | terminal => signalGroupAndReap platform child rounds terminal false : Step VmmState).Meets
        lifecycle history (Told child) := by
  refine Program.meets_bind ((observe_meets hwatching hfits).mono ?_)
  intro outcome left later hobserved
  cases outcome with
  | stop stop =>
      cases stop with
      | running => exact hobserved
      | error error => exact hobserved.1
  | ok state =>
      cases state with
      | running =>
          obtain ⟨rfl, hquiet⟩ := hobserved
          refine Program.meets_get_bind (Program.meets_pure ⟨hquiet, ?_, fun _ => trivial⟩)
          exact fun hterminal => hterminal.elim
      | lost =>
          obtain ⟨failure, rfl, herrno, hsafe⟩ := hobserved
          exact Program.meets_get_bind (told_cached ⟨hsafe, rfl, herrno⟩)
      | exited code =>
          obtain ⟨rfl, hfits⟩ := hobserved
          exact (signalGroupAndReap_meets hfits).mono fun _ _ _ => Settled.told
      | signaled signal =>
          obtain ⟨rfl, hfits⟩ := hobserved
          exact (signalGroupAndReap_meets hfits).mono fun _ _ _ => Settled.told

/-- A poll tells an end only when all is settled. -/
theorem state_meets (hfits : Fits child lifecycle history) :
    (state platform child rounds).Meets lifecycle history (Told child) := by
  refine Program.meets_get_bind ?_
  cases lifecycle with
  | owned => exact observing_meets trivial hfits
  | exitObserved terminal => exact observing_meets trivial hfits
  | groupSignaled terminal =>
      exact (reap_meets hfits).mono fun _ _ _ hreaped =>
        (@Reaped.settled _ _ terminal _ _ hreaped).told
  | finished terminal failure => exact @told_cached child history terminal failure .running hfits

/-- The end of a program that returns a result, or fails with it. -/
def ended : Except SupervisionError VmmState → Outcome SupervisionError VmmState
  | .ok state => .ok state
  | .error error => .stop (.error error)

/-- A result that a wait may poll again after leaves an open handle. -/
theorem Told.grow {result : Except SupervisionError VmmState} {left : Lifecycle} {event : Event}
    (htold : Told child (ended result) left later)
    (hagain : result = .ok .running ∨ ∃ error, result = .error error ∧ error.errno = EINTR)
    (hneutral : Neutral event) :
    left.Open ∧ Fits child left (later ++ [event]) ∧
        Told child (ended result) left (later ++ [event]) := by
  rcases hagain with rfl | ⟨error, rfl, herrno⟩
  · obtain ⟨hfits, -, hopen⟩ := htold
    have hleft := hopen rfl
    have hgrown := hfits.grow hleft ((hfits.quiet hleft).neutral hneutral)
    exact ⟨hleft, hgrown, hgrown, fun hterminal => hterminal.elim, fun _ => hleft⟩
  · have hleft := htold.unfinished (by rw [herrno]; decide)
    have hgrown := htold.fits.grow hleft ((htold.fits.quiet hleft).neutral hneutral)
    exact ⟨hleft, hgrown, hgrown, fun _ => hleft⟩

/-- A wait for the end tells an end only when all is settled. -/
theorem waitTerminal_meets {deadline : Nat} (hfits : Fits child lifecycle history) :
    (waitTerminal platform child rounds deadline).Meets lifecycle history (Told child) := by
  refine Program.meets_bind (Program.meets_rounds (fun _ left later => Fits child left later) ?_
    (fun _ _ _ hround => hround.safe) rounds hfits)
  rintro - left later hfits
  refine Program.meets_attempt_bind ((state_meets hfits).mono ?_)
  -- Both polled results ask the clock, and then end or sleep and go round.
  have hpause : ∀ {result : Except SupervisionError VmmState} {left : Lifecycle}
      {later : List Event},
      Told child (ended result) left later →
      (result = .ok .running ∨ ∃ error, result = .error error ∧ error.errno = EINTR) →
      (do
        let elapsed : Nat ← ask .elapsed
        if deadline ≤ elapsed then return .inr result
        else do
          let _ ← ask (.sleep (min POLL_INTERVAL (deadline - elapsed)))
          return .inl () : Step (Unit ⊕ Except SupervisionError VmmState)).Meets left later
        fun outcome left later => match outcome with
          | .ok (.inl _) => Fits child left later
          | .ok (.inr result) =>
              (Program.ofExcept result : Step VmmState).Meets left later (Told child)
          | .stop stop => Told child (.stop stop) left later := by
    intro result left later htold hagain
    refine Program.meets_ask_bind fun elapsed => ?_
    obtain ⟨hleft, hfits, htold⟩ := @Told.grow _ _ _ _ ⟨.elapsed, elapsed⟩ htold hagain trivial
    split
    next =>
      refine Program.meets_pure ?_
      cases result with
      | ok state => exact Program.meets_pure htold
      | error error => exact Program.meets_throw htold
    next =>
      refine Program.meets_ask_bind fun slept => Program.meets_pure ?_
      exact hfits.grow hleft ((hfits.quiet hleft).neutral trivial)
  intro outcome left later htold
  cases outcome with
  | ok state =>
      cases state with
      | running =>
          refine Program.meets_pure_bind ((@hpause (.ok .running) _ _ htold (Or.inl rfl)).mono ?_)
          rintro (next | stop) left later hpost
          · cases next <;> exact hpost
          · exact hpost
      | exited code => exact Program.meets_pure_bind (Program.meets_pure (Program.meets_pure htold))
      | signaled signal =>
          exact Program.meets_pure_bind (Program.meets_pure (Program.meets_pure htold))
      | lost => exact Program.meets_pure_bind (Program.meets_pure (Program.meets_pure htold))
  | stop stop =>
      cases stop with
      | running => exact htold
      | error error =>
          refine Program.meets_bind ?_
          change (if error.errno = EINTR then do
              let elapsed : Nat ← ask .elapsed
              return elapsed < deadline
            else return false : Step Bool).Meets left later _
          split
          next hinterrupted =>
            refine Program.meets_ask_bind fun elapsed => Program.meets_pure ?_
            have hagain : (.error error : Except SupervisionError VmmState) = .ok .running ∨
                ∃ again, (.error error : Except SupervisionError VmmState) = .error again ∧
                  again.errno = EINTR := Or.inr ⟨error, rfl, hinterrupted⟩
            obtain ⟨-, -, htold⟩ :=
              @Told.grow _ _ (.error error) _ ⟨.elapsed, elapsed⟩ htold hagain trivial
            dsimp only
            split
            next =>
              refine (@hpause (.error error) _ _ htold hagain).mono ?_
              rintro (next | stop) left later hpost
              · cases next <;> exact hpost
              · exact hpost
            next => exact Program.meets_pure (Program.meets_throw htold)
          next => exact Program.meets_pure (Program.meets_pure (Program.meets_throw htold))

/-- Signalling the leader leaves the lifecycle as it was. -/
theorem signalLeader_meets (hfits : Fits child lifecycle history) (hopen : lifecycle.Open) :
    (signalLeader).Meets lifecycle history fun outcome left later =>
      left = lifecycle ∧ Fits child lifecycle later ∧ outcome ≠ .stop .running ∧
        ∀ error, outcome = .stop (.error error) → error.operation = .signalLeader := by
  refine Program.meets_ask_bind fun answer => ?_
  change Except Int32 Unit at answer
  have hgrown := hfits.grow hopen ((hfits.quiet hopen).neutral
    (show Neutral ⟨.killLeader, answer⟩ from trivial))
  cases answer with
  | ok done => exact Program.meets_pure ⟨rfl, hgrown, nofun, nofun⟩
  | error errno =>
      refine Program.meets_throw ⟨rfl, hgrown, nofun, ?_⟩
      rintro error ⟨⟩
      rfl

/-- What a kill can come to. -/
def Killed (child : ChildPid) (outcome : Outcome SupervisionError Unit) (left : Lifecycle)
    (later : List Event) : Prop :=
  match outcome with
  | .ok () => Fits child left later ∧ Complete child later
  | .stop (.error error) => Broken child error left later
  | .stop .running => Safe child later

/-- A program that ends with the child settled, and then is done. -/
theorem killed_of_settled {program : Step VmmState} {terminal : VmmState}
    (hprogram : program.Meets lifecycle history (Settled child terminal)) :
    (program >>= fun _ => (return () : Step Unit)).Meets lifecycle history (Killed child) := by
  refine Program.meets_bind (hprogram.mono ?_)
  intro outcome left later hsettled
  cases outcome with
  | ok state =>
      obtain ⟨rfl, hfits⟩ := hsettled
      exact Program.meets_pure ⟨hfits, hfits.2.2⟩
  | stop stop =>
      cases stop with
      | running => exact hsettled
      | error error => exact hsettled.1

theorem killing_meets (hwatching : lifecycle.Watching) (hfits : Fits child lifecycle history) :
    (do
      match ← observe platform child with
      | .lost => do
          let error ← finishedFailure
          Program.throw error
      | .running => do
          signalLeader
          let terminal ← waitForLeader platform child rounds
          let _ ← signalGroupAndReap platform child rounds terminal true
          return ()
      | terminal => do
          let _ ← signalGroupAndReap platform child rounds terminal true
          return () : Step Unit).Meets lifecycle history (Killed child) := by
  refine Program.meets_bind ((observe_meets hwatching hfits).mono ?_)
  intro outcome left later hobserved
  cases outcome with
  | stop stop =>
      cases stop with
      | running => exact hobserved
      | error error => exact hobserved.1
  | ok state =>
      cases state with
      | lost =>
          obtain ⟨failure, rfl, herrno, hsafe⟩ := hobserved
          refine Program.meets_bind (Program.meets_get_bind (Program.meets_pure ?_))
          exact Program.meets_throw ⟨⟨hsafe, rfl, herrno⟩, fun hother => absurd herrno hother⟩
      | running =>
          obtain ⟨rfl, hquiet⟩ := hobserved
          have howned : Fits child .owned later := hquiet
          refine Program.meets_bind ((signalLeader_meets howned trivial).mono ?_)
          rintro outcome left later ⟨rfl, hfits, hends, -⟩
          cases outcome with
          | stop stop =>
              cases stop with
              | running => exact absurd rfl hends
              | error error => exact ⟨hfits, fun _ => trivial⟩
          | ok done =>
              refine Program.meets_bind ((waitForLeader_meets hfits trivial).mono ?_)
              intro outcome left later hawaited
              cases outcome with
              | stop stop =>
                  cases stop with
                  | running => exact hawaited
                  | error error => exact hawaited
              | ok terminal =>
                  obtain ⟨rfl, hfits⟩ := hawaited
                  exact killed_of_settled (signalGroupAndReap_meets hfits)
      | exited code =>
          obtain ⟨rfl, hfits⟩ := hobserved
          exact killed_of_settled (signalGroupAndReap_meets hfits)
      | signaled signal =>
          obtain ⟨rfl, hfits⟩ := hobserved
          exact killed_of_settled (signalGroupAndReap_meets hfits)

/-- A kill succeeds only when all is settled. -/
theorem kill_meets (hfits : Fits child lifecycle history) :
    (kill platform child rounds).Meets lifecycle history (Killed child) := by
  refine Program.meets_get_bind ?_
  cases lifecycle with
  | owned => exact killing_meets trivial hfits
  | exitObserved terminal => exact killing_meets trivial hfits
  | groupSignaled terminal =>
      exact @killed_of_settled _ _ _ _ terminal
        ((reap_meets hfits).mono fun _ _ _ => Reaped.settled)
  | finished terminal failure =>
      cases failure with
      | none => exact Program.meets_pure ⟨hfits, hfits.2.2⟩
      | some failure => exact Program.meets_throw ⟨hfits, fun hother => absurd hfits.2.2 hother⟩

end Waits

end Vmm

end Plasmosome.Membrane
