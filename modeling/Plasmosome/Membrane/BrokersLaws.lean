import Plasmosome.Foundation.Runs
import Plasmosome.Membrane.Brokers
import Plasmosome.Membrane.ReadinessLaws

/-!
# What a status call says of the brokers

The events of a call are one round for each broker that was asked, in the order of
the set. Only a broker that answered ready in time lets the call go on to the next.
-/

namespace Plasmosome.Membrane.BrokerSet

open Foundation
open Serde
open Probe (Readiness NotReady Cancelled)

variable {Child SpawnError : Type}

/-! ## One broker -/

section Rounds

variable (prober : Prober) (budget : ProbeBudget)

/-- One broker is asked: something was left of the budget, its probe ran, and the clock was read
after it. -/
def Asked (broker : Broker Child) (answer : Outcome Cancelled Readiness) (after : Reading)
    (events : List Probe.Event) : Prop :=
  ∃ before left probing, budget.remainingAt before = .ok left ∧
    (prober broker.controlSocket budget).Ran () answer () probing ∧
    events = ⟨.clock, before⟩ :: (probing ++ [⟨.clock, after⟩])

/-- One broker is asked, and answers ready with something of the budget left. -/
def AnsweredReady (broker : Broker Child) (events : List Probe.Event) : Prop :=
  ∃ state after left, Asked prober budget broker (.ok (.ready state)) after events ∧
    budget.remainingAt after = .ok left

/-- How a survey ends, by the brokers that did not answer ready in time. `asked` are the names of
those that did. -/
inductive Ends (asked : List String) :
    List (Broker Child) → Outcome Cancelled SetStatus → List Probe.Event → Prop where
  | ready : Ends asked [] (.ok .ready) []
  | unreached {broker : Broker Child} {later : List (Broker Child)} {reading : Reading}
      (hspent : budget.remainingAt reading = .error .timedOut) :
      Ends asked (broker :: later) (.ok (.deadlineSpent broker.name asked)) [⟨.clock, reading⟩]
  | stopped {broker : Broker Child} {later : List (Broker Child)} {reading : Reading}
      (hcancelled : budget.remainingAt reading = .error .cancelled) :
      Ends asked (broker :: later) (.stop (.error ⟨⟩)) [⟨.clock, reading⟩]
  | probing {broker : Broker Child} {later : List (Broker Child)} {before : Reading} {left : Nat}
      {probing : List Probe.Event} (hleft : budget.remainingAt before = .ok left)
      (hran : (prober broker.controlSocket budget).Ran () (.stop .running) () probing) :
      Ends asked (broker :: later) (.stop .running) (⟨.clock, before⟩ :: probing)
  | late {broker : Broker Child} {later : List (Broker Child)} {after : Reading}
      {answer : Outcome Cancelled Readiness} {events : List Probe.Event}
      (hasked : Asked prober budget broker answer after events)
      (hspent : budget.remainingAt after = .error .timedOut) :
      Ends asked (broker :: later) (.ok (.notReady broker.name .timedOut)) events
  | stoppedAfter {broker : Broker Child} {later : List (Broker Child)} {after : Reading}
      {answer : Outcome Cancelled Readiness} {events : List Probe.Event}
      (hasked : Asked prober budget broker answer after events)
      (hcancelled : budget.remainingAt after = .error .cancelled) :
      Ends asked (broker :: later) (.stop (.error ⟨⟩)) events
  | withdrawn {broker : Broker Child} {later : List (Broker Child)} {after : Reading}
      {events : List Probe.Event}
      (hasked : Asked prober budget broker (.stop (.error ⟨⟩)) after events) :
      Ends asked (broker :: later) (.stop (.error ⟨⟩)) events
  | refused {broker : Broker Child} {later : List (Broker Child)} {after : Reading} {left : Nat}
      {reason : NotReady} {events : List Probe.Event}
      (hasked : Asked prober budget broker (.ok (.notReady reason)) after events)
      (hleft : budget.remainingAt after = .ok left) :
      Ends asked (broker :: later) (.ok (.notReady broker.name reason)) events

/-- A survey passes the brokers that answer ready in time, and ends at the first other one. -/
def Passes (asked : List String) (brokers : List (Broker Child))
    (outcome : Outcome Cancelled SetStatus) (events : List Probe.Event) : Prop :=
  ∃ passed rest rounds last, brokers = passed ++ rest ∧ events = rounds.flatten ++ last ∧
    List.Forall₂ (AnsweredReady prober budget) passed rounds ∧
    Ends prober budget (asked ++ passed.map (·.name)) rest outcome last

end Rounds

variable {prober : Prober} {budget : ProbeBudget}

theorem Ends.passes {asked : List String} {brokers : List (Broker Child)}
    {outcome : Outcome Cancelled SetStatus} {events : List Probe.Event}
    (hends : Ends prober budget asked brokers outcome events) :
    Passes prober budget asked brokers outcome events := by
  refine ⟨[], brokers, [], events, rfl, rfl, .nil, ?_⟩
  rw [List.map_nil, List.append_nil]
  exact hends

theorem Passes.cons {asked : List String} {broker : Broker Child} {brokers : List (Broker Child)}
    {outcome : Outcome Cancelled SetStatus} {round events : List Probe.Event}
    (hready : AnsweredReady prober budget broker round)
    (hpasses : Passes prober budget (asked ++ [broker.name]) brokers outcome events) :
    Passes prober budget asked (broker :: brokers) outcome (round ++ events) := by
  obtain ⟨passed, rest, rounds, last, rfl, rfl, hrounds, hends⟩ := hpasses
  refine ⟨broker :: passed, rest, round :: rounds, last, rfl, ?_, .cons hready hrounds, ?_⟩
  · rw [List.flatten_cons, List.append_assoc]
  · rw [List.append_assoc] at hends
    exact hends

/-- What is left of the budget is asked, and what follows depends on the reading. -/
theorem ensures_remaining_bind {ε α : Type} {next : Except ProbeStopped Nat → Probe.Step ε α}
    {post : Outcome ε α → Unit → List Probe.Event → Prop}
    (hnext : ∀ reading, (next (budget.remainingAt reading)).Ensures () fun outcome left more =>
      post outcome left (⟨.clock, reading⟩ :: more)) :
    ((Probe.remaining budget).attempt >>= next).Ensures () post := by
  refine Program.ensures_attempt_bind Probe.ensures_remaining ?_ ?_ ?_
  · rintro left _ _ ⟨reading, rfl, ⟨rest, hleft, hrest⟩ | ⟨stop, -, hstop⟩⟩
    · cases hrest
      rw [← hleft]
      exact hnext reading
    · cases hstop
  · rintro stop _ _ ⟨reading, rfl, ⟨rest, -, hrest⟩ | ⟨why, hleft, hwhy⟩⟩
    · cases hrest
    · cases hwhy
      rw [← hleft]
      exact hnext reading
  · rintro _ _ ⟨reading, rfl, ⟨rest, -, hrest⟩ | ⟨stop, -, hstop⟩⟩
    · cases hrest
    · cases hstop

theorem ensures_survey (brokers : List (Broker Child)) (asked : List String) :
    (survey prober budget brokers asked).Ensures () fun outcome _ events =>
      Passes prober budget asked brokers outcome events := by
  induction brokers generalizing asked with
  | nil => exact Program.ensures_pure Ends.ready.passes
  | cons broker brokers ih =>
      refine ensures_remaining_bind fun before => ?_
      cases hbefore : budget.remainingAt before with
      | error stop =>
          cases stop with
          | cancelled => exact Program.ensures_throw (Ends.stopped hbefore).passes
          | timedOut => exact Program.ensures_pure (Ends.unreached hbefore).passes
      | ok left =>
          have hasked : ∀ answer probing after,
              (prober broker.controlSocket budget).Ran () answer () probing →
                Asked prober budget broker answer after
                  (⟨.clock, before⟩ :: (probing ++ [⟨.clock, after⟩])) :=
            fun answer probing after hran => ⟨before, left, probing, hbefore, hran, rfl⟩
          refine Program.ensures_attempt_bind (Program.ensures_ran _ _) ?_ ?_ ?_
          · intro verdict _ probing hran
            refine ensures_remaining_bind fun after => ?_
            have hround := hasked _ _ after hran
            cases hafter : budget.remainingAt after with
            | error stop =>
                cases stop with
                | cancelled => exact Program.ensures_throw (Ends.stoppedAfter hround hafter).passes
                | timedOut => exact Program.ensures_pure (Ends.late hround hafter).passes
            | ok rest =>
                cases verdict with
                | notReady reason => exact Program.ensures_pure (Ends.refused hround hafter).passes
                | ready state =>
                    -- the only way on: the broker is passed, and its round comes first
                    refine (ih (asked ++ [broker.name])).mono fun outcome _ events hpasses => ?_
                    have hall := hpasses.cons ⟨state, after, rest, hround, hafter⟩
                    simpa using hall
          · intro _ _ probing hran
            refine ensures_remaining_bind fun after => ?_
            have hround := hasked _ _ after hran
            cases hafter : budget.remainingAt after with
            | error stop =>
                cases stop with
                | cancelled => exact Program.ensures_throw (Ends.stoppedAfter hround hafter).passes
                | timedOut => exact Program.ensures_pure (Ends.late hround hafter).passes
            | ok rest => exact Program.ensures_throw (Ends.withdrawn hround).passes
          · exact fun _ probing hran => (Ends.probing hbefore hran).passes

/-! ## A whole call -/

/-- What a status call asks and says. Each broker that was passed had a round of its own, in the
order of the set, before the one that was not; after that one nothing is asked. -/
structure Surveyed (prober : Prober) (brokers : List (Broker Child)) (deadline : Nat)
    (outcome : Outcome Cancelled SetStatus) (events : List Probe.Event) : Prop where
  inOrder : brokers ≠ [] → ∃ started rest, events = ⟨.clock, started⟩ :: rest ∧
    Passes prober ⟨started.now, deadline⟩ [] brokers outcome rest
  nobody : brokers = [] → ∃ started reading, events = [⟨.clock, started⟩, ⟨.clock, reading⟩]
  ready : outcome = .ok .ready → brokers ≠ [] ∧ ∃ started rounds,
    events = ⟨.clock, started⟩ :: rounds.flatten ∧
    List.Forall₂ (AnsweredReady prober ⟨started.now, deadline⟩) brokers rounds
  notReady : ∀ name reason, outcome = .ok (.notReady name reason) →
    ∃ started passed broker later rounds answer after last,
      brokers = passed ++ broker :: later ∧ name = broker.name ∧
      events = ⟨.clock, started⟩ :: (rounds.flatten ++ last) ∧
      List.Forall₂ (AnsweredReady prober ⟨started.now, deadline⟩) passed rounds ∧
      Asked prober ⟨started.now, deadline⟩ broker answer after last ∧
      (answer = .ok (.notReady reason) ∧
          (∃ left, ProbeBudget.remainingAt ⟨started.now, deadline⟩ after = .ok left) ∨
        reason = .timedOut ∧
          ProbeBudget.remainingAt ⟨started.now, deadline⟩ after = .error .timedOut)
  deadlineSpent : ∀ name asked, outcome = .ok (.deadlineSpent name asked) →
    ∃ started passed broker later rounds reading,
      brokers = passed ++ broker :: later ∧ name = broker.name ∧ asked = passed.map (·.name) ∧
      events = ⟨.clock, started⟩ :: (rounds.flatten ++ [⟨.clock, reading⟩]) ∧
      List.Forall₂ (AnsweredReady prober ⟨started.now, deadline⟩) passed rounds ∧
      ProbeBudget.remainingAt ⟨started.now, deadline⟩ reading = .error .timedOut
  empty : outcome = .ok .empty → brokers = []
  cancelled : outcome = .stop (.error ⟨⟩) →
    (∃ reading, events.getLast? = some ⟨.clock, reading⟩ ∧ reading.shutdown = true) ∨
      ∃ started passed broker later rounds after last,
        brokers = passed ++ broker :: later ∧
        events = ⟨.clock, started⟩ :: (rounds.flatten ++ last) ∧
        List.Forall₂ (AnsweredReady prober ⟨started.now, deadline⟩) passed rounds ∧
        Asked prober ⟨started.now, deadline⟩ broker (.stop (.error ⟨⟩)) after last
  running : outcome = .stop .running →
    ∃ started passed broker later rounds before left probing,
      brokers = passed ++ broker :: later ∧
      events = ⟨.clock, started⟩ :: (rounds.flatten ++ ⟨.clock, before⟩ :: probing) ∧
      List.Forall₂ (AnsweredReady prober ⟨started.now, deadline⟩) passed rounds ∧
      ProbeBudget.remainingAt ⟨started.now, deadline⟩ before = .ok left ∧
      (prober broker.controlSocket ⟨started.now, deadline⟩).Ran () (.stop .running) () probing

theorem shutdown_of_cancelled {reading : Reading}
    (hcancelled : budget.remainingAt reading = .error .cancelled) : reading.shutdown = true := by
  unfold ProbeBudget.remainingAt at hcancelled
  split at hcancelled
  next hshutdown => exact hshutdown
  next => split at hcancelled <;> cases hcancelled

theorem Asked.getLast? {broker : Broker Child} {answer : Outcome Cancelled Readiness}
    {after : Reading} {events : List Probe.Event}
    (hasked : Asked prober budget broker answer after events) :
    events.getLast? = some ⟨.clock, after⟩ := by
  obtain ⟨before, left, probing, -, -, rfl⟩ := hasked
  rw [← List.cons_append, List.getLast?_concat]

/-- The last event of a call is the last one of its last piece. -/
theorem getLast?_call {started : Probe.Event} {rounds : List (List Probe.Event)}
    {last : List Probe.Event} {event : Probe.Event} (hlast : last.getLast? = some event) :
    (started :: (rounds.flatten ++ last)).getLast? = some event := by
  rw [← List.cons_append, List.getLast?_append, hlast]
  rfl

/-- A survey of at least one broker, after the reading that started the budget. -/
theorem Passes.surveyed {brokers : List (Broker Child)} {deadline : Nat} {started : Reading}
    {outcome : Outcome Cancelled SetStatus} {events : List Probe.Event} (hsome : brokers ≠ [])
    (hpasses : Passes prober ⟨started.now, deadline⟩ [] brokers outcome events) :
    Surveyed prober brokers deadline outcome (⟨.clock, started⟩ :: events) := by
  have hnobody : brokers = [] → ∃ first reading,
      (⟨.clock, started⟩ :: events : List Probe.Event) = [⟨.clock, first⟩, ⟨.clock, reading⟩] :=
    fun hnone => (hsome hnone).elim
  have horder : brokers ≠ [] → ∃ first rest,
      (⟨.clock, started⟩ :: events : List Probe.Event) = ⟨.clock, first⟩ :: rest ∧
        Passes prober ⟨first.now, deadline⟩ [] brokers outcome rest :=
    fun _ => ⟨started, events, rfl, hpasses⟩
  obtain ⟨passed, rest, rounds, last, rfl, rfl, hrounds, hends⟩ := hpasses
  rw [List.nil_append] at hends
  cases hends with
  | ready =>
      refine ⟨horder, hnobody, fun _ => ⟨hsome, started, rounds, by rw [List.append_nil], ?_⟩,
        nofun, nofun, nofun, nofun, nofun⟩
      rwa [List.append_nil]
  | unreached hspent =>
      refine ⟨horder, hnobody, nofun, nofun, ?_, nofun, nofun, nofun⟩
      intro name asked hname
      cases hname
      exact ⟨started, passed, _, _, rounds, _, rfl, rfl, rfl, rfl, hrounds, hspent⟩
  | stopped hcancelled =>
      exact ⟨horder, hnobody, nofun, nofun, nofun, nofun,
        fun _ => .inl ⟨_, getLast?_call rfl, shutdown_of_cancelled hcancelled⟩, nofun⟩
  | probing hleft hran =>
      exact ⟨horder, hnobody, nofun, nofun, nofun, nofun, nofun,
        fun _ => ⟨started, passed, _, _, rounds, _, _, _, rfl, rfl, hrounds, hleft, hran⟩⟩
  | late hasked hspent =>
      refine ⟨horder, hnobody, nofun, ?_, nofun, nofun, nofun, nofun⟩
      intro name reason hname
      cases hname
      exact ⟨started, passed, _, _, rounds, _, _, last, rfl, rfl, rfl, hrounds, hasked,
        .inr ⟨rfl, hspent⟩⟩
  | stoppedAfter hasked hcancelled =>
      exact ⟨horder, hnobody, nofun, nofun, nofun, nofun, fun _ =>
        .inl ⟨_, getLast?_call hasked.getLast?, shutdown_of_cancelled hcancelled⟩, nofun⟩
  | withdrawn hasked =>
      exact ⟨horder, hnobody, nofun, nofun, nofun, nofun,
        fun _ => .inr ⟨started, passed, _, _, rounds, _, last, rfl, rfl, hrounds, hasked⟩, nofun⟩
  | refused hasked hleft =>
      refine ⟨horder, hnobody, nofun, ?_, nofun, nofun, nofun, nofun⟩
      intro name reason hname
      cases hname
      exact ⟨started, passed, _, _, rounds, _, _, last, rfl, rfl, rfl, hrounds, hasked,
        .inl ⟨rfl, _, hleft⟩⟩

/-- A call that has nobody to ask only reads the clock. -/
theorem surveyed_nobody {brokers : List (Broker Child)} {deadline : Nat}
    {outcome : Outcome Cancelled SetStatus} {started reading : Reading} (hnone : brokers = [])
    (houtcome : outcome = .ok .empty ∨ outcome = .stop (.error ⟨⟩) ∧ reading.shutdown = true) :
    Surveyed prober brokers deadline outcome [⟨.clock, started⟩, ⟨.clock, reading⟩] := by
  have horder : brokers ≠ [] → ∃ first rest,
      ([⟨.clock, started⟩, ⟨.clock, reading⟩] : List Probe.Event) = ⟨.clock, first⟩ :: rest ∧
        Passes prober ⟨first.now, deadline⟩ [] brokers outcome rest :=
    fun hsome => (hsome hnone).elim
  obtain rfl | ⟨rfl, hshutdown⟩ := houtcome
  · exact ⟨horder, fun _ => ⟨started, reading, rfl⟩, nofun, nofun, nofun, fun _ => hnone, nofun,
      nofun⟩
  · exact ⟨horder, fun _ => ⟨started, reading, rfl⟩, nofun, nofun, nofun, nofun,
      fun _ => .inl ⟨reading, rfl, hshutdown⟩, nofun⟩

/-- A status call asks the brokers in order and each at most once, inside one allowance: it says
ready only when every one answered ready in time, names the first that did not, or the first that
was never asked, and has no answer only when the membrane is shutting down. Nothing is asked after
what ends it, whatever it comes to. -/
theorem status_surveys (prober : Prober) (set : BrokerSet Child) (deadline : Nat) :
    (statusWith prober set deadline).Ensures () fun outcome _ events =>
      Surveyed prober set.brokers deadline outcome events := by
  refine Program.ensures_ask_bind fun started => ?_
  by_cases hnone : set.brokers = []
  · rw [if_pos (List.isEmpty_iff.mpr hnone)]
    refine ensures_remaining_bind fun reading => ?_
    cases hleft : ProbeBudget.remainingAt ⟨started.now, deadline⟩ reading with
    | ok left => exact Program.ensures_pure (surveyed_nobody hnone (.inl rfl))
    | error stop =>
        cases stop with
        | timedOut => exact Program.ensures_pure (surveyed_nobody hnone (.inl rfl))
        | cancelled =>
            exact Program.ensures_throw
              (surveyed_nobody hnone (.inr ⟨rfl, shutdown_of_cancelled hleft⟩))
  · rw [if_neg (fun hempty => hnone (List.isEmpty_iff.mp hempty))]
    exact (ensures_survey set.brokers []).mono fun _ _ _ hpasses => hpasses.surveyed hnone

/-- Each launch that came before the last was one spec's, and gave that broker's child. -/
def launched (brokers : List (Broker Child)) : List (launcher Child SpawnError).Event :=
  brokers.map fun broker => ⟨broker.toBrokerSpec, .ok broker.child⟩

end Plasmosome.Membrane.BrokerSet
