import Plasmosome.Membrane.Handshake

/-!
# What the steps of a handshake do

Each step adds events of its own kind, and budget checks, liveness checks and
waits between them. A wait is asked right after a budget check that passed and a
liveness check that said the helper runs; when that check says otherwise it is
the last event, and the failure names it.
-/

namespace Plasmosome.Membrane

open Foundation
open Serde

/-! ## Events -/

/-- A budget check, a liveness check or a wait. -/
def Quiet : Event → Prop
  | ⟨.clock, _⟩ | ⟨.alive, _⟩ | ⟨.wait _ _ _, _⟩ => True
  | _ => False

def IsWait : Event → Prop
  | ⟨.wait _ _ _, _⟩ => True
  | _ => False

/-- The bytes a stream took of one write. -/
def taken (stream : Stage) : Event → List UInt8
  | ⟨.write other bytes, .ok sent⟩ => if other = stream then bytes.take sent.1 else []
  | _ => []

/-- The bytes a stream gave to one read. -/
def arrived (stream : Stage) : Event → List UInt8
  | ⟨.read other _, .ok bytes⟩ => if other = stream then bytes.1 else []
  | _ => []

def written (stream : Stage) (events : List Event) : List UInt8 := events.flatMap (taken stream)

def received (stream : Stage) (events : List Event) : List UInt8 :=
  events.flatMap (arrived stream)

theorem written_append (stream : Stage) (first second : List Event) :
    written stream (first ++ second) = written stream first ++ written stream second :=
  List.flatMap_append

theorem received_append (stream : Stage) (first second : List Event) :
    received stream (first ++ second) = received stream first ++ received stream second :=
  List.flatMap_append

theorem written_eq_nil {stream : Stage} {events : List Event}
    (hevents : ∀ event ∈ events, taken stream event = []) : written stream events = [] :=
  List.flatMap_eq_nil_iff.mpr hevents

theorem received_eq_nil {stream : Stage} {events : List Event}
    (hevents : ∀ event ∈ events, arrived stream event = []) : received stream events = [] :=
  List.flatMap_eq_nil_iff.mpr hevents

theorem taken_quiet {event : Event} (hquiet : Quiet event) (stream : Stage) :
    taken stream event = [] := by
  rcases event with ⟨question, answer⟩
  cases question <;> first | rfl | exact hquiet.elim

theorem arrived_quiet {event : Event} (hquiet : Quiet event) (stream : Stage) :
    arrived stream event = [] := by
  rcases event with ⟨question, answer⟩
  cases question <;> first | rfl | exact hquiet.elim

/-- Every wait comes right after a budget check that passed and a liveness check that said the
helper runs, and asks for no more than what was left and 25 ms. -/
inductive Guarded (budget : ProbeBudget) : List Event → Prop where
  | nil : Guarded budget []
  | other {event : Event} {rest : List Event} (hevent : ¬IsWait event)
      (hrest : Guarded budget rest) : Guarded budget (event :: rest)
  | wait {reading : Reading} {left : Nat} {fd : Fd} {interest : Interest}
      {answer : Except SystemError Bool} {rest : List Event}
      (hleft : budget.remainingAt reading = .ok left) (hrest : Guarded budget rest) :
      Guarded budget (⟨.clock, reading⟩ :: ⟨.alive, .running⟩ ::
        ⟨.wait fd interest (min left maxWait), answer⟩ :: rest)

theorem Guarded.append {budget : ProbeBudget} {first second : List Event}
    (hfirst : Guarded budget first) (hsecond : Guarded budget second) :
    Guarded budget (first ++ second) := by
  induction hfirst with
  | nil => exact hsecond
  | other hevent _ ih => exact .other hevent ih
  | wait hleft _ ih => exact .wait hleft ih

theorem Guarded.single {budget : ProbeBudget} {event : Event} (hevent : ¬IsWait event) :
    Guarded budget [event] :=
  .other hevent .nil

/-- Every liveness check said that the helper runs. -/
def AllRunning (events : List Event) : Prop :=
  ∀ answer, (⟨.alive, answer⟩ : Event) ∈ events → answer = .running

theorem AllRunning.append {first second : List Event} (hfirst : AllRunning first)
    (hsecond : AllRunning second) : AllRunning (first ++ second) := by
  intro answer hmem
  rcases List.mem_append.mp hmem with hmem | hmem
  · exact hfirst answer hmem
  · exact hsecond answer hmem

/-- A liveness check that stopped a wait is the last event, and the first of its kind. -/
def Settled (cause : Option Liveness) (events : List Event) : Prop :=
  match cause with
  | none => AllRunning events
  | some stopped => stopped ≠ .running ∧
      ∃ before, events = before ++ [⟨.alive, stopped⟩] ∧ AllRunning before

theorem Settled.append {cause : Option Liveness} {first second : List Event}
    (hfirst : AllRunning first) (hsecond : Settled cause second) :
    Settled cause (first ++ second) := by
  cases cause with
  | none => exact AllRunning.append hfirst hsecond
  | some stopped =>
      obtain ⟨hstopped, before, rfl, hbefore⟩ := hsecond
      exact ⟨hstopped, first ++ before, (List.append_assoc _ _ _).symm, hfirst.append hbefore⟩

/-- Quiet events and others of one kind. -/
structure Calm (budget : ProbeBudget) (allowed : Event → Prop) (cause : Option Liveness)
    (events : List Event) : Prop where
  kinds : ∀ event ∈ events, Quiet event ∨ allowed event
  guarded : Guarded budget events
  settled : Settled cause events

namespace Calm

variable {budget : ProbeBudget} {allowed : Event → Prop} {cause : Option Liveness}
  {first second events : List Event}

theorem nil : Calm budget allowed none [] where
  kinds event hevent := by cases hevent
  guarded := .nil
  settled answer hanswer := by cases hanswer

theorem append (hfirst : Calm budget allowed none first)
    (hsecond : Calm budget allowed cause second) : Calm budget allowed cause (first ++ second) where
  kinds event hevent := by
    rcases List.mem_append.mp hevent with hmem | hmem
    · exact hfirst.kinds event hmem
    · exact hsecond.kinds event hmem
  guarded := hfirst.guarded.append hsecond.guarded
  settled := Settled.append hfirst.settled hsecond.settled

theorem mono {wider : Event → Prop} (hcalm : Calm budget allowed cause events)
    (hwider : ∀ event, allowed event → wider event) : Calm budget wider cause events where
  kinds event hevent := (hcalm.kinds event hevent).imp_right (hwider event)
  guarded := hcalm.guarded
  settled := hcalm.settled

theorem clock (reading : Reading) : Calm budget allowed none [⟨.clock, reading⟩] where
  kinds event hevent := by
    cases List.mem_singleton.mp hevent
    exact .inl trivial
  guarded := .single fun hwait => hwait
  settled answer hanswer := by cases List.mem_singleton.mp hanswer

/-- A budget check, and then a liveness check that stops the wait. -/
theorem ended (reading : Reading) {stopped : Liveness} (hstopped : stopped ≠ .running) :
    Calm budget allowed (some stopped) [⟨.clock, reading⟩, ⟨.alive, stopped⟩] where
  kinds event hevent := by
    simp only [List.mem_cons, List.not_mem_nil, or_false] at hevent
    rcases hevent with rfl | rfl
    · exact .inl trivial
    · exact .inl trivial
  guarded := .other (fun hwait => hwait) (.single fun hwait => hwait)
  settled := by
    refine ⟨hstopped, [⟨.clock, reading⟩], rfl, fun answer hanswer => ?_⟩
    cases List.mem_singleton.mp hanswer

/-- A budget check, a liveness check and the wait. -/
theorem waited {reading : Reading} {left : Nat} (hleft : budget.remainingAt reading = .ok left)
    (fd : Fd) (interest : Interest) (answer : Except SystemError Bool) :
    Calm budget allowed none [⟨.clock, reading⟩, ⟨.alive, .running⟩,
      ⟨.wait fd interest (min left maxWait), answer⟩] where
  kinds event hevent := by
    simp only [List.mem_cons, List.not_mem_nil, or_false] at hevent
    rcases hevent with rfl | rfl | rfl
    · exact .inl trivial
    · exact .inl trivial
    · exact .inl trivial
  guarded := .wait hleft .nil
  settled answer hanswer := by
    simp only [List.mem_cons, List.not_mem_nil, or_false] at hanswer
    rcases hanswer with hclock | halive | hwait
    · cases hclock
    · cases halive
      rfl
    · cases hwait

/-- One event of the kind. -/
theorem single {event : Event} (hallowed : allowed event) (hwait : ¬IsWait event)
    (halive : event.1 ≠ .alive) : Calm budget allowed none [event] where
  kinds other hother := by
    rw [List.mem_singleton.mp hother]
    exact .inr hallowed
  guarded := .single hwait
  settled answer hanswer := by
    have hevent := List.mem_singleton.mp hanswer
    exact (halive (congrArg Sigma.fst hevent).symm).elim

theorem written_nil (hcalm : Calm budget allowed cause events) {stream : Stage}
    (hallowed : ∀ event, allowed event → taken stream event = []) : written stream events = [] :=
  written_eq_nil fun event hevent =>
    (hcalm.kinds event hevent).elim (fun hquiet => taken_quiet hquiet stream) (hallowed event)

theorem received_nil (hcalm : Calm budget allowed cause events) {stream : Stage}
    (hallowed : ∀ event, allowed event → arrived stream event = []) :
    received stream events = [] :=
  received_eq_nil fun event hevent =>
    (hcalm.kinds event hevent).elim (fun hquiet => arrived_quiet hquiet stream) (hallowed event)

end Calm

/-- Only quiet events. -/
abbrev Nothing : Event → Prop := fun _ => False

/-! ## Checks and waits -/

section Programs

variable {budget : ProbeBudget} {ε α : Type} {memory : Option Liveness}

theorem ensures_check {wrap : ProbeStopped → ε}
    {post : Outcome ε Nat → Option Liveness → List Event → Prop}
    (hok : ∀ reading left, budget.remainingAt reading = .ok left →
      post (.ok left) memory [⟨.clock, reading⟩])
    (herror : ∀ reading stop, budget.remainingAt reading = .error stop →
      post (.stop (.error (wrap stop))) memory [⟨.clock, reading⟩]) :
    ((remaining budget).mapError wrap).Ensures memory post := by
  intro answers past
  cases hleft : budget.remainingAt (answers past .clock) with
  | ok left =>
      have hpost := hok _ left hleft
      simpa [Program.mapError, Program.attempt, remaining, ask, Program.ask, bind, Program.bind,
        hleft, Program.ofExcept, pure, Program.pure] using hpost
  | error stop =>
      have hpost := herror _ stop hleft
      simpa [Program.mapError, Program.attempt, remaining, ask, Program.ask, bind, Program.bind,
        hleft, Program.ofExcept, pure, Program.pure, Program.throw] using hpost

/-- A budget check, and what follows it when something is left. -/
theorem ensures_check_bind {wrap : ProbeStopped → ε} {next : Nat → Step ε α}
    {post : Outcome ε α → Option Liveness → List Event → Prop}
    (hstop : ∀ reading stop, budget.remainingAt reading = .error stop →
      post (.stop (.error (wrap stop))) memory [⟨.clock, reading⟩])
    (hnext : ∀ reading left, budget.remainingAt reading = .ok left →
      (next left).Ensures memory fun outcome later more =>
        post outcome later (⟨.clock, reading⟩ :: more)) :
    ((remaining budget).mapError wrap >>= next).Ensures memory post := by
  have hcheck : ((remaining budget).mapError wrap).Ensures memory fun outcome left events =>
      left = memory ∧ ∃ reading, events = [⟨.clock, reading⟩] ∧
        ((∃ rest, budget.remainingAt reading = .ok rest ∧ outcome = .ok rest) ∨
          ∃ stop, budget.remainingAt reading = .error stop ∧
            outcome = .stop (.error (wrap stop))) :=
    ensures_check
      (fun reading left hleft => ⟨rfl, reading, rfl, .inl ⟨left, hleft, rfl⟩⟩)
      (fun reading stop hstop => ⟨rfl, reading, rfl, .inr ⟨stop, hstop, rfl⟩⟩)
  refine Program.ensures_bind hcheck ?_ ?_
  · rintro left _ _ ⟨rfl, reading, rfl, ⟨rest, hleft, hrest⟩ | ⟨stop, -, hstop⟩⟩
    · cases hrest
      exact hnext reading left hleft
    · cases hstop
  · rintro stop _ _ ⟨rfl, reading, rfl, ⟨rest, -, hrest⟩ | ⟨why, hleft, hwhy⟩⟩
    · cases hrest
    · cases hwhy
      exact hstop reading why hleft

/-- A guarded wait whose failure goes to what follows it. -/
theorem ensures_guarded {fd : Fd} {interest : Interest} {limit : Nat}
    {post : Outcome ε (Except SystemError Bool) → Option Liveness → List Event → Prop}
    (hwait : ∀ answer, post (.ok answer) memory
      [⟨.alive, .running⟩, ⟨.wait fd interest limit, answer⟩])
    (hstopped : ∀ stopped : Liveness, stopped ≠ .running →
      post (.ok (.error ⟨.other, none⟩)) (some stopped) [⟨.alive, stopped⟩]) :
    ((guarded fd interest limit).attempt : Step ε _).Ensures memory post := by
  intro answers past
  have halive : ∀ liveness, answers past .alive = liveness → liveness = .running ∨
      liveness ≠ .running := fun liveness _ => em _
  rcases halive _ rfl with hrunning | hended
  · cases hanswer : answers (past ++ [⟨.alive, .running⟩]) (.wait fd interest limit) with
    | ok ready =>
        have hpost := hwait (.ok ready)
        simpa [Program.attempt, guarded, ask, Program.ask, bind, Program.bind, hrunning, hanswer,
          Program.ofExcept, pure, Program.pure] using hpost
    | error error =>
        have hpost := hwait (.error error)
        simpa [Program.attempt, guarded, ask, Program.ask, bind, Program.bind, hrunning, hanswer,
          Program.ofExcept, pure, Program.pure, Program.throw] using hpost
  · have hpost := hstopped _ hended
    cases hliveness : answers past .alive with
    | running => exact (hended hliveness).elim
    | ended state =>
        rw [hliveness] at hpost
        simpa [Program.attempt, guarded, ask, Program.ask, bind, Program.bind, hliveness,
          Program.set, Program.throw] using hpost
    | unknown error =>
        rw [hliveness] at hpost
        simpa [Program.attempt, guarded, ask, Program.ask, bind, Program.bind, hliveness,
          Program.set, Program.throw] using hpost

/-- A budget check and a guarded wait of what is left, and what follows them. -/
theorem ensures_pause {wrap : ProbeStopped → ε} {fd : Fd} {interest : Interest}
    {next : Except SystemError Bool → Step ε α}
    {post : Outcome ε α → Option Liveness → List Event → Prop}
    (hstop : ∀ reading stop, budget.remainingAt reading = .error stop →
      post (.stop (.error (wrap stop))) none [⟨.clock, reading⟩])
    (hnext : ∀ events answer, Calm budget Nothing none events →
      (next answer).Ensures none fun outcome left more => post outcome left (events ++ more))
    (hended : ∀ events stopped, Calm budget Nothing (some stopped) events →
      (next (.error ⟨.other, none⟩)).Ensures (some stopped) fun outcome left more =>
        post outcome left (events ++ more)) :
    ((remaining budget).mapError wrap >>= fun left =>
      (guarded fd interest (min left maxWait)).attempt >>= next).Ensures none post := by
  refine ensures_check_bind hstop fun reading left hleft => ?_
  have hwait : ((guarded fd interest (min left maxWait)).attempt : Step ε _).Ensures none
      fun outcome later events =>
        (∃ answer, outcome = .ok answer ∧ later = none ∧
          events = [⟨.alive, .running⟩, ⟨.wait fd interest (min left maxWait), answer⟩]) ∨
        ∃ stopped : Liveness, stopped ≠ .running ∧ outcome = .ok (.error ⟨.other, none⟩) ∧
          later = some stopped ∧ events = [⟨.alive, stopped⟩] :=
    ensures_guarded (fun answer => .inl ⟨answer, rfl, rfl, rfl⟩)
      (fun stopped hstopped => .inr ⟨stopped, hstopped, rfl, rfl, rfl⟩)
  refine Program.ensures_bind hwait ?_ ?_
  · rintro value later events (⟨answer, houtcome, rfl, rfl⟩ |
      ⟨stopped, hstopped, houtcome, rfl, rfl⟩)
    · cases houtcome
      exact hnext _ value (Calm.waited hleft fd interest value)
    · cases houtcome
      exact hended _ stopped (Calm.ended reading hstopped)
  · rintro stop later events (⟨answer, houtcome, -⟩ | ⟨stopped, -, houtcome, -⟩)
    · cases houtcome
    · cases houtcome

/-- What a step inside a lane promises: events of its kind, and that a liveness check which
stopped a wait is remembered only with a failure. -/
structure Inner (budget : ProbeBudget) (allowed : Event → Prop) (outcome : Outcome ε α)
    (left : Option Liveness) (events : List Event) : Prop where
  calm : Calm budget allowed left events
  forgotten : (∃ error, outcome = .stop (.error error)) ∨ left = none

/-- A wait moves no byte. -/
theorem ensures_waitReady (rounds : Nat) (fd : Fd) (interest : Interest) :
    (waitReady budget rounds fd interest).Ensures none (Inner budget Nothing) := by
  refine Program.ensures_loop (fun _ left events => left = none ∧ Calm budget Nothing none events)
    ?_ ?_ rounds ⟨rfl, .nil⟩
  · rintro _ _ events ⟨rfl, hcalm⟩
    refine ensures_pause ?_ ?_ ?_
    · intro reading stop _
      exact ⟨hcalm.append (.clock reading), .inl ⟨_, rfl⟩⟩
    · intro more answer hmore
      have hboth := hcalm.append hmore
      match answer with
      | .ok true =>
          refine Program.ensures_pure ?_
          rw [List.append_nil]
          exact ⟨hboth, .inr rfl⟩
      | .ok false =>
          refine Program.ensures_pure ?_
          rw [List.append_nil]
          exact ⟨rfl, hboth⟩
      | .error error =>
          by_cases hkind : error.kind = .interrupted
          · simp only [hkind, if_true]
            refine Program.ensures_pure ?_
            rw [List.append_nil]
            exact ⟨rfl, hboth⟩
          · simp only [hkind, if_false]
            refine Program.ensures_throw ?_
            rw [List.append_nil]
            exact ⟨hboth, .inl ⟨_, rfl⟩⟩
    · intro more stopped hmore
      refine Program.ensures_throw ?_
      rw [List.append_nil]
      exact ⟨hcalm.append hmore, .inl ⟨_, rfl⟩⟩
  · rintro _ _ events ⟨rfl, hcalm⟩
    exact ⟨hcalm, .inr rfl⟩

def IsWrite (stream : Stage) : Event → Prop
  | ⟨.write other _, _⟩ => other = stream
  | _ => False

def IsRead (stream : Stage) : Event → Prop
  | ⟨.read other _, _⟩ => other = stream
  | _ => False

/-- What was sent is a part of the request from its start, and all of it once the step is done. -/
structure Sent (budget : ProbeBudget) (stream : Stage) (request : List UInt8)
    (outcome : Outcome Halted Unit) (left : Option Liveness) (events : List Event) : Prop where
  inner : Inner budget (IsWrite stream) outcome left events
  part : written stream events <+: request
  whole : outcome = .ok () → written stream events = request

theorem written_wait {stream : Stage} {cause : Option Liveness} {events : List Event}
    (hcalm : Calm budget Nothing cause events) : written stream events = [] :=
  hcalm.written_nil fun _ hnothing => hnothing.elim

theorem received_wait {stream : Stage} {cause : Option Liveness} {events : List Event}
    (hcalm : Calm budget Nothing cause events) : received stream events = [] :=
  hcalm.received_nil fun _ hnothing => hnothing.elim

theorem calm_write {stream : Stage} {bytes : List UInt8}
    (answer : Except SystemError { sent : Nat // sent ≤ bytes.length }) :
    Calm budget (IsWrite stream) none [⟨.write stream bytes, answer⟩] :=
  .single rfl (fun hwait => hwait) (fun halive => by cases halive)

theorem calm_read {stream : Stage} {room : Nat}
    (answer : Except SystemError { bytes : List UInt8 // bytes.length ≤ room }) :
    Calm budget (IsRead stream) none [⟨.read stream room, answer⟩] :=
  .single rfl (fun hwait => hwait) (fun halive => by cases halive)

/-- A wait inside a step of a lane, after which the step goes on. -/
theorem ensures_wait_then (rounds : Nat) (fd : Fd) (interest : Interest)
    {value : α} {post : Outcome Halted α → Option Liveness → List Event → Prop}
    (hok : ∀ events, Calm budget Nothing none events → post (.ok value) none events)
    (hstop : ∀ stop left events, Calm budget Nothing left events →
      Inner budget Nothing (.stop stop : Outcome Halted Unit) left events →
      post (.stop stop) left events) :
    (waitReady budget rounds fd interest >>= fun _ => (pure value : Step Halted α)).Ensures
      none post := by
  refine Program.ensures_bind (ensures_waitReady rounds fd interest) ?_ ?_
  · rintro _ left events ⟨hcalm, hforgotten | rfl⟩
    · obtain ⟨error, herror⟩ := hforgotten
      cases herror
    · refine Program.ensures_pure ?_
      rw [List.append_nil]
      exact hok events hcalm
  · intro stop left events hinner
    exact hstop stop left events hinner.calm hinner

/-- Events of one kind and then only quiet ones, inside a step. -/
theorem Inner.after {allowed : Event → Prop} {first second : List Event} {left : Option Liveness}
    {stop : Stop Halted}
    (hsecond : Inner budget Nothing (.stop stop : Outcome Halted Unit) left second)
    (hfirst : Calm budget allowed none first) :
    Inner budget allowed (.stop stop : Outcome Halted α) left (first ++ second) where
  calm := hfirst.append (hsecond.calm.mono fun _ hnothing => hnothing.elim)
  forgotten := by
    rcases hsecond.forgotten with ⟨error, herror⟩ | hnone
    · cases herror
      exact .inl ⟨error, rfl⟩
    · exact .inr hnone

/-- A send writes a beginning of its request on its lane, the whole of it when it succeeds. -/
theorem ensures_sendWithin (rounds : Nat) (stream : Stage) (request : List UInt8) :
    (sendWithin budget rounds stream request).Ensures none (Sent budget stream request) := by
  refine Program.ensures_loop (fun count left events => left = none ∧
    Calm budget (IsWrite stream) none events ∧ count ≤ request.length ∧
      written stream events = request.take count) ?_ ?_ rounds ⟨rfl, .nil, Nat.zero_le _, rfl⟩
  · rintro count _ events ⟨rfl, hcalm, hcount, hwritten⟩
    have hpart : written stream events <+: request := hwritten ▸ List.take_prefix _ _
    split
    next hdone =>
      refine Program.ensures_pure ?_
      rw [List.append_nil]
      refine ⟨⟨hcalm, .inr rfl⟩, hpart, fun _ => ?_⟩
      rw [hwritten, List.take_of_length_le hdone]
    next hmore =>
      refine ensures_check_bind (fun reading stop _ => ?_) fun reading left _ => ?_
      · have hchecked := hcalm.append (.clock reading)
        refine ⟨⟨hchecked, .inr rfl⟩, ?_, fun hok => by cases hok⟩
        rw [written_append]
        simpa [written, taken] using hpart
      refine Program.ensures_ask_bind fun answer => ?_
      have hwrote := (hcalm.append (.clock reading)).append
        (@calm_write budget stream (request.drop count) answer)
      rw [List.append_assoc] at hwrote
      have hbytes : written stream
          (events ++ [⟨.clock, reading⟩, ⟨.write stream (request.drop count), answer⟩]) =
            request.take count ++ taken stream ⟨.write stream (request.drop count), answer⟩ := by
        rw [written_append, hwritten]
        simp [written, taken]
      match answer with
      | .ok sent =>
          have hsent : taken stream ⟨.write stream (request.drop count), .ok sent⟩ =
              (request.drop count).take sent.1 := if_pos rfl
          rw [hsent, ← List.take_add] at hbytes
          have hbound : sent.1 ≤ request.length - count := sent.2.trans (le_of_eq List.length_drop)
          by_cases hzero : sent.1 = 0
          · simp only [hzero, if_true]
            exact Program.ensures_throw
              ⟨⟨hwrote, .inr rfl⟩, hbytes ▸ List.take_prefix _ _, fun hok => by cases hok⟩
          · simp only [hzero, if_false]
            exact Program.ensures_pure ⟨rfl, hwrote, by omega, hbytes⟩
      | .error error =>
          have hnothing : taken stream ⟨.write stream (request.drop count), .error error⟩ = [] :=
            rfl
          rw [hnothing, List.append_nil] at hbytes
          have hsame : ∀ cause more, Calm budget Nothing cause more → written stream
              (events ++ ([⟨.clock, reading⟩, ⟨.write stream (request.drop count), .error error⟩] ++
                more)) = request.take count := by
            intro cause more hmore
            rw [← List.append_assoc, written_append, written_wait hmore, List.append_nil, hbytes]
          cases hkind : error.kind with
          | wouldBlock =>
              simp only [hkind]
              refine ensures_wait_then rounds _ _ (fun more hmore => ?_)
                fun stop cause more hmore hinner => ?_
              · have hall := hwrote.append (hmore.mono fun _ hnothing => hnothing.elim)
                rw [List.append_assoc] at hall
                exact ⟨rfl, hall, hcount, hsame none more hmore⟩
              · have hall :
                    Inner budget (IsWrite stream) (.stop stop : Outcome Halted Unit) cause _ :=
                  hinner.after hwrote
                rw [List.append_assoc] at hall
                exact ⟨hall, (hsame cause more hmore) ▸ List.take_prefix _ _,
                  fun hok => by cases hok⟩
          | interrupted =>
              simp only [hkind]
              exact Program.ensures_pure ⟨rfl, hwrote, hcount, hbytes⟩
          | brokenPipe | connectionReset | other =>
              simp only [hkind]
              exact Program.ensures_throw
                ⟨⟨hwrote, .inl ⟨_, rfl⟩⟩, hbytes ▸ List.take_prefix _ _, fun hok => by cases hok⟩
  · rintro count _ events ⟨rfl, hcalm, hcount, hwritten⟩
    exact ⟨⟨hcalm, .inr rfl⟩, hwritten ▸ List.take_prefix _ _, fun hok => by cases hok⟩

/-- A line that was read is what arrived before the first newline, and nothing arrived after it
unless the step says so. -/
structure FrameRead (budget : ProbeBudget) (stream : Stage) (outcome : Outcome Halted Frame)
    (left : Option Liveness) (events : List Event) : Prop where
  inner : Inner budget (IsRead stream) outcome left events
  line : ∀ bytes trailing, outcome = .ok (.line bytes trailing) → newline ∉ bytes ∧
    ∃ rest, received stream events = bytes ++ newline :: rest ∧ (trailing = false → rest = [])

/-- The first newline splits the bytes into a line and the rest. -/
theorem split_of_idxOf? {bytes : List UInt8} {position : Nat}
    (hposition : bytes.idxOf? newline = some position) :
    newline ∉ bytes.take position ∧
      bytes = bytes.take position ++ newline :: bytes.drop (position + 1) ∧
      position < bytes.length := by
  obtain ⟨hlength, hat, hbefore⟩ := List.idxOf?_eq_some_iff.mp hposition
  refine ⟨fun hmem => ?_, ?_, hlength⟩
  · obtain ⟨index, hindex, hvalue⟩ := List.mem_iff_getElem.mp hmem
    rw [List.getElem_take] at hvalue
    rw [List.length_take, lt_min_iff] at hindex
    exact hbefore index hindex.1 hvalue
  · calc bytes = bytes.take position ++ bytes.drop position := (List.take_append_drop _ _).symm
      _ = bytes.take position ++ newline :: bytes.drop (position + 1) := by
        rw [List.drop_eq_getElem_cons hlength, hat]

/-- A frame is read up to its newline. -/
theorem ensures_readFrameWithin (rounds : Nat) (stream : Stage) :
    (readFrameWithin budget rounds stream).Ensures none (FrameRead budget stream) := by
  refine Program.ensures_loop (fun frame left events => left = none ∧
    Calm budget (IsRead stream) none events ∧ newline ∉ frame ∧
      received stream events = frame) ?_ ?_ rounds ⟨rfl, .nil, List.not_mem_nil, rfl⟩
  · rintro frame _ events ⟨rfl, hcalm, hplain, hreceived⟩
    refine ensures_check_bind (fun reading stop _ => ?_) fun reading left _ => ?_
    · exact ⟨⟨hcalm.append (.clock reading), .inr rfl⟩, fun bytes trailing hok => by cases hok⟩
    refine Program.ensures_ask_bind fun answer => ?_
    have hread := (hcalm.append (.clock reading)).append
      (@calm_read budget stream (min readChunk (maxResponseBytes + 1 - frame.length)) answer)
    rw [List.append_assoc] at hread
    have hbytes : received stream (events ++ [⟨.clock, reading⟩,
        ⟨.read stream (min readChunk (maxResponseBytes + 1 - frame.length)), answer⟩]) =
          frame ++ arrived stream
            ⟨.read stream (min readChunk (maxResponseBytes + 1 - frame.length)), answer⟩ := by
      rw [received_append, hreceived]
      simp [received, arrived]
    match answer with
    | .ok ⟨[], hroom⟩ =>
        exact Program.ensures_throw
          ⟨⟨hread, .inl ⟨_, rfl⟩⟩, fun bytes trailing hok => by cases hok⟩
    | .ok ⟨first :: others, hroom⟩ =>
        have harrived : arrived stream ⟨.read stream (min readChunk
            (maxResponseBytes + 1 - frame.length)), .ok ⟨first :: others, hroom⟩⟩ =
              first :: others := if_pos rfl
        rw [harrived] at hbytes
        refine ensures_check_bind (fun again stop _ => ?_) fun again left _ => ?_
        · have hall := hread.append (.clock again)
          rw [List.append_assoc] at hall
          exact ⟨⟨hall, .inl ⟨_, rfl⟩⟩, fun bytes trailing hok => by cases hok⟩
        have hall := hread.append (.clock again)
        rw [List.append_assoc] at hall
        have hsame : received stream (events ++ ([⟨.clock, reading⟩, ⟨.read stream (min readChunk
            (maxResponseBytes + 1 - frame.length)), .ok ⟨first :: others, hroom⟩⟩] ++
              [⟨.clock, again⟩])) = frame ++ (first :: others) := by
          rw [← List.append_assoc, received_append, hbytes]
          simp [received, arrived]
        cases hposition : (first :: others).idxOf? newline with
        | some position =>
            obtain ⟨hbefore, hsplit, hlength⟩ := split_of_idxOf? hposition
            simp only [hposition]
            refine Program.ensures_pure ⟨⟨hall, .inr rfl⟩, fun bytes trailing hok => ?_⟩
            cases hok
            refine ⟨?_, (first :: others).drop (position + 1), ?_, fun htrailing => ?_⟩
            · rw [List.mem_append, not_or]
              exact ⟨hplain, hbefore⟩
            · rw [List.append_assoc, ← hsplit]
              exact hsame
            · have hend := of_decide_eq_false htrailing
              exact List.drop_eq_nil_of_le (by omega)
        | none =>
            have habsent : newline ∉ first :: others := List.idxOf?_eq_none_iff.mp hposition
            have hboth : newline ∉ frame ++ (first :: others) := by
              rw [List.mem_append, not_or]
              exact ⟨hplain, habsent⟩
            simp only [hposition]
            by_cases hlarge : maxResponseBytes < (frame ++ (first :: others)).length
            · simp only [hlarge, if_true]
              exact Program.ensures_pure
                ⟨⟨hall, .inr rfl⟩, fun bytes trailing hok => by cases hok⟩
            · simp only [hlarge, if_false]
              exact Program.ensures_pure ⟨rfl, hall, hboth, hsame⟩
    | .error error =>
        have hnothing : arrived stream ⟨.read stream (min readChunk
            (maxResponseBytes + 1 - frame.length)), .error error⟩ = [] := rfl
        rw [hnothing, List.append_nil] at hbytes
        cases hkind : error.kind with
        | wouldBlock =>
            simp only [hkind]
            refine ensures_wait_then rounds _ _ (fun more hmore => ?_)
              fun stop cause more hmore hinner => ?_
            · have hall := hread.append (hmore.mono fun _ hnothing => hnothing.elim)
              rw [List.append_assoc] at hall
              have hsame : received stream (events ++ ([⟨.clock, reading⟩, ⟨.read stream (min
                  readChunk (maxResponseBytes + 1 - frame.length)), .error error⟩] ++ more)) =
                    frame := by
                rw [← List.append_assoc, received_append, received_wait hmore, List.append_nil,
                  hbytes]
              exact ⟨rfl, hall, hplain, hsame⟩
            · have hall :
                  Inner budget (IsRead stream) (.stop stop : Outcome Halted Frame) cause _ :=
                hinner.after hread
              rw [List.append_assoc] at hall
              exact ⟨hall, fun bytes trailing hok => by cases hok⟩
        | interrupted =>
            simp only [hkind]
            exact Program.ensures_pure ⟨rfl, hread, hplain, hbytes⟩
        | brokenPipe | connectionReset | other =>
            simp only [hkind]
            exact Program.ensures_throw
              ⟨⟨hread, .inl ⟨_, rfl⟩⟩, fun bytes trailing hok => by cases hok⟩
  · rintro frame _ events ⟨rfl, hcalm, hplain, hreceived⟩
    exact ⟨⟨hcalm, .inr rfl⟩, fun bytes trailing hok => by cases hok⟩

end Programs

/-! ## Stages -/

/-- The liveness check that a failure reports. -/
def HandshakeFailure.cause : HandshakeFailure → Option Liveness
  | .helperEnded _ state => some (.ended state)
  | .livenessUnknown _ error => some (.unknown error)
  | _ => none

def causeOf {α : Type} : Outcome HandshakeFailure α → Option Liveness
  | .stop (.error failure) => failure.cause
  | _ => none

/-- What a stage promises: nothing is remembered after it, and a liveness check that stopped a
wait is the last event and what the failure reports. -/
structure Staged {α : Type} (budget : ProbeBudget) (allowed : Event → Prop)
    (outcome : Outcome HandshakeFailure α) (left : Option Liveness) (events : List Event) : Prop
    where
  forgotten : left = none
  calm : Calm budget allowed (causeOf outcome) events

section Stages

variable {budget : ProbeBudget} {expected : Expected} {α : Type}

theorem cause_stopped (stage : Stage) (stop : ProbeStopped) :
    (stopped stage stop).cause = none := by
  cases stop <;> rfl

theorem cause_ioFailure (stage : Stage) (error : SystemError) :
    (ioFailure stage error).cause = none := by
  unfold ioFailure
  split <;> rfl

/-- A failed step reports the liveness check that was remembered, and forgets it. -/
theorem ensures_failed {memory : Option Liveness} (hmemory : memory ≠ some .running) (stage : Stage)
    (halted : Halted) {post : Outcome HandshakeFailure α → Option Liveness → List Event → Prop}
    (hpost : ∀ failure, failure.cause = memory → post (.stop (.error failure)) none []) :
    (failed stage halted : Step HandshakeFailure α).Ensures memory post := by
  refine Program.ensures_bind (Program.ensures_replace ⟨rfl, rfl, rfl⟩ : Program.Ensures _ memory
    fun outcome left events => outcome = .ok memory ∧ left = none ∧ events = []) ?_ ?_
  · rintro held _ _ ⟨hheld, rfl, rfl⟩
    cases hheld
    cases memory with
    | none =>
        cases halted with
        | stopped stop => exact Program.ensures_throw (hpost _ (cause_stopped stage stop))
        | ended => exact Program.ensures_throw (hpost _ rfl)
        | failed error => exact Program.ensures_throw (hpost _ (cause_ioFailure stage error))
    | some liveness =>
        cases liveness with
        | running => exact (hmemory rfl).elim
        | ended state => exact Program.ensures_throw (hpost _ rfl)
        | unknown error => exact Program.ensures_throw (hpost _ rfl)
  · rintro stop _ _ ⟨hstop, -⟩
    cases hstop

theorem Calm.cause_ne {allowed : Event → Prop} {cause : Option Liveness} {events : List Event}
    (hcalm : Calm budget allowed cause events) : cause ≠ some .running := by
  rintro rfl
  exact hcalm.settled.1 rfl

/-- The time that is left when the stage ends, and no shutdown was seen. -/
def InTime (budget : ProbeBudget) (reading : Reading) : Prop :=
  reading.now < budget.start + budget.allowance ∧ reading.shutdown = false

theorem inTime_of_remaining {reading : Reading} {left : Nat}
    (hleft : budget.remainingAt reading = .ok left) : InTime budget reading := by
  unfold ProbeBudget.remainingAt at hleft
  split at hleft
  next => cases hleft
  next hshutdown =>
    split at hleft
    next hless => exact ⟨by omega, by simpa using hshutdown⟩
    next => cases hleft

def IsAccept (listener : Listener) : Event → Prop
  | ⟨.acceptReady other, _⟩ => other = listener
  | _ => False

/-- Found no connection. -/
def FoundNone (listener : Listener) (event : Event) : Prop :=
  event = ⟨.acceptReady listener, .ok none⟩

/-- The events of an accept that succeeds: waits until a connection of the helper comes, and a
budget check in time. -/
structure Accepted (budget : ProbeBudget) (peer : Int32) (listener : Listener)
    (events : List Event) : Prop where
  peer_positive : 0 < peer
  events_eq : ∃ waiting reading,
    events = waiting ++ [⟨.acceptReady listener, .ok (some (.identified peer))⟩,
      ⟨.clock, reading⟩] ∧ InTime budget reading ∧
    ∀ event ∈ waiting, Quiet event ∨ FoundNone listener event

/-- A peer is authentic when it has a process id and is the one expected. -/
theorem authentic_iff {peer found : Int32} : authentic peer found ↔ 0 < found ∧ found = peer := by
  simp [authentic]

theorem ensures_authenticate_bind {stage : Stage} {found : Int32}
    {next : Unit → Step HandshakeFailure α}
    {post : Outcome HandshakeFailure α → Option Liveness → List Event → Prop}
    (hok : 0 < found → found = expected.peer → (next ()).Ensures none post)
    (hforeign : post (.stop (.error (.foreignPeer stage expected.peer found))) none []) :
    (authenticate expected stage found >>= next).Ensures none post := by
  rw [authenticate]
  split
  next hauthentic =>
    obtain ⟨hpositive, hsame⟩ := authentic_iff.mp hauthentic
    exact Program.ensures_pure_bind (hok hpositive hsame)
  next => exact Program.ensures_throw_bind hforeign

theorem calm_accept {listener : Listener}
    (answer : Except SystemError (Option Connection)) :
    Calm budget (IsAccept listener) none [⟨.acceptReady listener, answer⟩] :=
  .single rfl (fun hwait => hwait) (fun halive => by cases halive)

/-- An accepted connection is of the expected peer. -/
theorem ensures_accept (rounds : Nat) (listener : Listener) (stage : Stage) :
    (accept budget rounds expected listener stage).Ensures none fun outcome left events =>
      Staged budget (IsAccept listener) outcome left events ∧
        ∀ stream, outcome = .ok stream → stream = stage ∧
          Accepted budget expected.peer listener events := by
  refine Program.ensures_loop (fun _ left events => left = none ∧
    Calm budget (IsAccept listener) none events ∧
      ∀ event ∈ events, Quiet event ∨ FoundNone listener event) ?_ ?_ rounds
    ⟨rfl, .nil, fun event hevent => by cases hevent⟩
  · rintro _ _ events ⟨rfl, hcalm, hwaiting⟩
    refine Program.ensures_ask_bind fun answer => ?_
    have hasked := hcalm.append (@calm_accept budget listener answer)
    match answer with
    | .ok (some (.identified pid)) =>
        refine ensures_authenticate_bind (fun hpositive hpeer => ?_) ?_
        · refine ensures_check_bind (fun reading stop _ => ?_) fun reading left hleft => ?_
          · have hall := hasked.append (.clock reading)
            rw [List.append_assoc] at hall
            refine ⟨⟨rfl, ?_⟩, fun stream hok => by cases hok⟩
            rw [causeOf, cause_stopped]
            exact hall
          · have hall := hasked.append (.clock reading)
            rw [List.append_assoc] at hall
            refine Program.ensures_pure ⟨⟨rfl, hall⟩, fun stream hok => ?_⟩
            cases hok
            exact ⟨rfl, hpeer ▸ hpositive, events, reading, by rw [← hpeer],
              inTime_of_remaining hleft, hwaiting⟩
        · exact ⟨⟨rfl, hasked⟩, fun stream hok => by cases hok⟩
    | .ok (some (.refused refusal)) =>
        exact Program.ensures_throw ⟨⟨rfl, hasked⟩, fun stream hok => by cases hok⟩
    | .error error =>
        refine Program.ensures_throw ⟨⟨rfl, ?_⟩, fun stream hok => by cases hok⟩
        rw [causeOf, cause_ioFailure]
        exact hasked
    | .ok none =>
        have hnone : ∀ cause more, Calm budget Nothing cause more → ∀ event ∈ events ++
            (⟨.acceptReady listener, .ok none⟩ :: more), Quiet event ∨
            FoundNone listener event := by
          intro cause more hmore event hevent
          rcases List.mem_append.mp hevent with hold | hnew
          · exact hwaiting event hold
          · rcases List.mem_cons.mp hnew with rfl | hquiet
            · exact .inr rfl
            · exact .inl ((hmore.kinds event hquiet).resolve_right id)
        have hall : ∀ cause more, Calm budget Nothing cause more → Calm budget (IsAccept listener)
            cause (events ++ ([⟨.acceptReady listener, .ok none⟩] ++ more)) := by
          intro cause more hmore
          rw [← List.append_assoc]
          exact hasked.append (hmore.mono fun _ hnothing => hnothing.elim)
        refine ensures_pause (fun reading stop _ => ?_) (fun more answer hmore => ?_)
          fun more ended hmore => ?_
        · refine ⟨⟨rfl, ?_⟩, fun stream hok => by cases hok⟩
          rw [causeOf, cause_stopped]
          exact hall none _ (.clock reading)
        · match answer with
          | .ok ready =>
              refine Program.ensures_pure ?_
              rw [List.append_nil]
              exact ⟨rfl, hall none more hmore, hnone none more hmore⟩
          | .error error =>
              by_cases hkind : error.kind = .interrupted
              · simp only [hkind, if_true]
                refine Program.ensures_pure ?_
                rw [List.append_nil]
                exact ⟨rfl, hall none more hmore, hnone none more hmore⟩
              · simp only [hkind, if_false]
                refine ensures_failed (by simp) stage _ fun failure hcause => ?_
                rw [List.append_nil]
                refine ⟨⟨rfl, ?_⟩, fun stream hok => by cases hok⟩
                rw [causeOf, hcause]
                exact hall none more hmore
        · have hkind : ErrorKind.other ≠ .interrupted := by decide
          simp only [hkind, if_false]
          refine ensures_failed hmore.cause_ne stage _ fun failure hcause => ?_
          rw [List.append_nil]
          refine ⟨⟨rfl, ?_⟩, fun stream hok => by cases hok⟩
          rw [causeOf, hcause]
          exact hall (some ended) more hmore
  · rintro _ _ events ⟨rfl, hcalm, -⟩
    exact ⟨⟨rfl, hcalm⟩, fun stream hok => by cases hok⟩

/-- A write on the lane, a read of it, or a read of its peer. -/
def OnLane (stream : Stage) (event : Event) : Prop :=
  IsWrite stream event ∨ IsRead stream event ∨ event.1 = .peerPid stream

/-- The events of a hello that succeeds: its request sent, one line read and nothing after it, the
peer read again, and a budget check in time. The judge accepts the line. -/
structure Greeted (budget : ProbeBudget) (peer : Int32) (stream : Stage) (lane : ControlLane)
    (judge : List UInt8 → Except HelloRefusal α) (value : α) (events : List Event) : Prop where
  events_eq : ∃ sending reading frame check,
    events = sending ++ (reading ++ [⟨.peerPid stream, .ok peer⟩, ⟨.clock, check⟩]) ∧
    written stream sending = helloRequest lane ∧
    (∀ event ∈ sending, Quiet event ∨ IsWrite stream event) ∧
    received stream reading = frame ++ [newline] ∧ newline ∉ frame ∧
    (∀ event ∈ reading, Quiet event ∨ IsRead stream event) ∧
    judge frame = .ok value ∧ InTime budget check

theorem taken_read {stream : Stage} {event : Event} (hread : IsRead stream event) (other : Stage) :
    taken other event = [] := by
  rcases event with ⟨question, answer⟩
  cases question with
  | read stream room => rfl
  | _ => exact hread.elim

theorem calm_peerPid {stream : Stage} (answer : Except SystemError Int32) :
    Calm budget (OnLane stream) none [⟨.peerPid stream, answer⟩] :=
  .single (.inr (.inr rfl)) (fun hwait => hwait) (fun halive => by cases halive)

/-- A hello asks one lane only, and its answer is judged once it is whole. -/
theorem ensures_hello (rounds : Nat) (stream : Stage) (lane : ControlLane) (stage : Stage)
    (judge : List UInt8 → Except HelloRefusal α) :
    (hello budget rounds expected stream lane stage judge).Ensures none fun outcome left events =>
      Staged budget (OnLane stream) outcome left events ∧
        written stream events <+: helloRequest lane ∧
        ∀ value, outcome = .ok value →
          Greeted budget expected.peer stream lane judge value events := by
  have hwrites : ∀ event, IsWrite stream event → OnLane stream event := fun _ => .inl
  have hreads : ∀ event, IsRead stream event → OnLane stream event := fun _ => .inr ∘ .inl
  refine Program.ensures_attempt_bind (ensures_sendWithin rounds stream (helloRequest lane))
    (fun _ left sending hsent => ?_) (fun halted left sending hsent => ?_)
    (fun left sending hsent => ?_)
  · obtain ⟨⟨hsending, ⟨error, herror⟩ | rfl⟩, -, hwhole⟩ := hsent
    · cases herror
    have hrequest := hwhole rfl
    have hbefore := hsending.mono hwrites
    have hpart : ∀ cause more, Calm budget (IsRead stream) cause more →
        written stream (sending ++ more) <+: helloRequest lane := by
      intro cause more hmore
      rw [written_append, hmore.written_nil fun _ hread => taken_read hread stream,
        List.append_nil, hrequest]
    refine Program.ensures_attempt_bind (ensures_readFrameWithin rounds stream)
      (fun frame left reading hframe => ?_) (fun halted left reading hframe => ?_)
      (fun left reading hframe => ?_)
    · obtain ⟨⟨hreading, ⟨error, herror⟩ | rfl⟩, hline⟩ := hframe
      · cases herror
      have hboth := hbefore.append (hreading.mono hreads)
      have hwritten := hpart none reading hreading
      match frame with
      | .tooLarge bytes =>
          refine Program.ensures_throw ?_
          rw [List.append_nil]
          exact ⟨⟨rfl, hboth⟩, hwritten, fun value hok => by cases hok⟩
      | .line bytes trailing =>
          obtain ⟨hplain, rest, hreceived, hrest⟩ := hline bytes trailing rfl
          refine Program.ensures_ask_bind fun answer => ?_
          have hasked := hboth.append (@calm_peerPid budget stream answer)
          rw [List.append_assoc] at hasked
          have hstill : ∀ more : List Event, (∀ event ∈ more, taken stream event = []) →
              written stream (sending ++ (reading ++ more)) <+: helloRequest lane := by
            intro more hmore
            rw [← List.append_assoc, written_append, written_eq_nil hmore, List.append_nil]
            exact hwritten
          have hpeer : written stream (sending ++ (reading ++ [⟨.peerPid stream, answer⟩])) <+:
              helloRequest lane :=
            hstill _ fun event hevent => by
              cases List.mem_singleton.mp hevent
              rfl
          have hchecked : ∀ reading' : Reading, written stream (sending ++ (reading ++
              [⟨.peerPid stream, answer⟩, ⟨.clock, reading'⟩])) <+: helloRequest lane :=
            fun reading' => hstill _ fun event hevent => by
              simp only [List.mem_cons, List.not_mem_nil, or_false] at hevent
              rcases hevent with rfl | rfl <;> rfl
          change Except SystemError Int32 at answer
          cases answer with
          | error error =>
              exact Program.ensures_throw ⟨⟨rfl, hasked⟩, hpeer, fun value hok => by cases hok⟩
          | ok sender =>
              refine ensures_authenticate_bind (fun hpositive hsame => ?_) ?_
              · cases trailing with
                | true =>
                    exact Program.ensures_throw
                      ⟨⟨rfl, hasked⟩, hpeer, fun value hok => by cases hok⟩
                | false =>
                    have hend := hrest rfl
                    subst hend
                    cases hjudged : judge bytes with
                    | error refusal =>
                        simp only [Bool.false_eq_true, if_false]
                        exact Program.ensures_throw
                          ⟨⟨rfl, hasked⟩, hpeer, fun value hok => by cases hok⟩
                    | ok value =>
                        simp only [Bool.false_eq_true, if_false]
                        refine ensures_check_bind
                          (fun check stop _ => ?_) fun check left hleft => ?_
                        · have hall := hasked.append (.clock check)
                          rw [List.append_assoc, List.append_assoc] at hall
                          refine ⟨⟨rfl, ?_⟩, hchecked check, fun value hok => by cases hok⟩
                          rw [causeOf, cause_stopped]
                          exact hall
                        · have hall := hasked.append (.clock check)
                          rw [List.append_assoc, List.append_assoc] at hall
                          refine Program.ensures_pure
                            ⟨⟨rfl, hall⟩, hchecked check, fun other hok => ?_⟩
                          cases hok
                          exact ⟨sending, reading, bytes, check, by rw [hsame], hrequest,
                            hsending.kinds, hreceived, hplain, hreading.kinds, hjudged,
                            inTime_of_remaining hleft⟩
              · exact ⟨⟨rfl, hasked⟩, hpeer, fun value hok => by cases hok⟩
    · refine ensures_failed hframe.inner.calm.cause_ne stage halted fun failure hcause => ?_
      rw [List.append_nil]
      refine ⟨⟨rfl, ?_⟩, hpart left reading hframe.inner.calm, fun value hok => by cases hok⟩
      rw [causeOf, hcause]
      exact hbefore.append (hframe.inner.calm.mono hreads)
    · obtain ⟨⟨hreading, ⟨error, herror⟩ | rfl⟩, -⟩ := hframe
      · cases herror
      exact ⟨⟨rfl, hbefore.append (hreading.mono hreads)⟩, hpart none reading hreading,
        fun value hok => by cases hok⟩
  · refine ensures_failed hsent.inner.calm.cause_ne stage halted fun failure hcause => ?_
    rw [List.append_nil]
    refine ⟨⟨rfl, ?_⟩, hsent.part, fun value hok => by cases hok⟩
    rw [causeOf, hcause]
    exact hsent.inner.calm.mono hwrites
  · obtain ⟨⟨hcalm, ⟨error, herror⟩ | rfl⟩, hpart, -⟩ := hsent
    · cases herror
    · exact ⟨⟨rfl, hcalm.mono hwrites⟩, hpart, fun value hok => by cases hok⟩

end Stages

end Plasmosome.Membrane
