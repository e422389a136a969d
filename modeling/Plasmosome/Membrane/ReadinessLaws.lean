import Plasmosome.Foundation.Rounds
import Plasmosome.Foundation.Runs
import Plasmosome.Membrane.HandshakeLaws
import Plasmosome.Membrane.Readiness
import Plasmosome.Serde.Scanned

/-!
# What a readiness probe does

A wait is asked right after a budget check that passed. The bytes of a frame are
the bytes that were read, however they were cut. A verdict is given only when the
last thing the probe saw is a clock reading inside the allowance.
-/

namespace Plasmosome.Membrane.Probe

open Foundation
open Serde

/-! ## Events -/

def IsWait : Event → Prop
  | ⟨.wait _ _, _⟩ => True
  | _ => False

/-- The bytes the broker took of one write. -/
def taken : Event → List UInt8
  | ⟨.write bytes, .ok sent⟩ => bytes.take sent.1
  | _ => []

/-- The bytes the broker gave to one read. -/
def arrived : Event → List UInt8
  | ⟨.read _, .ok bytes⟩ => bytes.1
  | _ => []

def written (events : List Event) : List UInt8 := events.flatMap taken

def received (events : List Event) : List UInt8 := events.flatMap arrived

@[simp] theorem written_nil : written [] = [] := rfl

@[simp] theorem received_nil : received [] = [] := rfl

@[simp] theorem written_cons (event : Event) (events : List Event) :
    written (event :: events) = taken event ++ written events := rfl

@[simp] theorem received_cons (event : Event) (events : List Event) :
    received (event :: events) = arrived event ++ received events := rfl

@[simp] theorem written_append (first second : List Event) :
    written (first ++ second) = written first ++ written second :=
  List.flatMap_append

@[simp] theorem received_append (first second : List Event) :
    received (first ++ second) = received first ++ received second :=
  List.flatMap_append

/-- Nothing went wrong: a reading inside the allowance with no shutdown, a step that moved bytes,
found none yet or was interrupted, a wait that ended or was interrupted. -/
def Untroubled (budget : ProbeBudget) : Event → Prop
  | ⟨.clock, reading⟩ => ∃ left, budget.remainingAt reading = .ok left
  | ⟨.write _, .ok sent⟩ => sent.1 ≠ 0
  | ⟨.write _, .error error⟩ => error.kind = .wouldBlock ∨ error.kind = .interrupted
  | ⟨.read _, .error error⟩ => error.kind = .wouldBlock ∨ error.kind = .interrupted
  | ⟨.wait _ _, .error error⟩ => error.kind = .interrupted
  | _ => True

/-- A read or a write that moved nothing, or a wait after which nothing is ready. -/
def idle : Event → Nat
  | ⟨.write _, .error _⟩ => 1
  | ⟨.read _, .error _⟩ => 1
  | ⟨.wait _ _, .ok true⟩ => 0
  | ⟨.wait _ _, _⟩ => 1
  | _ => 0

def idles (events : List Event) : Nat := Program.weigh idle events

/-- What one event brings a loop nearer to its end. -/
def effort (event : Event) : Nat := idle event + (taken event).length + (arrived event).length

/-- The effort of some events counts idle answers, bytes written and bytes received. -/
theorem weigh_effort (events : List Event) :
    Program.weigh effort events =
      idles events + (written events).length + (received events).length := by
  induction events with
  | nil => rfl
  | cons event events ih =>
      rw [Program.weigh_cons, ih, idles, idles, Program.weigh_cons, written_cons, received_cons,
        List.length_append, List.length_append, effort]
      omega

/-- Every wait comes right after a budget check that passed, and asks for no more than what was
left and 25 ms. -/
inductive Paced (budget : ProbeBudget) : List Event → Prop where
  | nil : Paced budget []
  | other {event : Event} {rest : List Event} (hevent : ¬IsWait event)
      (hrest : Paced budget rest) : Paced budget (event :: rest)
  | wait {reading : Reading} {left : Nat} {interest : Interest}
      {answer : Except SystemError Bool} {rest : List Event}
      (hleft : budget.remainingAt reading = .ok left) (hrest : Paced budget rest) :
      Paced budget (⟨.clock, reading⟩ :: ⟨.wait interest (min left maxWait), answer⟩ :: rest)

variable {budget : ProbeBudget}

theorem Paced.append {first second : List Event} (hfirst : Paced budget first)
    (hsecond : Paced budget second) : Paced budget (first ++ second) := by
  induction hfirst with
  | nil => exact hsecond
  | other hevent _ ih => exact .other hevent ih
  | wait hleft _ ih => exact .wait hleft ih

theorem Paced.clock (reading : Reading) : Paced budget [⟨.clock, reading⟩] :=
  .other (fun hwait => hwait) .nil

/-- The check before a wait. -/
theorem Paced.check {events before after : List Event} {interest : Interest} {limit : Nat}
    {answer : Except SystemError Bool} (hpaced : Paced budget events)
    (hevents : events = before ++ ⟨.wait interest limit, answer⟩ :: after) :
    ∃ earlier reading left, before = earlier ++ [⟨.clock, reading⟩] ∧
      budget.remainingAt reading = .ok left ∧ limit = min left maxWait := by
  induction hpaced generalizing before with
  | nil => cases before <;> cases hevents
  | @other event rest hevent _ ih =>
      cases before with
      | nil =>
          cases hevents
          exact (hevent trivial).elim
      | cons first before =>
          obtain ⟨rfl, hrest⟩ := List.cons.inj hevents
          obtain ⟨earlier, reading, left, rfl, hleft, hlimit⟩ := ih hrest
          exact ⟨event :: earlier, reading, left, rfl, hleft, hlimit⟩
  | @wait reading left _ _ rest hleft _ ih =>
      match before, hevents with
      | [], hevents => cases hevents
      | [first], hevents =>
          obtain ⟨rfl, hwait⟩ := List.cons.inj hevents
          cases hwait
          exact ⟨[], reading, left, rfl, hleft, rfl⟩
      | first :: second :: before, hevents =>
          obtain ⟨rfl, hwait⟩ := List.cons.inj hevents
          obtain ⟨rfl, hrest⟩ := List.cons.inj hwait
          obtain ⟨earlier, reading, left, rfl, hleft, hlimit⟩ := ih hrest
          exact ⟨_ :: _ :: earlier, reading, left, rfl, hleft, hlimit⟩

/-- A read asks for what a chunk holds and the frame has room for, and there is room. -/
def Fits (given : Nat) : Event → Prop
  | ⟨.read room, _⟩ =>
      given ≤ maxResponseBytes ∧ room = min readChunk (maxResponseBytes + 1 - given)
  | _ => True

def Roomy : Nat → List Event → Prop
  | _, [] => True
  | given, event :: rest => Fits given event ∧ Roomy (given + (arrived event).length) rest

/-- A read has room for what the frame still lacks after the bytes received before it. -/
theorem roomy_append {given : Nat} {first second : List Event} :
    Roomy given (first ++ second) ↔
      Roomy given first ∧ Roomy (given + (received first).length) second := by
  induction first generalizing given with
  | nil => simp [Roomy]
  | cons event first ih =>
      simp only [List.cons_append, Roomy, ih, received_cons, List.length_append, and_assoc,
        Nat.add_assoc]

/-- Time remains only before the end of the budget and without a shutdown. -/
theorem remainingAt_eq_ok {reading : Reading} {left : Nat}
    (hleft : budget.remainingAt reading = .ok left) :
    reading.shutdown = false ∧ reading.now < budget.start + budget.allowance ∧ 0 < left := by
  unfold ProbeBudget.remainingAt at hleft
  split at hleft
  next => cases hleft
  next hrunning =>
    split at hleft
    next hinside =>
      cases hleft
      refine ⟨by simpa using hrunning, by omega, by omega⟩
    next => cases hleft

/-- A shutdown cancels whatever time remains. -/
theorem remainingAt_of_shutdown {reading : Reading} (hshutdown : reading.shutdown = true) :
    budget.remainingAt reading = .error .cancelled := by
  rw [ProbeBudget.remainingAt, if_pos hshutdown]

/-- A failure has an event to blame. -/
def Blamed {ε α : Type} (budget : ProbeBudget) (outcome : Outcome ε α) (events : List Event) :
    Prop :=
  (∃ error, outcome = .stop (.error error)) → ∃ event ∈ events, ¬Untroubled budget event

theorem blamed_ok {ε α : Type} {value : α} {events : List Event} :
    Blamed budget (.ok value : Outcome ε α) events := by
  rintro ⟨error, herror⟩
  cases herror

theorem blamed_running {ε α : Type} {events : List Event} :
    Blamed budget (.stop .running : Outcome ε α) events := by
  rintro ⟨error, herror⟩
  cases herror

/-- An outcome may blame an event that was in trouble. -/
theorem blamed_of_mem {ε α : Type} {outcome : Outcome ε α} {event : Event} {events : List Event}
    (hmem : event ∈ events) (hevent : ¬Untroubled budget event) : Blamed budget outcome events :=
  fun _ => ⟨event, hmem, hevent⟩

theorem Blamed.stop {ε α β : Type} {stop : Stop ε} {part events : List Event}
    (hblamed : Blamed budget (.stop stop : Outcome ε α) part)
    (hpart : ∀ event ∈ part, event ∈ events) :
    Blamed budget (.stop stop : Outcome ε β) events := by
  rintro ⟨error, herror⟩
  cases herror
  obtain ⟨event, hmem, hevent⟩ := hblamed ⟨error, rfl⟩
  exact ⟨event, hpart event hmem, hevent⟩

theorem not_untroubled_clock {reading : Reading} {stop : ProbeStopped}
    (hstop : budget.remainingAt reading = .error stop) :
    ¬Untroubled budget ⟨.clock, reading⟩ := by
  rintro ⟨left, hleft⟩
  cases hstop.symm.trans hleft

/-! ## Checks and waits -/

section Programs

variable {ε α : Type}

/-- Reading the clock asks nothing else, and stops exactly when no time remains. -/
theorem ensures_remaining : (remaining budget).Ensures () fun outcome _ events =>
    ∃ reading, events = [⟨.clock, reading⟩] ∧
      ((∃ left, budget.remainingAt reading = .ok left ∧ outcome = .ok left) ∨
        ∃ stop, budget.remainingAt reading = .error stop ∧ outcome = .stop (.error stop)) := by
  refine Program.ensures_ask_bind fun reading => ?_
  cases hleft : budget.remainingAt reading with
  | ok left => exact Program.ensures_pure ⟨reading, rfl, .inl ⟨left, hleft, rfl⟩⟩
  | error stop => exact Program.ensures_throw ⟨reading, rfl, .inr ⟨stop, hleft, rfl⟩⟩

/-- A budget check, and what follows it when something is left. -/
theorem ensures_check_bind {wrap : ProbeStopped → ε} {next : Nat → Step ε α}
    {post : Outcome ε α → Unit → List Event → Prop}
    (hstop : ∀ reading stop, budget.remainingAt reading = .error stop →
      post (.stop (.error (wrap stop))) () [⟨.clock, reading⟩])
    (hnext : ∀ reading left, budget.remainingAt reading = .ok left →
      (next left).Ensures () fun outcome later more =>
        post outcome later (⟨.clock, reading⟩ :: more)) :
    ((remaining budget).mapError wrap >>= next).Ensures () post := by
  have hcheck : ((remaining budget).mapError wrap).Ensures () fun outcome _ events =>
      ∃ reading, events = [⟨.clock, reading⟩] ∧
        ((∃ rest, budget.remainingAt reading = .ok rest ∧ outcome = .ok rest) ∨
          ∃ stop, budget.remainingAt reading = .error stop ∧
            outcome = .stop (.error (wrap stop))) := by
    refine Program.ensures_mapError ensures_remaining ?_ ?_ ?_
    · rintro value _ _ ⟨reading, rfl, ⟨rest, hleft, hrest⟩ | ⟨stop, -, hstop⟩⟩
      · cases hrest
        exact ⟨reading, rfl, .inl ⟨value, hleft, rfl⟩⟩
      · cases hstop
    · rintro error _ _ ⟨reading, rfl, ⟨rest, -, hrest⟩ | ⟨stop, hleft, hstop⟩⟩
      · cases hrest
      · cases hstop
        exact ⟨reading, rfl, .inr ⟨error, hleft, rfl⟩⟩
    · rintro _ _ ⟨reading, rfl, ⟨rest, -, hrest⟩ | ⟨stop, -, hstop⟩⟩
      · cases hrest
      · cases hstop
  refine Program.ensures_bind hcheck ?_ ?_
  · rintro left _ _ ⟨reading, rfl, ⟨rest, hleft, hrest⟩ | ⟨stop, -, hstop⟩⟩
    · cases hrest
      exact hnext reading left hleft
    · cases hstop
  · rintro stop _ _ ⟨reading, rfl, ⟨rest, -, hrest⟩ | ⟨why, hleft, hwhy⟩⟩
    · cases hrest
    · cases hwhy
      exact hstop reading why hleft

/-- Nothing but budget checks and waits. -/
structure Still (budget : ProbeBudget) (events : List Event) : Prop where
  written : written events = []
  received : received events = []
  paced : Paced budget events
  roomy : ∀ given, Roomy given events

theorem Still.nil : Still budget [] :=
  ⟨rfl, rfl, .nil, fun _ => trivial⟩

theorem Still.append {first second : List Event} (hfirst : Still budget first)
    (hsecond : Still budget second) : Still budget (first ++ second) where
  written := by rw [written_append, hfirst.written, hsecond.written, List.append_nil]
  received := by rw [received_append, hfirst.received, hsecond.received, List.append_nil]
  paced := hfirst.paced.append hsecond.paced
  roomy given := roomy_append.mpr ⟨hfirst.roomy given, hsecond.roomy _⟩

theorem Still.clock (reading : Reading) : Still budget [⟨.clock, reading⟩] :=
  ⟨rfl, rfl, .clock reading, fun _ => ⟨trivial, trivial⟩⟩

theorem Still.waited {reading : Reading} {left : Nat}
    (hleft : budget.remainingAt reading = .ok left) (interest : Interest)
    (answer : Except SystemError Bool) :
    Still budget [⟨.clock, reading⟩, ⟨.wait interest (min left maxWait), answer⟩] :=
  ⟨rfl, rfl, .wait hleft .nil, fun _ => ⟨trivial, trivial, trivial⟩⟩

/-- What a wait does: it is still running only after as many rounds as it had. -/
structure Waited (budget : ProbeBudget) (rounds : Nat) (outcome : Outcome ε α)
    (events : List Event) : Prop where
  still : Still budget events
  blamed : Blamed budget outcome events
  running : outcome = .stop .running → rounds ≤ Program.weigh effort events

/-- A wait is only still running after as many rounds as it was given. -/
theorem running_waitReady (rounds : Nat) (interest : Interest) :
    (waitReady budget rounds interest).Ensures () fun outcome _ events =>
      outcome = .stop .running → rounds ≤ Program.weigh effort events := by
  refine Program.rounds_running (fun _ _ => ?_) le_rfl () ()
  refine ensures_check_bind (fun _ _ _ => trivial) fun reading left _ => ?_
  refine Program.ensures_ask_bind fun answer => ?_
  match answer with
  | .ok true => exact Program.ensures_pure trivial
  | .ok false => exact Program.ensures_pure (Nat.le_refl 1)
  | .error error =>
      by_cases hkind : error.kind = .interrupted
      · simp only [hkind, if_true]
        exact Program.ensures_pure (Nat.le_refl 1)
      · simp only [hkind, if_false]
        exact Program.ensures_throw trivial

/-- A wait asks the clock before each wait, and moves no byte. -/
theorem ensures_waitReady (rounds : Nat) (interest : Interest) :
    (waitReady budget rounds interest).Ensures () fun outcome _ events =>
      Waited budget rounds outcome events := by
  have hevents : (waitReady budget rounds interest).Ensures () fun outcome _ events =>
      Still budget events ∧ Blamed budget outcome events := by
    refine Program.ensures_loop (fun _ _ events => Still budget events) ?_ ?_ rounds .nil
    · intro _ _ events hstill
      refine ensures_check_bind (fun reading stop hstop => ?_) fun reading left hleft => ?_
      · exact ⟨hstill.append (.clock reading), blamed_of_mem (List.mem_append_right _
          (List.mem_singleton_self _)) (not_untroubled_clock hstop)⟩
      refine Program.ensures_ask_bind fun answer => ?_
      have hafter := fun answer => hstill.append (.waited hleft interest answer)
      match answer with
      | .ok true => exact Program.ensures_pure ⟨hafter _, blamed_ok⟩
      | .ok false => exact Program.ensures_pure (hafter _)
      | .error error =>
          by_cases hkind : error.kind = .interrupted
          · simp only [hkind, if_true]
            exact Program.ensures_pure (hafter _)
          · simp only [hkind, if_false]
            refine Program.ensures_throw ⟨hafter _, ?_⟩
            exact blamed_of_mem (List.mem_append_right _ (List.mem_cons_of_mem _
              (List.mem_singleton_self _))) hkind
    · exact fun _ _ events hstill => ⟨hstill, blamed_running⟩
  intro answers past
  obtain ⟨hstill, hblamed⟩ := hevents answers past
  exact ⟨hstill, hblamed, running_waitReady rounds interest answers past⟩

/-- A wait inside a loop, after which the loop goes on. -/
theorem ensures_wait_then (rounds : Nat) (interest : Interest) {value : α}
    {post : Outcome Halted α → Unit → List Event → Prop}
    (hok : ∀ events, Waited budget rounds (.ok () : Outcome Halted Unit) events →
      post (.ok value) () events)
    (hstop : ∀ stop events, Waited budget rounds (.stop stop : Outcome Halted Unit) events →
      post (.stop stop) () events) :
    (waitReady budget rounds interest >>= fun _ => (pure value : Step Halted α)).Ensures
      () post := by
  refine Program.ensures_bind (ensures_waitReady rounds interest) ?_ ?_
  · intro _ _ events hwaited
    refine Program.ensures_pure ?_
    rw [List.append_nil]
    exact hok events hwaited
  · exact fun stop _ events hwaited => hstop stop events hwaited

/-! ## Sending -/

/-- What was sent is a part of the request from its start, and all of it once the loop is done. -/
structure Sent (budget : ProbeBudget) (request : List UInt8) (outcome : Outcome Halted Unit)
    (events : List Event) : Prop where
  part : written events <+: request
  silent : received events = []
  whole : outcome = .ok () → written events = request
  paced : Paced budget events
  blamed : Blamed budget outcome events

/-- A send writes a beginning of its request, the whole of it when it succeeds. -/
theorem ensures_sendWithin (rounds : Nat) (request : List UInt8) :
    (sendWithin budget rounds request).Ensures () fun outcome _ events =>
      Sent budget request outcome events := by
  refine Program.ensures_loop (fun count _ events => count ≤ request.length ∧
    written events = request.take count ∧ received events = [] ∧ Paced budget events) ?_ ?_ rounds
      ⟨Nat.zero_le _, rfl, rfl, .nil⟩
  · rintro count _ events ⟨hcount, hwritten, hreceived, hpaced⟩
    split
    next hdone =>
      refine Program.ensures_pure ?_
      rw [List.append_nil]
      have hall : written events = request := by
        rw [hwritten, List.take_of_length_le hdone]
      exact ⟨hall ▸ List.prefix_rfl, hreceived, fun _ => hall, hpaced, blamed_ok⟩
    next hmore =>
      refine ensures_check_bind (fun reading stop hstop => ?_) fun reading left _ => ?_
      · refine ⟨?_, by simp [hreceived, arrived], nofun, hpaced.append (.clock reading),
          blamed_of_mem (List.mem_append_right _ (List.mem_singleton_self _))
            (not_untroubled_clock hstop)⟩
        simpa [taken, hwritten] using List.take_prefix count request
      refine Program.ensures_ask_bind fun answer => ?_
      have hpaced' : Paced budget (events ++ [⟨.clock, reading⟩,
          ⟨.write (request.drop count), answer⟩]) :=
        hpaced.append (.other (fun hwait => hwait) (.other (fun hwait => hwait) .nil))
      have hsilent : received (events ++ [⟨.clock, reading⟩,
          ⟨.write (request.drop count), answer⟩]) = [] := by
        simp [hreceived, arrived]
      have hbytes : written (events ++ [⟨.clock, reading⟩,
          ⟨.write (request.drop count), answer⟩]) =
            request.take count ++ taken ⟨.write (request.drop count), answer⟩ := by
        simp [hwritten, taken]
      have hmem : (⟨.write (request.drop count), answer⟩ : Event) ∈ events ++ [⟨.clock, reading⟩,
          ⟨.write (request.drop count), answer⟩] := by simp
      match answer with
      | .ok sent =>
          have hbound : sent.1 ≤ request.length - count := sent.2.trans (le_of_eq List.length_drop)
          have hsent : taken ⟨.write (request.drop count), .ok sent⟩ =
              (request.drop count).take sent.1 := rfl
          rw [hsent, ← List.take_add] at hbytes
          by_cases hzero : sent.1 = 0
          · simp only [hzero, if_true]
            exact Program.ensures_throw ⟨hbytes ▸ List.take_prefix _ _, hsilent, nofun, hpaced',
              blamed_of_mem hmem fun hmoved => hmoved hzero⟩
          · simp only [hzero, if_false]
            exact Program.ensures_pure ⟨by omega, hbytes, hsilent, hpaced'⟩
      | .error error =>
          have hnothing : taken ⟨.write (request.drop count), .error error⟩ = [] := rfl
          rw [hnothing, List.append_nil] at hbytes
          have hfailed : ∀ {outcome : Outcome Halted Unit}, error.kind ≠ .wouldBlock →
              error.kind ≠ .interrupted → Blamed budget outcome _ := fun hblock hinterrupt =>
            blamed_of_mem hmem fun hcalm => hcalm.elim hblock hinterrupt
          cases hkind : error.kind with
          | wouldBlock =>
              simp only [hkind]
              refine ensures_wait_then rounds _ (fun more hwaited => ?_) fun stop more hwaited => ?_
              · refine ⟨hcount, ?_, ?_, ?_⟩
                · simp [hwritten, taken, hwaited.still.written]
                · simp [hreceived, arrived, hwaited.still.received]
                · simpa using hpaced'.append hwaited.still.paced
              · refine ⟨?_, ?_, nofun, ?_, ?_⟩
                · simpa [hwritten, taken, hwaited.still.written] using List.take_prefix count request
                · simp [hreceived, arrived, hwaited.still.received]
                · simpa using hpaced'.append hwaited.still.paced
                · exact hwaited.blamed.stop fun event hevent => by simp [hevent]
          | interrupted =>
              simp only [hkind]
              exact Program.ensures_pure ⟨hcount, hbytes, hsilent, hpaced'⟩
          | brokenPipe | connectionReset | other =>
              simp only [hkind]
              exact Program.ensures_throw ⟨hbytes ▸ List.take_prefix _ _, hsilent, nofun, hpaced',
                hfailed (by rw [hkind]; decide) (by rw [hkind]; decide)⟩
  · rintro count _ events ⟨hcount, hwritten, hreceived, hpaced⟩
    exact ⟨hwritten ▸ List.take_prefix _ _, hreceived, nofun, hpaced, blamed_running⟩

/-- A send is only still running after as many rounds as it was given. -/
theorem running_sendWithin (rounds : Nat) (request : List UInt8) :
    (sendWithin budget rounds request).Ensures () fun outcome _ events =>
      outcome = .stop .running → rounds ≤ Program.weigh effort events := by
  refine Program.rounds_running (fun count _ => ?_) le_rfl 0 ()
  split
  next => exact Program.ensures_pure trivial
  next =>
    refine ensures_check_bind (fun _ _ _ => trivial) fun reading left _ => ?_
    refine Program.ensures_ask_bind fun answer => ?_
    match answer with
    | .ok sent =>
        by_cases hzero : sent.1 = 0
        · simp only [hzero, if_true]
          exact Program.ensures_throw trivial
        · simp only [hzero, if_false]
          refine Program.ensures_pure ?_
          have hlength := List.length_take_of_le sent.2
          simp only [Program.weigh_cons, effort, taken, hlength]
          omega
    | .error error =>
        have hone : 1 ≤ effort ⟨.write (request.drop count), .error error⟩ := le_rfl
        cases hkind : error.kind with
        | wouldBlock =>
            simp only [hkind]
            refine ensures_wait_then rounds _ (fun more _ => ?_) fun stop more hwaited => ?_
            · simp only [Program.weigh_cons]
              omega
            · cases stop with
              | error error => trivial
              | running =>
                  have hrounds := hwaited.running rfl
                  simp only [Program.weigh_cons]
                  omega
        | interrupted =>
            simp only [hkind]
            refine Program.ensures_pure ?_
            simp only [Program.weigh_cons]
            omega
        | brokenPipe | connectionReset | other =>
            simp only [hkind]
            exact Program.ensures_throw trivial

/-! ## Reading a frame -/

/-- What was read: a frame is its start, up to the first newline or to the limit. -/
structure Framed (budget : ProbeBudget) (outcome : Outcome Halted Frame) (events : List Event) :
    Prop where
  silent : written events = []
  roomy : Roomy 0 events
  paced : Paced budget events
  line : ∀ bytes trailing, outcome = .ok (.line bytes trailing) → newline ∉ bytes ∧
    bytes.length ≤ maxResponseBytes ∧ ∃ extra, received events = bytes ++ newline :: extra
  tooLarge : ∀ bytes, outcome = .ok (.tooLarge bytes) → newline ∉ bytes ∧
    bytes.length = maxResponseBytes + 1 ∧ received events = bytes
  failed : ∀ halted, outcome = .stop (.error halted) →
    (∃ event ∈ events, ¬Untroubled budget event) ∨ halted = .ended ∧ newline ∉ received events ∧
      (received events).length ≤ maxResponseBytes ∧ ∃ before room answer,
        events = before ++ [⟨.read room, .ok answer⟩] ∧ answer.1 = []

/-- What holds of a frame before each round. -/
structure Begun (budget : ProbeBudget) (frame : List UInt8) (events : List Event) : Prop where
  silent : written events = []
  roomy : Roomy 0 events
  paced : Paced budget events
  held : received events = frame
  plain : newline ∉ frame
  room : frame.length ≤ maxResponseBytes

theorem Begun.append {frame : List UInt8} {first second : List Event}
    (hfirst : Begun budget frame first) (hsecond : Still budget second) :
    Begun budget frame (first ++ second) where
  silent := by rw [written_append, hfirst.silent, hsecond.written, List.append_nil]
  roomy := roomy_append.mpr ⟨hfirst.roomy, hsecond.roomy _⟩
  paced := hfirst.paced.append hsecond.paced
  held := by rw [received_append, hfirst.held, hsecond.received, List.append_nil]
  plain := hfirst.plain
  room := hfirst.room

/-- A read, before what it gave is looked at. -/
theorem Begun.read {frame : List UInt8} {events : List Event}
    (hbegun : Begun budget frame events) (reading : Reading)
    (answer : Except SystemError { bytes : List UInt8 //
      bytes.length ≤ min readChunk (maxResponseBytes + 1 - frame.length) }) :
    written (events ++ [⟨.clock, reading⟩, ⟨.read _, answer⟩]) = [] ∧
      Roomy 0 (events ++ [⟨.clock, reading⟩, ⟨.read _, answer⟩]) ∧
      Paced budget (events ++ [⟨.clock, reading⟩, ⟨.read _, answer⟩]) ∧
      received (events ++ [⟨.clock, reading⟩, ⟨.read _, answer⟩]) =
        frame ++ arrived ⟨.read _, answer⟩ := by
  refine ⟨?_, ?_, ?_, ?_⟩
  · simp [hbegun.silent, taken]
  · refine roomy_append.mpr ⟨hbegun.roomy, trivial, ⟨?_, ?_⟩, trivial⟩
    · simpa [hbegun.held, arrived] using hbegun.room
    · simp [hbegun.held, arrived]
  · exact hbegun.paced.append (.other (fun hwait => hwait) (.other (fun hwait => hwait) .nil))
  · simp [hbegun.held, arrived]

/-- A read that gave no byte. -/
theorem Begun.idle {frame : List UInt8} {events : List Event}
    (hbegun : Begun budget frame events) (reading : Reading) (error : SystemError) :
    Begun budget frame (events ++ [⟨.clock, reading⟩,
      ⟨.read (min readChunk (maxResponseBytes + 1 - frame.length)), .error error⟩]) := by
  obtain ⟨hsilent, hroomy, hpaced, hreceived⟩ := hbegun.read reading (.error error)
  exact ⟨hsilent, hroomy, hpaced, hreceived.trans (List.append_nil frame), hbegun.plain,
    hbegun.room⟩

theorem framed_of_blamed {events : List Event} {stop : Stop Halted}
    (hsilent : written events = []) (hroomy : Roomy 0 events) (hpaced : Paced budget events)
    (hblamed : Blamed budget (.stop stop : Outcome Halted Frame) events) :
    Framed budget (.stop stop) events where
  silent := hsilent
  roomy := hroomy
  paced := hpaced
  line _ _ hline := by cases hline
  tooLarge _ hlarge := by cases hlarge
  failed halted hfailed := .inl (hblamed ⟨halted, hfailed⟩)

theorem Begun.framed {frame : List UInt8} {events : List Event} {stop : Stop Halted}
    (hbegun : Begun budget frame events)
    (hblamed : Blamed budget (.stop stop : Outcome Halted Frame) events) :
    Framed budget (.stop stop) events :=
  framed_of_blamed hbegun.silent hbegun.roomy hbegun.paced hblamed

theorem ensures_readFrameWithin (rounds : Nat) :
    (readFrameWithin budget rounds).Ensures () fun outcome _ events =>
      Framed budget outcome events := by
  refine Program.ensures_loop (fun frame _ events => Begun budget frame events) ?_ ?_ rounds
    ⟨rfl, trivial, .nil, rfl, List.not_mem_nil, Nat.zero_le _⟩
  · intro frame _ events hbegun
    refine ensures_check_bind (fun reading stop hstop => ?_) fun reading left _ => ?_
    · exact (hbegun.append (.clock reading)).framed (blamed_of_mem
        (List.mem_append_right _ (List.mem_singleton_self _)) (not_untroubled_clock hstop))
    refine Program.ensures_ask_bind fun answer => ?_
    match answer with
    | .ok ⟨[], hroom⟩ =>
        obtain ⟨hsilent, hroomy, hpaced, hreceived⟩ := hbegun.read reading (.ok ⟨[], hroom⟩)
        have hsame : received (events ++ [⟨.clock, reading⟩, ⟨.read _, .ok ⟨[], hroom⟩⟩]) =
            frame := hreceived.trans (List.append_nil frame)
        refine Program.ensures_throw ⟨hsilent, hroomy, hpaced, nofun, nofun, ?_⟩
        rintro halted ⟨⟩
        refine .inr ⟨rfl, ?_, ?_, events ++ [⟨.clock, reading⟩], _, ⟨[], hroom⟩, ?_, rfl⟩
        · rw [hsame]
          exact hbegun.plain
        · rw [hsame]
          exact hbegun.room
        · rw [List.append_assoc]
          rfl
    | .ok ⟨first :: others, hroom⟩ =>
        obtain ⟨hsilent, hroomy, hpaced, hreceived⟩ :=
          hbegun.read reading (.ok ⟨first :: others, hroom⟩)
        have hlength : (first :: others).length ≤ maxResponseBytes + 1 - frame.length :=
          hroom.trans (min_le_right _ _)
        have hframe := hbegun.room
        -- The budget is checked again before the bytes are looked at.
        have hchecked : ∀ late, written (events ++ [⟨.clock, reading⟩,
            ⟨.read _, .ok ⟨first :: others, hroom⟩⟩, ⟨.clock, late⟩]) = [] ∧
            Roomy 0 (events ++ [⟨.clock, reading⟩,
              ⟨.read _, .ok ⟨first :: others, hroom⟩⟩, ⟨.clock, late⟩]) ∧
            Paced budget (events ++ [⟨.clock, reading⟩,
              ⟨.read _, .ok ⟨first :: others, hroom⟩⟩, ⟨.clock, late⟩]) ∧
            received (events ++ [⟨.clock, reading⟩,
              ⟨.read _, .ok ⟨first :: others, hroom⟩⟩, ⟨.clock, late⟩]) =
                frame ++ (first :: others) := by
          intro late
          have hlate : events ++ [⟨.clock, reading⟩, ⟨.read _, .ok ⟨first :: others, hroom⟩⟩,
              ⟨.clock, late⟩] = (events ++ [⟨.clock, reading⟩,
                ⟨.read _, .ok ⟨first :: others, hroom⟩⟩]) ++ [⟨.clock, late⟩] := by simp
          have hstill := @Still.clock budget late
          rw [hlate, written_append, received_append, hsilent, hreceived, hstill.written,
            hstill.received]
          exact ⟨rfl, roomy_append.mpr ⟨hroomy, hstill.roomy _⟩, hpaced.append hstill.paced,
            List.append_nil _⟩
        refine ensures_check_bind (fun late stop hstop => ?_) fun late left _ => ?_
        · obtain ⟨hsilent, hroomy, hpaced, -⟩ := hchecked late
          exact framed_of_blamed hsilent hroomy hpaced (blamed_of_mem
            (List.mem_append_right _ (by simp)) (not_untroubled_clock hstop))
        obtain ⟨hsilent, hroomy, hpaced, hreceived⟩ := hchecked late
        cases hposition : (first :: others).idxOf? newline with
        | some position =>
            obtain ⟨hbefore, hsplit, hinside⟩ := split_of_idxOf? hposition
            simp only [hposition]
            refine Program.ensures_pure ⟨hsilent, hroomy, hpaced, ?_, nofun, nofun⟩
            rintro bytes trailing ⟨⟩
            refine ⟨?_, ?_, (first :: others).drop (position + 1), ?_⟩
            · rw [List.mem_append, not_or]
              exact ⟨hbegun.plain, hbefore⟩
            · rw [List.length_append, List.length_take]
              omega
            · rw [List.append_assoc, ← hsplit]
              exact hreceived
        | none =>
            have habsent : newline ∉ first :: others := List.idxOf?_eq_none_iff.mp hposition
            have hplain : newline ∉ frame ++ (first :: others) := by
              rw [List.mem_append, not_or]
              exact ⟨hbegun.plain, habsent⟩
            simp only [hposition]
            split
            next hlarge =>
              refine Program.ensures_pure ⟨hsilent, hroomy, hpaced, nofun, ?_, nofun⟩
              rintro bytes ⟨⟩
              refine ⟨hplain, ?_, hreceived⟩
              rw [List.length_append] at hlarge ⊢
              omega
            next hsmall =>
              exact Program.ensures_pure
                ⟨hsilent, hroomy, hpaced, hreceived, hplain, Nat.le_of_not_lt hsmall⟩
    | .error error =>
        have hidle := hbegun.idle reading error
        have hfailed : ∀ {outcome : Outcome Halted Frame}, error.kind ≠ .wouldBlock →
            error.kind ≠ .interrupted → Blamed budget outcome (events ++ [⟨.clock, reading⟩,
              ⟨.read (min readChunk (maxResponseBytes + 1 - frame.length)), .error error⟩]) :=
          fun hblock hinterrupt => blamed_of_mem (List.mem_append_right _ (List.mem_cons_of_mem _
            (List.mem_singleton_self _))) fun hcalm => hcalm.elim hblock hinterrupt
        cases hkind : error.kind with
        | wouldBlock =>
            simp only [hkind]
            refine ensures_wait_then rounds _ (fun more hwaited => ?_) fun stop more hwaited => ?_
            · simpa using hidle.append hwaited.still
            · have hall := hidle.append hwaited.still
              rw [List.append_assoc] at hall
              exact hall.framed (hwaited.blamed.stop fun event hevent => by simp [hevent])
        | interrupted =>
            simp only [hkind]
            exact Program.ensures_pure hidle
        | brokenPipe | connectionReset | other =>
            simp only [hkind]
            exact Program.ensures_throw
              (hidle.framed (hfailed (by rw [hkind]; decide) (by rw [hkind]; decide)))
  · exact fun frame _ events hbegun => hbegun.framed blamed_running

theorem running_readFrameWithin (rounds : Nat) :
    (readFrameWithin budget rounds).Ensures () fun outcome _ events =>
      outcome = .stop .running → rounds ≤ Program.weigh effort events := by
  refine Program.rounds_running (fun frame _ => ?_) le_rfl [] ()
  refine ensures_check_bind (fun _ _ _ => trivial) fun reading left _ => ?_
  refine Program.ensures_ask_bind fun answer => ?_
  match answer with
  | .ok ⟨[], hroom⟩ => exact Program.ensures_throw trivial
  | .ok ⟨first :: others, hroom⟩ =>
      refine ensures_check_bind (fun _ _ _ => trivial) fun late left _ => ?_
      cases hposition : (first :: others).idxOf? newline with
      | some position =>
          simp only [hposition]
          exact Program.ensures_pure trivial
      | none =>
          simp only [hposition]
          split
          next => exact Program.ensures_pure trivial
          next =>
            refine Program.ensures_pure ?_
            simp only [Program.weigh_cons, effort, arrived, List.length_cons]
            omega
  | .error error =>
      have hone : 1 ≤ effort ⟨.read (min readChunk (maxResponseBytes + 1 - frame.length)),
        .error error⟩ := le_rfl
      cases hkind : error.kind with
      | wouldBlock =>
          simp only [hkind]
          refine ensures_wait_then rounds _ (fun more _ => ?_) fun stop more hwaited => ?_
          · simp only [Program.weigh_cons]
            omega
          · cases stop with
            | error error => trivial
            | running =>
                have hrounds := hwaited.running rfl
                simp only [Program.weigh_cons]
                omega
      | interrupted =>
          simp only [hkind]
          refine Program.ensures_pure ?_
          simp only [Program.weigh_cons]
          omega
      | brokenPipe | connectionReset | other =>
          simp only [hkind]
          exact Program.ensures_throw trivial

/-! ## A stream cut into reads -/

/-- The reads of a run give a stream in order and nothing else, the end of it only when all of it
was given, and nothing goes wrong. -/
structure Feeds (budget : ProbeBudget) (stream : List UInt8) (events : List Event) : Prop where
  untroubled : ∀ event ∈ events, Untroubled budget event
  order : received events <+: stream
  ended : ∀ before room answer after, events = before ++ ⟨.read room, .ok answer⟩ :: after →
    answer.1 = [] → received before = stream

theorem newline_mem_take {stream bytes extra rest : List UInt8} {count : Nat}
    (hstream : stream = (bytes ++ newline :: extra) ++ rest) (hlength : bytes.length ≤ count) :
    newline ∈ stream.take (count + 1) := by
  obtain ⟨more, rfl⟩ := Nat.exists_eq_add_of_le hlength
  rw [hstream, List.append_assoc, Nat.add_assoc, List.take_length_add_append]
  exact List.mem_append_right _ (List.mem_cons_self ..)

theorem takeWhile_of_split {stream bytes extra rest : List UInt8}
    (hstream : stream = (bytes ++ newline :: extra) ++ rest) (hplain : newline ∉ bytes) :
    stream.takeWhile (· ≠ newline) = bytes := by
  rw [hstream, List.append_assoc, List.takeWhile_append_of_pos, List.cons_append,
    List.takeWhile_cons_of_neg (by simp), List.append_nil]
  intro byte hbyte
  exact decide_eq_true fun heq => hplain (heq ▸ hbyte)

theorem frame_of_feeds {rounds : Nat} {stream : List UInt8} (answers : world.World)
    (past : List Event)
    (hfeeds : Feeds budget stream (readFrameWithin budget rounds answers () past).events)
    (hrounds : stream.length + idles (readFrameWithin budget rounds answers () past).events <
      rounds) :
    (newline ∈ stream.take (maxResponseBytes + 1) → ∃ trailing,
      (readFrameWithin budget rounds answers () past).outcome =
        .ok (.line (stream.takeWhile (· ≠ newline)) trailing)) ∧
    (newline ∉ stream.take (maxResponseBytes + 1) → maxResponseBytes < stream.length →
      (readFrameWithin budget rounds answers () past).outcome =
        .ok (.tooLarge (stream.take (maxResponseBytes + 1)))) ∧
    (newline ∉ stream.take (maxResponseBytes + 1) → stream.length ≤ maxResponseBytes →
      (readFrameWithin budget rounds answers () past).outcome = .stop (.error .ended)) := by
  have hframed := @ensures_readFrameWithin budget rounds answers past
  have hrunning := @running_readFrameWithin budget rounds answers past
  generalize readFrameWithin budget rounds answers () past = run at *
  obtain ⟨rest, hstream⟩ := hfeeds.order
  cases houtcome : run.outcome with
  | ok frame =>
      cases frame with
      | line bytes trailing =>
          obtain ⟨hplain, hlength, extra, hreceived⟩ := hframed.line bytes trailing houtcome
          have hsplit : stream = (bytes ++ newline :: extra) ++ rest := by
            rw [← hstream, hreceived]
          have hmem := newline_mem_take hsplit hlength
          refine ⟨fun _ => ⟨trailing, ?_⟩, fun habsent => (habsent hmem).elim,
            fun habsent => (habsent hmem).elim⟩
          rw [takeWhile_of_split hsplit hplain]
      | tooLarge bytes =>
          obtain ⟨hplain, hlength, hreceived⟩ := hframed.tooLarge bytes houtcome
          have htake : stream.take (maxResponseBytes + 1) = bytes := by
            rw [← hstream, hreceived, ← hlength, List.take_left]
          rw [htake]
          refine ⟨fun hmem => (hplain hmem).elim, fun _ _ => rfl, fun _ hshort => ?_⟩
          have hall := congrArg List.length hstream
          rw [List.length_append, hreceived] at hall
          omega
  | stop stop =>
      cases stop with
      | running =>
          have hmany := hrunning houtcome
          rw [weigh_effort, hframed.silent, List.length_nil] at hmany
          have hpart := hfeeds.order.length_le
          omega
      | error halted =>
          obtain ⟨event, hmem, htrouble⟩ | ⟨rfl, hplain, hlength, before, room, answer, hevents,
            hempty⟩ := hframed.failed halted houtcome
          · exact (htrouble (hfeeds.untroubled event hmem)).elim
          have hall : received run.events = stream := by
            have hbefore := hfeeds.ended before room answer [] hevents hempty
            rw [hevents, received_append, hbefore, received_cons, arrived, hempty]
            simp
          rw [hall] at hplain hlength
          rw [List.take_of_length_le (by omega)]
          exact ⟨fun hmem => (hplain hmem).elim, fun _ hlong => by omega, fun _ _ => rfl⟩

theorem sent_of_untroubled {rounds : Nat} {request : List UInt8} (answers : world.World)
    (past : List Event)
    (huntroubled : ∀ event ∈ (sendWithin budget rounds request answers () past).events,
      Untroubled budget event)
    (hrounds : request.length + idles (sendWithin budget rounds request answers () past).events <
      rounds) :
    (sendWithin budget rounds request answers () past).outcome = .ok () := by
  have hsent := @ensures_sendWithin budget rounds request answers past
  have hrunning := @running_sendWithin budget rounds request answers past
  generalize sendWithin budget rounds request answers () past = run at *
  cases houtcome : run.outcome with
  | ok value => rfl
  | stop stop =>
      cases stop with
      | running =>
          have hmany := hrunning houtcome
          rw [weigh_effort, hsent.silent, List.length_nil] at hmany
          have hpart := hsent.part.length_le
          omega
      | error halted =>
          obtain ⟨event, hmem, htrouble⟩ := hsent.blamed ⟨halted, houtcome⟩
          exact (htrouble (huntroubled event hmem)).elim

/-! ## Probing -/

/-- The sockets that were connected to. -/
def connected : Event → List (List UInt8)
  | ⟨.connect path, _⟩ => [path]
  | _ => []

variable {library : Library}

theorem paced_exchange (rounds : Nat) (request : List UInt8) :
    (exchange budget rounds library request).Ensures () fun _ _ events => Paced budget events := by
  have hverdict : ∀ halted, (verdictOf halted).Ensures () fun _ _ events =>
      Paced budget events := by
    intro halted
    match halted with
    | .stopped .cancelled => exact Program.ensures_throw .nil
    | .stopped .timedOut => exact Program.ensures_pure .nil
    | .ended => exact Program.ensures_pure .nil
    | .failed _ => exact Program.ensures_pure .nil
  refine Program.ensures_attempt_bind (ensures_sendWithin rounds request) ?_ ?_ ?_
  · intro _ _ events hsent
    refine Program.ensures_attempt_bind (ensures_readFrameWithin rounds) ?_ ?_ ?_
    · intro frame _ more hframed
      have hboth := hsent.paced.append hframed.paced
      cases frame with
      | line bytes trailing =>
          refine Program.ensures_pure ?_
          rwa [List.append_nil]
      | tooLarge bytes =>
          refine Program.ensures_pure ?_
          rwa [List.append_nil]
    · exact fun halted _ more hframed => (hverdict halted).mono fun _ _ rest hrest =>
        hsent.paced.append (hframed.paced.append hrest)
    · exact fun _ more hframed => hsent.paced.append hframed.paced
  · exact fun halted _ events hsent => (hverdict halted).mono fun _ _ rest hrest =>
      hsent.paced.append hrest
  · exact fun _ events hsent => hsent.paced

/-- A check whose failure is the outcome, and what follows it. -/
theorem ensures_checked {next : Step Cancelled Readiness}
    {post : Outcome Cancelled Readiness → Unit → List Event → Prop}
    (hcancelled : ∀ reading, budget.remainingAt reading = .error .cancelled →
      post (.stop (.error ⟨⟩)) () [⟨.clock, reading⟩])
    (hspent : ∀ reading, budget.remainingAt reading = .error .timedOut →
      post (.ok spent) () [⟨.clock, reading⟩])
    (hnext : ∀ reading left, budget.remainingAt reading = .ok left →
      next.Ensures () fun outcome later more => post outcome later (⟨.clock, reading⟩ :: more)) :
    (checked budget next).Ensures () post := by
  refine Program.ensures_attempt_bind ensures_remaining ?_ ?_ ?_
  · rintro left _ _ ⟨reading, rfl, ⟨rest, hleft, hrest⟩ | ⟨stop, -, hstop⟩⟩
    · cases hrest
      exact hnext reading left hleft
    · cases hstop
  · rintro stop _ _ ⟨reading, rfl, ⟨rest, -, hrest⟩ | ⟨why, hleft, hwhy⟩⟩
    · cases hrest
    · cases hwhy
      cases stop with
      | cancelled => exact Program.ensures_throw (hcancelled reading hleft)
      | timedOut => exact Program.ensures_pure (hspent reading hleft)
  · rintro _ _ ⟨reading, rfl, ⟨rest, -, hrest⟩ | ⟨stop, -, hstop⟩⟩
    · cases hrest
    · cases hstop

/-- The last event of a probe decides what it may say. -/
structure Probed (budget : ProbeBudget) (outcome : Outcome Cancelled Readiness)
    (events : List Event) : Prop where
  paced : Paced budget events
  judged : ∀ verdict, outcome = .ok verdict → verdict ≠ spent →
    (∀ path, verdict ≠ .notReady (.unreachable path)) →
    ∃ reading left, events.getLast? = some ⟨.clock, reading⟩ ∧
      budget.remainingAt reading = .ok left
  cancelled : ∀ reading, events.getLast? = some ⟨.clock, reading⟩ → reading.shutdown = true →
    outcome = .stop .running ∨ outcome = .stop (.error ⟨⟩)

theorem probed_cancelled {events : List Event} (hpaced : Paced budget events) :
    Probed budget (.stop (.error ⟨⟩)) events :=
  ⟨hpaced, nofun, fun _ _ _ => .inr rfl⟩

theorem probed_running {events : List Event} (hpaced : Paced budget events) :
    Probed budget (.stop .running) events :=
  ⟨hpaced, nofun, fun _ _ _ => .inl rfl⟩

theorem probed_spent {before : List Event} {reading : Reading}
    (hpaced : Paced budget (before ++ [⟨.clock, reading⟩]))
    (hleft : budget.remainingAt reading = .error .timedOut) :
    Probed budget (.ok spent) (before ++ [⟨.clock, reading⟩]) where
  paced := hpaced
  judged _ houtcome hspent := by
    cases houtcome
    exact (hspent rfl).elim
  cancelled late hlast hshutdown := by
    rw [List.getLast?_concat] at hlast
    cases hlast
    cases (remainingAt_of_shutdown hshutdown).symm.trans hleft

theorem probed_judged {before : List Event} {reading : Reading} {left : Nat} {verdict : Readiness}
    (hpaced : Paced budget (before ++ [⟨.clock, reading⟩]))
    (hleft : budget.remainingAt reading = .ok left) :
    Probed budget (.ok verdict) (before ++ [⟨.clock, reading⟩]) where
  paced := hpaced
  judged _ _ _ _ := ⟨reading, left, List.getLast?_concat .., hleft⟩
  cancelled late hlast hshutdown := by
    rw [List.getLast?_concat] at hlast
    cases hlast
    cases (remainingAt_of_shutdown hshutdown).symm.trans hleft

theorem probed_unconnected {before : List Event} {socket : List UInt8} {connected : Connected}
    {verdict : Readiness} (hpaced : Paced budget (before ++ [⟨.connect socket, connected⟩]))
    (hverdict : verdict = spent ∨ ∃ path, verdict = .notReady (.unreachable path)) :
    Probed budget (.ok verdict) (before ++ [⟨.connect socket, connected⟩]) where
  paced := hpaced
  judged _ houtcome hspent hunreachable := by
    cases houtcome
    obtain hverdict | ⟨path, hverdict⟩ := hverdict
    · exact (hspent hverdict).elim
    · exact (hunreachable path hverdict).elim
  cancelled late hlast _ := by
    rw [List.getLast?_concat] at hlast
    cases hlast

theorem ensures_probeWith (rounds : Nat) (socket : List UInt8) :
    (probeWith budget rounds library socket).Ensures () fun outcome _ events =>
      Probed budget outcome events := by
  have hfirst : ∀ reading rest, Paced budget rest →
      Paced budget (⟨.clock, reading⟩ :: rest) := fun _ _ hrest => .other (fun hwait => hwait) hrest
  have hsecond : ∀ connected rest, Paced budget rest →
      Paced budget (⟨.connect socket, connected⟩ :: rest) :=
    fun _ _ hrest => .other (fun hwait => hwait) hrest
  refine ensures_checked (fun reading _ => probed_cancelled (.clock reading))
    (fun reading hleft => @probed_spent budget [] reading (.clock reading) hleft)
    fun reading left _ => ?_
  refine Program.ensures_ask_bind fun connected => ?_
  have hconnect : Paced budget ([⟨.clock, reading⟩] ++ [⟨.connect socket, connected⟩]) :=
    hfirst reading _ (hsecond connected _ .nil)
  match connected with
  | .unreachable =>
      exact Program.ensures_pure (probed_unconnected hconnect (.inr ⟨socket, rfl⟩))
  | .stopped .cancelled => exact Program.ensures_throw (probed_cancelled hconnect)
  | .stopped .timedOut => exact Program.ensures_pure (probed_unconnected hconnect (.inl rfl))
  | .yes =>
      have hconnected : ∀ rest, Paced budget rest →
          Paced budget (⟨.clock, reading⟩ :: ⟨.connect socket, .yes⟩ :: rest) := fun rest hrest =>
        hfirst reading _ (hsecond .yes rest hrest)
      refine ensures_checked
        (fun later _ => probed_cancelled (hconnected _ (.clock later)))
        (fun later hleft => @probed_spent budget [⟨.clock, reading⟩, ⟨.connect socket, .yes⟩] later
          (hconnected _ (.clock later)) hleft)
        fun later left _ => ?_
      refine Program.ensures_attempt_bind (paced_exchange rounds statusRequest) ?_ ?_ ?_
      · intro verdict _ events hpaced
        have hlast : ∀ last, Paced budget ((⟨.clock, reading⟩ :: ⟨.connect socket, .yes⟩ ::
            ⟨.clock, later⟩ :: events) ++ [⟨.clock, last⟩]) := fun last =>
          hconnected _ (hfirst later _ (hpaced.append (.clock last)))
        exact ensures_checked (fun last _ => probed_cancelled (hlast last))
          (fun last hleft => probed_spent (hlast last) hleft)
          fun last left hleft => Program.ensures_pure (probed_judged (hlast last) hleft)
      · intro _ _ events hpaced
        have hlast : ∀ last, Paced budget ((⟨.clock, reading⟩ :: ⟨.connect socket, .yes⟩ ::
            ⟨.clock, later⟩ :: events) ++ [⟨.clock, last⟩]) := fun last =>
          hconnected _ (hfirst later _ (hpaced.append (.clock last)))
        exact ensures_checked (fun last _ => probed_cancelled (hlast last))
          (fun last hleft => probed_spent (hlast last) hleft)
          fun last left _ => Program.ensures_throw (probed_cancelled (hlast last))
      · exact fun _ events hpaced => probed_running (hconnected _ (hfirst later _ hpaced))

end Programs

theorem Roomy.read {events before after : List Event} {room : Nat}
    {answer : Except SystemError { bytes : List UInt8 // bytes.length ≤ room }}
    (hroomy : Roomy 0 events) (hevents : events = before ++ ⟨.read room, answer⟩ :: after) :
    (received before).length ≤ maxResponseBytes ∧
      room = min readChunk (maxResponseBytes + 1 - (received before).length) := by
  rw [hevents, roomy_append, Nat.zero_add] at hroomy
  exact hroomy.2.1

/-- Each wait is asked for a positive time: no more than 25 ms, and no more than the reading right
before it left. -/
def WaitsInTime (budget : ProbeBudget) (events : List Event) : Prop :=
  ∀ before interest limit answer after,
    events = before ++ ⟨.wait interest limit, answer⟩ :: after →
      ∃ earlier reading left, before = earlier ++ [⟨.clock, reading⟩] ∧
        budget.remainingAt reading = .ok left ∧ limit = min left maxWait ∧ 0 < limit

theorem Paced.inTime {events : List Event} (hpaced : Paced budget events) :
    WaitsInTime budget events := by
  intro before interest limit answer after hevents
  obtain ⟨earlier, reading, left, hbefore, hleft, rfl⟩ := hpaced.check hevents
  have hpositive := (remainingAt_eq_ok hleft).2.2
  exact ⟨earlier, reading, left, hbefore, hleft, rfl, lt_min hpositive (by decide)⟩

/-- However a stream is cut into reads, the frame that is read is the same; a request is written in
order; waits are short; and a verdict on what the broker said is given only inside the allowance,
with no shutdown seen at the end. -/
theorem probing_ignores_cuts_and_keeps_its_allowance (library : Library) (budget : ProbeBudget)
    (rounds : Nat) (request socket : List UInt8) (answers : world.World) (past : List Event) :
    let sending := sendWithin budget rounds request answers () past
    let reading := readFrameWithin budget rounds answers () past
    let probing := probeWith budget rounds library socket answers () past
    (∀ stream, Feeds budget stream reading.events →
      stream.length + idles reading.events < rounds →
        (newline ∈ stream.take (maxResponseBytes + 1) →
          ∃ trailing, reading.outcome = .ok (.line (stream.takeWhile (· ≠ newline)) trailing)) ∧
        (newline ∉ stream.take (maxResponseBytes + 1) → maxResponseBytes < stream.length →
          reading.outcome = .ok (.tooLarge (stream.take (maxResponseBytes + 1)))) ∧
        (newline ∉ stream.take (maxResponseBytes + 1) → stream.length ≤ maxResponseBytes →
          reading.outcome = .stop (.error .ended))) ∧
    (∀ before room answer after, reading.events = before ++ ⟨.read room, answer⟩ :: after →
      (received before).length ≤ maxResponseBytes ∧
        room = min readChunk (maxResponseBytes + 1 - (received before).length)) ∧
    written sending.events <+: request ∧
    (sending.outcome = .ok () → written sending.events = request) ∧
    ((∀ event ∈ sending.events, Untroubled budget event) →
      request.length + idles sending.events < rounds → sending.outcome = .ok ()) ∧
    WaitsInTime budget sending.events ∧
    WaitsInTime budget reading.events ∧
    WaitsInTime budget probing.events ∧
    (∀ verdict, probing.outcome = .ok verdict → verdict ≠ spent →
      (∀ path, verdict ≠ .notReady (.unreachable path)) →
        ∃ last, probing.events.getLast? = some ⟨.clock, last⟩ ∧ last.shutdown = false ∧
          last.now < budget.start + budget.allowance) ∧
    (∀ last, probing.events.getLast? = some ⟨.clock, last⟩ → last.shutdown = true →
      probing.outcome ≠ .stop .running → probing.outcome = .stop (.error ⟨⟩)) := by
  intro sending reading probing
  have hsent := @ensures_sendWithin budget rounds request answers past
  have hframed := @ensures_readFrameWithin budget rounds answers past
  have hprobed := @ensures_probeWith budget library rounds socket answers past
  refine ⟨fun stream hfeeds hrounds => frame_of_feeds answers past hfeeds hrounds,
    fun before room answer after hevents => hframed.roomy.read hevents, hsent.part, hsent.whole,
    fun huntroubled hrounds => sent_of_untroubled answers past huntroubled hrounds,
    hsent.paced.inTime, hframed.paced.inTime, hprobed.paced.inTime, ?_, ?_⟩
  · intro verdict houtcome hspent hunreachable
    obtain ⟨last, left, hlast, hleft⟩ := hprobed.judged verdict houtcome hspent hunreachable
    obtain ⟨hshutdown, hnow, -⟩ := remainingAt_eq_ok hleft
    exact ⟨last, hlast, hshutdown, hnow⟩
  · intro last hlast hshutdown hrunning
    exact (hprobed.cancelled last hlast hshutdown).resolve_left hrunning

/-- A broker whose line comes in two parts, after one read that found nothing. -/
def sampleBroker : world.World := fun past question =>
  match question with
  | .clock => ⟨0, false⟩
  | .connect _ => .yes
  | .wait _ _ => .ok true
  | .write bytes => .ok ⟨bytes.length, le_rfl⟩
  | .read room =>
      if past.length = 1 then .error ⟨.wouldBlock, none⟩
      else if hroom : 2 ≤ room then .ok ⟨if past.length < 7 then [111] else [107, newline], by
        split
        · exact Nat.le_of_succ_le hroom
        · exact hroom⟩
      else .ok ⟨[], Nat.zero_le room⟩

def sampleBudget : ProbeBudget := ⟨0, 1⟩

theorem sampleBroker_events :
    (readFrameWithin sampleBudget 5 sampleBroker () []).events =
      [⟨.clock, ⟨0, false⟩⟩, ⟨.read readChunk, .error ⟨.wouldBlock, none⟩⟩,
        ⟨.clock, ⟨0, false⟩⟩, ⟨.wait .readable 1, .ok true⟩,
        ⟨.clock, ⟨0, false⟩⟩, ⟨.read readChunk, .ok ⟨[111], by decide⟩⟩, ⟨.clock, ⟨0, false⟩⟩,
        ⟨.clock, ⟨0, false⟩⟩, ⟨.read readChunk, .ok ⟨[107, newline], by decide⟩⟩,
        ⟨.clock, ⟨0, false⟩⟩] := rfl

theorem sampleBroker_feeds : Feeds sampleBudget [111, 107, newline]
    (readFrameWithin sampleBudget 5 sampleBroker () []).events := by
  rw [sampleBroker_events]
  have hclock : Untroubled sampleBudget ⟨.clock, ⟨0, false⟩⟩ := ⟨1, rfl⟩
  constructor
  · simp only [List.forall_mem_cons]
    exact ⟨hclock, .inl rfl, hclock, trivial, hclock, trivial, hclock, hclock, trivial, hclock,
      nofun⟩
  · exact List.prefix_rfl
  · intro before room answer after hevents hempty
    have hmem : (⟨.read room, .ok answer⟩ : Event) ∈ before ++ ⟨.read room, .ok answer⟩ :: after :=
      List.mem_append_right before (List.mem_cons_self ..)
    rw [← hevents] at hmem
    simp only [List.mem_cons, List.not_mem_nil, or_false] at hmem
    rcases hmem with h | h | h | h | h | h | h | h | h | h <;> cases h <;> cases hempty

theorem probing_ignores_cuts_and_keeps_its_allowance_sample :
    ∃ trailing, (readFrameWithin sampleBudget 5 sampleBroker () []).outcome =
      .ok (.line [111, 107] trailing) :=
  ((probing_ignores_cuts_and_keeps_its_allowance scanned sampleBudget 5 [] [] sampleBroker []).1
    [111, 107, newline] sampleBroker_feeds (by rw [sampleBroker_events]; decide)).1 (by decide)

end Plasmosome.Membrane.Probe
