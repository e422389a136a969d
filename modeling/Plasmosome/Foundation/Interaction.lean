import Mathlib

/-!
# Programs that ask a world

A program asks questions one by one, and a world answers each from everything
that happened before. Nothing else is known of the world. What a program
promises is about its outcome, the memory it leaves and the events of its run.
-/

namespace Foundation

/-- Why a program has no value: it failed, or it was still running after the rounds it was given. -/
inductive Stop (ε : Type) where
  | error (error : ε)
  | running

inductive Outcome (ε α : Type) where
  | ok (value : α)
  | stop (stop : Stop ε)

/-- Questions, and the answers each of them takes. -/
structure Interface where
  Question : Type
  Answer : Question → Type

namespace Interface

/-- A question with its answer. -/
abbrev Event (interface : Interface) : Type :=
  (question : interface.Question) × interface.Answer question

/-- A world answers a question from the events before it, the first event first. -/
abbrev World (interface : Interface) : Type :=
  List interface.Event → (question : interface.Question) → interface.Answer question

end Interface

/-- What a run comes to, and the events it adds. -/
structure Run (interface : Interface) (Memory ε α : Type) where
  outcome : Outcome ε α
  memory : Memory
  events : List interface.Event

def Program (interface : Interface) (Memory ε α : Type) : Type :=
  interface.World → Memory → List interface.Event → Run interface Memory ε α

namespace Program

variable {interface : Interface} {Memory ε ε' α β σ : Type}

protected def pure (value : α) : Program interface Memory ε α :=
  fun _ memory _ => ⟨.ok value, memory, []⟩

protected def bind (first : Program interface Memory ε α)
    (second : α → Program interface Memory ε β) : Program interface Memory ε β :=
  fun world memory past =>
    match first world memory past with
    | ⟨.stop stop, memory, events⟩ => ⟨.stop stop, memory, events⟩
    | ⟨.ok value, memory, events⟩ =>
        let rest := second value world memory (past ++ events)
        ⟨rest.outcome, rest.memory, events ++ rest.events⟩

instance : Monad (Program interface Memory ε) where
  pure := Program.pure
  bind := Program.bind

def throw (error : ε) : Program interface Memory ε α :=
  fun _ memory _ => ⟨.stop (.error error), memory, []⟩

def ofExcept : Except ε α → Program interface Memory ε α
  | .ok value => pure value
  | .error error => throw error

def ask (question : interface.Question) :
    Program interface Memory ε (interface.Answer question) :=
  fun world memory past => ⟨.ok (world past question), memory, [⟨question, world past question⟩]⟩

def set (memory : Memory) : Program interface Memory ε Unit :=
  fun _ _ _ => ⟨.ok (), memory, []⟩

def get : Program interface Memory ε Memory :=
  fun _ memory _ => ⟨.ok memory, memory, []⟩

/-- Hands out what was remembered, and leaves something else. -/
def replace (memory : Memory) : Program interface Memory ε Memory :=
  fun _ held _ => ⟨.ok held, memory, []⟩

/-- Hands a failure of the program to what follows it. -/
def attempt (program : Program interface Memory ε α) :
    Program interface Memory ε' (Except ε α) :=
  fun world memory past =>
    match program world memory past with
    | ⟨.ok value, memory, events⟩ => ⟨.ok (.ok value), memory, events⟩
    | ⟨.stop (.error error), memory, events⟩ => ⟨.ok (.error error), memory, events⟩
    | ⟨.stop .running, memory, events⟩ => ⟨.stop .running, memory, events⟩

def mapError (program : Program interface Memory ε α) (wrap : ε → ε') :
    Program interface Memory ε' α := do
  match ← program.attempt with
  | .ok value => pure value
  | .error error => throw (wrap error)

/-- A loop. Its body gives the next state or the result. -/
def rounds (body : σ → Program interface Memory ε (σ ⊕ α)) :
    Nat → σ → Program interface Memory ε α
  | 0, _ => fun _ memory _ => ⟨.stop .running, memory, []⟩
  | count + 1, state => do
      match ← body state with
      | .inl next => rounds body count next
      | .inr result => pure result

/-! ## What a program promises -/

/-- From a memory, whatever the world answers and whatever happened before, the outcome, the
memory left and the events of the run are as said. -/
def Ensures (program : Program interface Memory ε α) (memory : Memory)
    (post : Outcome ε α → Memory → List interface.Event → Prop) : Prop :=
  ∀ world past, post (program world memory past).outcome (program world memory past).memory
    (program world memory past).events

variable {memory : Memory} {post : Outcome ε α → Memory → List interface.Event → Prop}

theorem Ensures.mono {program : Program interface Memory ε α}
    {weaker : Outcome ε α → Memory → List interface.Event → Prop}
    (hprogram : program.Ensures memory post)
    (hweaker : ∀ outcome left events, post outcome left events → weaker outcome left events) :
    program.Ensures memory weaker :=
  fun world past => hweaker _ _ _ (hprogram world past)

theorem ensures_pure {value : α} (hpost : post (.ok value) memory []) :
    (pure value : Program interface Memory ε α).Ensures memory post :=
  fun _ _ => hpost

theorem ensures_throw {error : ε} (hpost : post (.stop (.error error)) memory []) :
    (throw error : Program interface Memory ε α).Ensures memory post :=
  fun _ _ => hpost

theorem ensures_set {left : Memory} {post : Outcome ε Unit → Memory → List interface.Event → Prop}
    (hpost : post (.ok ()) left []) :
    (set left : Program interface Memory ε Unit).Ensures memory post :=
  fun _ _ => hpost

theorem ensures_replace {left : Memory}
    {post : Outcome ε Memory → Memory → List interface.Event → Prop}
    (hpost : post (.ok memory) left []) :
    (replace left : Program interface Memory ε Memory).Ensures memory post :=
  fun _ _ => hpost

/-- What follows a program runs from the memory it left, and its events come after the program's. -/
theorem ensures_bind {first : Program interface Memory ε α}
    {second : α → Program interface Memory ε β}
    {middle : Outcome ε α → Memory → List interface.Event → Prop}
    {post : Outcome ε β → Memory → List interface.Event → Prop}
    (hfirst : first.Ensures memory middle)
    (hok : ∀ value left events, middle (.ok value) left events →
      (second value).Ensures left fun outcome later more => post outcome later (events ++ more))
    (hstop : ∀ stop left events, middle (.stop stop) left events → post (.stop stop) left events) :
    (first >>= second).Ensures memory post := by
  intro world past
  have hmiddle := hfirst world past
  change post (Program.bind first second world memory past).outcome
    (Program.bind first second world memory past).memory
    (Program.bind first second world memory past).events
  rw [Program.bind]
  cases hrun : first world memory past with
  | mk outcome left events =>
      rw [hrun] at hmiddle
      cases outcome with
      | ok value => exact hok value left events hmiddle world (past ++ events)
      | stop stop => exact hstop stop left events hmiddle

theorem ensures_pure_bind {value : α} {next : α → Program interface Memory ε β}
    {post : Outcome ε β → Memory → List interface.Event → Prop}
    (hnext : (next value).Ensures memory post) : (pure value >>= next).Ensures memory post :=
  fun world past => hnext world (past ++ [])

theorem ensures_throw_bind {error : ε} {next : α → Program interface Memory ε β}
    {post : Outcome ε β → Memory → List interface.Event → Prop}
    (hpost : post (.stop (.error error)) memory []) :
    ((throw error : Program interface Memory ε α) >>= next).Ensures memory post :=
  fun _ _ => hpost

/-- A question, and what follows each of its answers. -/
theorem ensures_ask_bind {question : interface.Question}
    {next : interface.Answer question → Program interface Memory ε β}
    {post : Outcome ε β → Memory → List interface.Event → Prop}
    (hnext : ∀ answer, (next answer).Ensures memory fun outcome left more =>
      post outcome left (⟨question, answer⟩ :: more)) :
    (ask question >>= next).Ensures memory post := by
  intro world past
  have hpost := hnext (world past question) world (past ++ [⟨question, world past question⟩])
  exact hpost

theorem ensures_attempt {program : Program interface Memory ε α}
    {middle : Outcome ε α → Memory → List interface.Event → Prop}
    {post : Outcome ε' (Except ε α) → Memory → List interface.Event → Prop}
    (hprogram : program.Ensures memory middle)
    (hok : ∀ value left events, middle (.ok value) left events → post (.ok (.ok value)) left events)
    (herror : ∀ error left events, middle (.stop (.error error)) left events →
      post (.ok (.error error)) left events)
    (hrunning : ∀ left events, middle (.stop .running) left events →
      post (.stop .running) left events) :
    (program.attempt : Program interface Memory ε' _).Ensures memory post := by
  intro world past
  have hmiddle := hprogram world past
  rw [attempt]
  cases hrun : program world memory past with
  | mk outcome left events =>
      rw [hrun] at hmiddle
      cases outcome with
      | ok value => exact hok value left events hmiddle
      | stop stop =>
          cases stop with
          | error error => exact herror error left events hmiddle
          | running => exact hrunning left events hmiddle

/-- A program, and what follows its value or its failure. -/
theorem ensures_attempt_bind {program : Program interface Memory ε α}
    {next : Except ε α → Program interface Memory ε' β}
    {middle : Outcome ε α → Memory → List interface.Event → Prop}
    {post : Outcome ε' β → Memory → List interface.Event → Prop}
    (hprogram : program.Ensures memory middle)
    (hok : ∀ value left events, middle (.ok value) left events →
      (next (.ok value)).Ensures left fun outcome later more => post outcome later (events ++ more))
    (herror : ∀ error left events, middle (.stop (.error error)) left events →
      (next (.error error)).Ensures left fun outcome later more =>
        post outcome later (events ++ more))
    (hrunning : ∀ left events, middle (.stop .running) left events →
      post (.stop .running) left events) :
    (program.attempt >>= next).Ensures memory post := by
  have hattempt : (program.attempt : Program interface Memory ε' _).Ensures memory
      fun outcome left events => match outcome with
        | .ok result => (next result).Ensures left fun outcome later more =>
            post outcome later (events ++ more)
        | .stop stop => post (.stop stop) left events :=
    ensures_attempt hprogram hok herror hrunning
  exact ensures_bind hattempt (fun _ _ _ hnext => hnext) (fun _ _ _ hpost => hpost)

theorem ensures_mapError {program : Program interface Memory ε α} {wrap : ε → ε'}
    {middle : Outcome ε α → Memory → List interface.Event → Prop}
    {post : Outcome ε' α → Memory → List interface.Event → Prop}
    (hprogram : program.Ensures memory middle)
    (hok : ∀ value left events, middle (.ok value) left events → post (.ok value) left events)
    (herror : ∀ error left events, middle (.stop (.error error)) left events →
      post (.stop (.error (wrap error))) left events)
    (hrunning : ∀ left events, middle (.stop .running) left events →
      post (.stop .running) left events) :
    (program.mapError wrap).Ensures memory post := by
  intro world past
  have hmiddle := hprogram world past
  change post (Program.bind program.attempt _ world memory past).outcome
    (Program.bind program.attempt _ world memory past).memory
    (Program.bind program.attempt _ world memory past).events
  rw [Program.bind, attempt]
  cases hrun : program world memory past with
  | mk outcome left events =>
      rw [hrun] at hmiddle
      cases outcome with
      | ok value =>
          have hpost := hok value left events hmiddle
          rw [← List.append_nil events] at hpost
          exact hpost
      | stop stop =>
          cases stop with
          | error error =>
              have hpost := herror error left events hmiddle
              rw [← List.append_nil events] at hpost
              exact hpost
          | running => exact hrunning left events hmiddle

/-- What the body keeps of the state, the memory and the events so far holds in every round; the
loop ends with what the body's last round promises, or while the invariant holds. -/
theorem ensures_rounds {body : σ → Program interface Memory ε (σ ⊕ α)}
    {invariant : σ → Memory → List interface.Event → Prop}
    (hbody : ∀ state left events, invariant state left events →
      (body state).Ensures left fun outcome later more =>
        match outcome with
        | .ok (.inl next) => invariant next later (events ++ more)
        | .ok (.inr result) => post (.ok result) later (events ++ more)
        | .stop stop => post (.stop stop) later (events ++ more))
    (hrunning : ∀ state left events, invariant state left events →
      post (.stop .running) left events)
    (count : Nat) {state : σ} {events : List interface.Event}
    (hstate : invariant state memory events) :
    (rounds body count state).Ensures memory fun outcome later more =>
      post outcome later (events ++ more) := by
  induction count generalizing state memory events with
  | zero =>
      intro world past
      have hend := hrunning state memory events hstate
      rw [← List.append_nil events] at hend
      exact hend
  | succ count ih =>
      rw [rounds]
      refine ensures_bind (hbody state memory events hstate) ?_ ?_
      · intro next left more hnext
        cases next with
        | inl next =>
            refine (ih hnext).mono fun outcome later rest hpost => ?_
            rwa [List.append_assoc] at hpost
        | inr result =>
            refine ensures_pure ?_
            rw [List.append_nil]
            exact hnext
      · intro stop left more hpost
        exact hpost

theorem ensures_loop {body : σ → Program interface Memory ε (σ ⊕ α)}
    (invariant : σ → Memory → List interface.Event → Prop)
    (hbody : ∀ state left events, invariant state left events →
      (body state).Ensures left fun outcome later more =>
        match outcome with
        | .ok (.inl next) => invariant next later (events ++ more)
        | .ok (.inr result) => post (.ok result) later (events ++ more)
        | .stop stop => post (.stop stop) later (events ++ more))
    (hrunning : ∀ state left events, invariant state left events →
      post (.stop .running) left events)
    (count : Nat) {state : σ} (hstate : invariant state memory []) :
    (rounds body count state).Ensures memory post :=
  ensures_rounds hbody hrunning count hstate

end Program

end Foundation
