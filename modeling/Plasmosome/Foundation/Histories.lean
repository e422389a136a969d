import Plasmosome.Foundation.Interaction

/-!
# Programs with a history

What a program promises from a memory and the events so far. The rules go forward:
a question adds its answer to the history, and what follows runs from there.
-/

namespace Foundation

namespace Program

variable {interface : Interface} {Memory ε ε' α β σ : Type} {memory : Memory}
  {history : List interface.Event}

/-- Whatever the world answers, the outcome, the memory left and the history with the events of
the run are as said. -/
def Meets (program : Program interface Memory ε α) (memory : Memory)
    (history : List interface.Event)
    (post : Outcome ε α → Memory → List interface.Event → Prop) : Prop :=
  program.Ensures memory fun outcome left events => post outcome left (history ++ events)

variable {post weaker : Outcome ε α → Memory → List interface.Event → Prop}

theorem Meets.mono {program : Program interface Memory ε α}
    (hprogram : program.Meets memory history post)
    (hweaker : ∀ outcome left later, post outcome left later → weaker outcome left later) :
    program.Meets memory history weaker :=
  Ensures.mono hprogram fun outcome left events => hweaker outcome left (history ++ events)

theorem meets_pure {value : α} (hpost : post (.ok value) memory history) :
    (pure value : Program interface Memory ε α).Meets memory history post := by
  refine ensures_pure ?_
  rwa [List.append_nil]

theorem meets_throw {error : ε} (hpost : post (.stop (.error error)) memory history) :
    (throw error : Program interface Memory ε α).Meets memory history post := by
  refine ensures_throw ?_
  rwa [List.append_nil]

theorem meets_pure_bind {value : α} {next : α → Program interface Memory ε β}
    {post : Outcome ε β → Memory → List interface.Event → Prop}
    (hnext : (next value).Meets memory history post) :
    (pure value >>= next).Meets memory history post :=
  fun world past => hnext world (past ++ [])

/-- What follows a program runs from the memory and the history it left. -/
theorem meets_bind {first : Program interface Memory ε α}
    {second : α → Program interface Memory ε β}
    {post : Outcome ε β → Memory → List interface.Event → Prop}
    (hfirst : first.Meets memory history fun outcome left later => match outcome with
      | .ok value => (second value).Meets left later post
      | .stop stop => post (.stop stop) left later) :
    (first >>= second).Meets memory history post := by
  refine ensures_bind hfirst ?_ ?_
  · intro value left events hvalue
    refine Ensures.mono hvalue fun outcome later more hpost => ?_
    rwa [List.append_assoc] at hpost
  · intro stop left events hpost
    exact hpost

/-- What follows a program gets its value or its failure. -/
theorem meets_attempt_bind {program : Program interface Memory ε α}
    {next : Except ε α → Program interface Memory ε' β}
    {post : Outcome ε' β → Memory → List interface.Event → Prop}
    (hprogram : program.Meets memory history fun outcome left later => match outcome with
      | .ok value => (next (.ok value)).Meets left later post
      | .stop (.error error) => (next (.error error)).Meets left later post
      | .stop .running => post (.stop .running) left later) :
    (program.attempt >>= next).Meets memory history post := by
  refine ensures_attempt_bind hprogram ?_ ?_ ?_
  · intro value left events hvalue
    refine Ensures.mono hvalue fun outcome later more hpost => ?_
    rwa [List.append_assoc] at hpost
  · intro error left events herror
    refine Ensures.mono herror fun outcome later more hpost => ?_
    rwa [List.append_assoc] at hpost
  · intro left events hpost
    exact hpost

theorem meets_ask_bind {question : interface.Question}
    {next : interface.Answer question → Program interface Memory ε β}
    {post : Outcome ε β → Memory → List interface.Event → Prop}
    (hnext : ∀ answer, (next answer).Meets memory (history ++ [⟨question, answer⟩]) post) :
    (ask question >>= next).Meets memory history post := by
  refine ensures_ask_bind fun answer => ?_
  refine Ensures.mono (hnext answer) fun outcome left more hpost => ?_
  rwa [List.append_assoc] at hpost

theorem meets_set_bind {left : Memory} {next : Unit → Program interface Memory ε β}
    {post : Outcome ε β → Memory → List interface.Event → Prop}
    (hnext : (next ()).Meets left history post) :
    ((set left : Program interface Memory ε Unit) >>= next).Meets memory history post :=
  fun world past => hnext world (past ++ [])

theorem meets_get_bind {next : Memory → Program interface Memory ε β}
    {post : Outcome ε β → Memory → List interface.Event → Prop}
    (hnext : (next memory).Meets memory history post) :
    ((get : Program interface Memory ε Memory) >>= next).Meets memory history post :=
  fun world past => hnext world (past ++ [])

/-- A loop whose body keeps an invariant from round to round. -/
theorem meets_rounds {body : σ → Program interface Memory ε (σ ⊕ α)}
    (invariant : σ → Memory → List interface.Event → Prop)
    (hbody : ∀ state left later, invariant state left later →
      (body state).Meets left later fun outcome left later => match outcome with
        | .ok (.inl next) => invariant next left later
        | .ok (.inr result) => post (.ok result) left later
        | .stop stop => post (.stop stop) left later)
    (hrunning : ∀ state left later, invariant state left later →
      post (.stop .running) left later)
    (count : Nat) {state : σ} (hstate : invariant state memory history) :
    (rounds body count state).Meets memory history post := by
  induction count generalizing state memory history with
  | zero =>
      intro world past
      have hend := hrunning state memory history hstate
      rw [← List.append_nil history] at hend
      exact hend
  | succ count ih =>
      rw [rounds]
      refine meets_bind ((hbody state memory history hstate).mono ?_)
      intro outcome left later hround
      cases outcome with
      | stop stop => exact hround
      | ok next =>
          cases next with
          | inl next => exact ih hround
          | inr result => exact meets_pure hround

/-- What a program meets is what its run from that history comes to. -/
theorem Meets.run {program : Program interface Memory ε α}
    (hprogram : program.Meets memory history post) (world : interface.World) :
    post (program world memory history).outcome (program world memory history).memory
      (history ++ (program world memory history).events) :=
  hprogram world history

end Program

end Foundation
