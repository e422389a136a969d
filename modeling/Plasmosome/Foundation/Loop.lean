import Mathlib

/-!
# Loops that end

A loop is a step that returns a result or another state, with a measure that
falls on every state it returns. Its run is total. What a step keeps, the whole
run keeps.
-/

namespace Foundation

structure Loop (State Result : Type*) where
  step : State → Result ⊕ State
  measure : State → Nat
  decreases : ∀ state next, step state = .inr next → measure next < measure state

namespace Loop

variable {State Result : Type*} (loop : Loop State Result)

def run (state : State) : Result :=
  match _hstep : loop.step state with
  | .inl result => result
  | .inr next => run next
termination_by loop.measure state
decreasing_by exact loop.decreases state next _hstep

variable {loop}

theorem run_of_result {state : State} {result : Result} (hstep : loop.step state = .inl result) :
    loop.run state = result := by
  rw [run]
  split
  next other hother => exact Sum.inl.inj (hother.symm.trans hstep)
  next other hother => cases hother.symm.trans hstep

theorem run_of_next {state next : State} (hstep : loop.step state = .inr next) :
    loop.run state = loop.run next := by
  rw [run]
  split
  next other hother => cases hother.symm.trans hstep
  next other hother => rw [Sum.inr.inj (hother.symm.trans hstep)]

/-- States the step does not tell apart run alike. -/
theorem run_eq_of_step_eq {first second : State} (hstep : loop.step first = loop.step second) :
    loop.run first = loop.run second := by
  cases hsecond : loop.step second with
  | inl result => rw [run_of_result hsecond, run_of_result (hstep.trans hsecond)]
  | inr next => rw [run_of_next hsecond, run_of_next (hstep.trans hsecond)]

/-- An invariant of the step that settles every result settles the result of a run. -/
theorem run_induction {invariant : State → Prop} {outcome : Result → Prop}
    (hnext : ∀ state next, invariant state → loop.step state = .inr next → invariant next)
    (hresult : ∀ state result, invariant state → loop.step state = .inl result → outcome result)
    {state : State} (hstate : invariant state) : outcome (loop.run state) := by
  induction hmeasure : loop.measure state using Nat.strong_induction_on generalizing state with
  | _ measure ih =>
      cases hstep : loop.step state with
      | inl result =>
          rw [run_of_result hstep]
          exact hresult state result hstate hstep
      | inr next =>
          rw [run_of_next hstep]
          exact ih _ (hmeasure ▸ loop.decreases state next hstep)
            (hnext state next hstate hstep) rfl

end Loop

end Foundation
