import Mathlib

/-!
# Deterministic machines with outputs

A machine answers each input with an output and a next state. Invariants and
simulations proved for one step hold over every finite list of inputs.
-/

namespace Foundation

universe u v w

/-- One step of a machine: the output and the state after it. -/
structure Machine (State : Type u) (Input : Type v) (Output : Type w) where
  step : State → Input → Output × State

namespace Machine

variable {State State' : Type u} {Input : Type v} {Output : Type w}

/-- The state after a list of inputs. -/
def final (machine : Machine State Input Output) : State → List Input → State
  | state, [] => state
  | state, input :: rest => machine.final (machine.step state input).2 rest

/-- The outputs of a list of inputs, in order. -/
def outputs (machine : Machine State Input Output) : State → List Input → List Output
  | _, [] => []
  | state, input :: rest =>
      (machine.step state input).1 :: machine.outputs (machine.step state input).2 rest

@[simp] theorem final_nil (machine : Machine State Input Output) (state : State) :
    machine.final state [] = state := rfl

@[simp] theorem final_cons (machine : Machine State Input Output) (state : State)
    (input : Input) (rest : List Input) :
    machine.final state (input :: rest) = machine.final (machine.step state input).2 rest := rfl

@[simp] theorem outputs_nil (machine : Machine State Input Output) (state : State) :
    machine.outputs state [] = [] := rfl

@[simp] theorem outputs_cons (machine : Machine State Input Output) (state : State)
    (input : Input) (rest : List Input) :
    machine.outputs state (input :: rest) =
      (machine.step state input).1 :: machine.outputs (machine.step state input).2 rest := rfl

theorem final_append (machine : Machine State Input Output) (state : State)
    (first second : List Input) :
    machine.final state (first ++ second) =
      machine.final (machine.final state first) second := by
  induction first generalizing state with
  | nil => rfl
  | cons input rest ih => exact ih (machine.step state input).2

theorem final_concat (machine : Machine State Input Output) (state : State)
    (inputs : List Input) (input : Input) :
    machine.final state (inputs ++ [input]) =
      (machine.step (machine.final state inputs) input).2 := by
  rw [final_append]
  rfl

theorem outputs_append (machine : Machine State Input Output) (state : State)
    (first second : List Input) :
    machine.outputs state (first ++ second) =
      machine.outputs state first ++ machine.outputs (machine.final state first) second := by
  induction first generalizing state with
  | nil => rfl
  | cons input rest ih =>
      rw [List.cons_append, outputs_cons, ih]
      rfl

/-- A predicate preserved by every step holds after every list of inputs. -/
theorem final_invariant (machine : Machine State Input Output) {invariant : State → Prop}
    (hstep : ∀ state input, invariant state → invariant (machine.step state input).2)
    {state : State} (hstate : invariant state) (inputs : List Input) :
    invariant (machine.final state inputs) := by
  induction inputs generalizing state with
  | nil => exact hstate
  | cons input rest ih => exact ih (hstep state input hstate)

/-- Every output of a run satisfies what each step from an invariant state promises. -/
theorem outputs_forall (machine : Machine State Input Output) {invariant : State → Prop}
    {promise : Output → Prop}
    (hstep : ∀ state input, invariant state →
      promise (machine.step state input).1 ∧ invariant (machine.step state input).2)
    {state : State} (hstate : invariant state) (inputs : List Input) :
    ∀ output ∈ machine.outputs state inputs, promise output := by
  induction inputs generalizing state with
  | nil =>
      intro output houtput
      cases houtput
  | cons input rest ih =>
      obtain ⟨hpromise, hnext⟩ := hstep state input hstate
      intro output houtput
      rcases List.mem_cons.mp houtput with rfl | hrest
      · exact hpromise
      · exact ih hnext output hrest

/-- The inputs of a run, each with its output. -/
def transcript (machine : Machine State Input Output) :
    State → List Input → List (Input × Output)
  | _, [] => []
  | state, input :: rest =>
      (input, (machine.step state input).1) ::
        machine.transcript (machine.step state input).2 rest

/-- What each step preserves of the state and the transcript so far holds after every run. -/
theorem transcript_invariant (machine : Machine State Input Output)
    {invariant : State → List (Input × Output) → Prop}
    (hstep : ∀ state past input, invariant state past →
      invariant (machine.step state input).2 (past ++ [(input, (machine.step state input).1)]))
    {state : State} {past : List (Input × Output)} (hstate : invariant state past)
    (inputs : List Input) :
    invariant (machine.final state inputs) (past ++ machine.transcript state inputs) := by
  induction inputs generalizing state past with
  | nil => simpa [transcript] using hstate
  | cons input rest ih => simpa [transcript] using ih (hstep state past input hstate)

/-- Related machines answer related inputs alike and stay related. -/
def Simulates (left : Machine State Input Output) (right : Machine State' Input Output)
    (related : State → State' → Prop) : Prop :=
  ∀ state state' input, related state state' →
    (left.step state input).1 = (right.step state' input).1 ∧
      related (left.step state input).2 (right.step state' input).2

theorem Simulates.outputs_eq {left : Machine State Input Output}
    {right : Machine State' Input Output} {related : State → State' → Prop}
    (hstep : left.Simulates right related) {state : State} {state' : State'}
    (hstate : related state state') (inputs : List Input) :
    left.outputs state inputs = right.outputs state' inputs := by
  induction inputs generalizing state state' with
  | nil => rfl
  | cons input rest ih =>
      obtain ⟨houtput, hnext⟩ := hstep state state' input hstate
      rw [outputs_cons, outputs_cons, houtput, ih hnext]

end Machine

end Foundation
