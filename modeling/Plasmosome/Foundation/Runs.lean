import Plasmosome.Foundation.Interaction

/-!
# The runs of a program

What a program came to in some world, after some past. A promise of the program is
kept by each of its runs. What a program looks up or puts down is its memory.
-/

namespace Foundation.Program

variable {interface : Interface} {Memory ε α β : Type} {program : Program interface Memory ε α}
variable {memory left : Memory} {outcome : Outcome ε α} {events : List interface.Event}

def Ran (program : Program interface Memory ε α) (memory : Memory) (outcome : Outcome ε α)
    (left : Memory) (events : List interface.Event) : Prop :=
  ∃ world past, program world memory past = ⟨outcome, left, events⟩

theorem ensures_ran (program : Program interface Memory ε α) (memory : Memory) :
    program.Ensures memory (program.Ran memory) :=
  fun world past => ⟨world, past, rfl⟩

theorem Ran.keeps {post : Outcome ε α → Memory → List interface.Event → Prop}
    (hran : program.Ran memory outcome left events) (hprogram : program.Ensures memory post) :
    post outcome left events := by
  obtain ⟨world, past, hrun⟩ := hran
  have hpost := hprogram world past
  rwa [hrun] at hpost

/-- What two proofs say of one run holds together. -/
theorem Ensures.both {first second : Outcome ε α → Memory → List interface.Event → Prop}
    (hfirst : program.Ensures memory first) (hsecond : program.Ensures memory second) :
    program.Ensures memory fun outcome left events =>
      first outcome left events ∧ second outcome left events :=
  fun world past => ⟨hfirst world past, hsecond world past⟩

/-! ## Memory -/

section Memory

variable {kept : Memory} {post : Outcome ε β → Memory → List interface.Event → Prop}

theorem ensures_get_bind {next : Memory → Program interface Memory ε β}
    (hnext : (next memory).Ensures memory post) : (get >>= next).Ensures memory post :=
  fun world past => hnext world (past ++ [])

theorem ensures_set_bind {next : Unit → Program interface Memory ε β}
    (hnext : (next ()).Ensures kept post) : (set kept >>= next).Ensures memory post :=
  fun world past => hnext world (past ++ [])

end Memory

/-! ## Programs whose events are all of one kind -/

section Only

variable {ε' σ : Type} {kind : interface.Event → Prop}

end Only

end Foundation.Program
