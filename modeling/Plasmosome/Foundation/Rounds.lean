import Plasmosome.Foundation.Interaction

/-!
# Loops that run out of rounds

A loop is still running after its rounds only when every round did something that
is counted.
-/

namespace Foundation.Program

variable {interface : Interface} {Memory ε α σ : Type}

/-- What the events of a run weigh together. -/
def weigh (weight : interface.Event → Nat) (events : List interface.Event) : Nat :=
  (events.map weight).sum

variable {weight : interface.Event → Nat}

@[simp] theorem weigh_nil : weigh weight [] = 0 := rfl

@[simp] theorem weigh_cons (event : interface.Event) (events : List interface.Event) :
    weigh weight (event :: events) = weight event + weigh weight events := rfl

@[simp] theorem weigh_append (first second : List interface.Event) :
    weigh weight (first ++ second) = weigh weight first + weigh weight second := by
  rw [weigh, List.map_append, List.sum_append]
  rfl

/-- When each round that goes on weighs something, and a round that is still running weighs as
much as the rounds, then so does the loop. -/
theorem rounds_running {body : σ → Program interface Memory ε (σ ⊕ α)} {bound : Nat}
    (hbody : ∀ state memory, (body state).Ensures memory fun outcome _ events =>
      match outcome with
      | .ok (.inl _) => 1 ≤ weigh weight events
      | .stop .running => bound ≤ weigh weight events
      | _ => True)
    {count : Nat} (hcount : count ≤ bound) (state : σ) (memory : Memory) :
    (rounds body count state).Ensures memory fun outcome _ events =>
      outcome = .stop .running → count ≤ weigh weight events := by
  induction count generalizing state memory with
  | zero => exact fun _ _ _ => Nat.zero_le _
  | succ count ih =>
      rw [rounds]
      refine ensures_bind (hbody state memory) ?_ ?_
      · intro next left events hnext
        cases next with
        | inl next =>
            refine (ih (by omega) next left).mono fun outcome later more hmore hrunning => ?_
            have hevents : 1 ≤ weigh weight events := hnext
            have hrest := hmore hrunning
            rw [weigh_append]
            omega
        | inr result => exact ensures_pure fun hrunning => by cases hrunning
      · rintro stop left events hstop hrunning
        cases hrunning
        exact hcount.trans hstop

end Foundation.Program
