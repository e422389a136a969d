import Mathlib

/-!
# Sequences of checks

When a chain of fallible steps succeeds: each step succeeds, with the value the
next one reads.
-/

namespace Foundation

theorem bind_eq_ok {ε α β : Type} {first : Except ε α} {next : α → Except ε β}
    {value : β} : (first >>= next) = .ok value ↔ ∃ a, first = .ok a ∧ next a = .ok value := by
  cases first with
  | error _ => exact ⟨fun h => (nomatch h), fun ⟨_, h, _⟩ => (nomatch h)⟩
  | ok a => exact ⟨fun h => ⟨a, rfl, h⟩, fun ⟨_, hfirst, hnext⟩ => Except.ok.inj hfirst ▸ hnext⟩

@[simp] theorem check_bind_eq_ok {ε β : Type} {first : Except ε Unit}
    {next : Unit → Except ε β} {value : β} :
    (first >>= next) = .ok value ↔ first = .ok () ∧ next () = .ok value := by
  rw [bind_eq_ok]
  exact ⟨fun ⟨(), h⟩ => h, fun h => ⟨(), h⟩⟩

@[simp] theorem mapError_eq_ok {ε ε' α : Type} {checked : Except ε α} {wrap : ε → ε'} {value : α} :
    checked.mapError wrap = .ok value ↔ checked = .ok value := by
  cases checked <;> simp [Except.mapError]

@[simp] theorem refuse_unless_eq_ok {ε : Type} {condition : Prop} [Decidable condition]
    {error : ε} : (if condition then Except.error error else .ok ()) = .ok () ↔ ¬ condition := by
  split <;> simp_all

/-- A check of every element succeeds exactly when it succeeds on each. -/
theorem forM_eq_ok {ε α : Type} {check : α → Except ε Unit} {list : List α} :
    list.forM check = .ok () ↔ ∀ a ∈ list, check a = .ok () := by
  induction list with
  | nil => simp [pure, Except.pure]
  | cons head tail ih =>
      simp only [List.forM_eq_forM] at ih ⊢
      rw [List.forM_cons, check_bind_eq_ok, ih, List.forall_mem_cons]

end Foundation
