import Mathlib

/-!
# Lists up to order

Two lists hold the same when one is a permutation of the other, up to a relation
of their elements. What is said of every element, and what a permutation keeps,
then holds of both.
-/

namespace Foundation

/-- A permutation of the first list is, element by element, related to the second. -/
def ReorderedBy {α : Type*} (related : α → α → Prop) (first second : List α) : Prop :=
  ∃ middle, first.Perm middle ∧ List.Forall₂ related middle second

section Pointwise

variable {α β γ : Type*} {related : α → β → Prop} {first : List α} {second : List β}

theorem forall_iff_of_forall₂ {P : α → Prop} {Q : β → Prop}
    (hrelated : ∀ a b, related a b → (P a ↔ Q b)) (hlists : List.Forall₂ related first second) :
    (∀ a ∈ first, P a) ↔ ∀ b ∈ second, Q b := by
  induction hlists with
  | nil => simp
  | cons hhead _ ih => rw [List.forall_mem_cons, List.forall_mem_cons, hrelated _ _ hhead, ih]

theorem map_eq_of_forall₂ {f : α → γ} {g : β → γ} (hrelated : ∀ a b, related a b → f a = g b)
    (hlists : List.Forall₂ related first second) : first.map f = second.map g := by
  induction hlists with
  | nil => rfl
  | cons hhead _ ih => rw [List.map_cons, List.map_cons, hrelated _ _ hhead, ih]

theorem flatMap_perm_of_forall₂ {f : α → List γ} {g : β → List γ}
    (hrelated : ∀ a b, related a b → (f a).Perm (g b))
    (hlists : List.Forall₂ related first second) : (first.flatMap f).Perm (second.flatMap g) := by
  induction hlists with
  | nil => exact List.Perm.refl _
  | cons hhead _ ih =>
      rw [List.flatMap_cons, List.flatMap_cons]
      exact (hrelated _ _ hhead).append ih

end Pointwise

namespace ReorderedBy

variable {α γ : Type*} {related : α → α → Prop} {first second : List α}

theorem forall_iff (hlists : ReorderedBy related first second) {P : α → Prop}
    (hrelated : ∀ a b, related a b → (P a ↔ P b)) :
    (∀ a ∈ first, P a) ↔ ∀ a ∈ second, P a := by
  obtain ⟨middle, hperm, hpointwise⟩ := hlists
  rw [← forall_iff_of_forall₂ hrelated hpointwise]
  exact ⟨fun hall a ha => hall a (hperm.mem_iff.mpr ha),
    fun hall a ha => hall a (hperm.mem_iff.mp ha)⟩

theorem map_perm (hlists : ReorderedBy related first second) {f : α → γ}
    (hrelated : ∀ a b, related a b → f a = f b) : (first.map f).Perm (second.map f) := by
  obtain ⟨middle, hperm, hpointwise⟩ := hlists
  rw [← map_eq_of_forall₂ hrelated hpointwise]
  exact hperm.map f

theorem flatMap_perm (hlists : ReorderedBy related first second) {f : α → List γ}
    (hrelated : ∀ a b, related a b → (f a).Perm (f b)) :
    (first.flatMap f).Perm (second.flatMap f) := by
  obtain ⟨middle, hperm, hpointwise⟩ := hlists
  exact (hperm.flatMap_right f).trans (flatMap_perm_of_forall₂ hrelated hpointwise)

end ReorderedBy

end Foundation
