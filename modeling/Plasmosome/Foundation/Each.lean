import Plasmosome.Foundation.Checks

/-!
# Reading every element

When a fallible reading of every element of a list succeeds, and with what.
-/

namespace Foundation

variable {ε α β : Type} {read : α → Except ε β} {list : List α} {values : List β}

theorem mapM_eq_ok :
    list.mapM read = .ok values ↔
      List.Forall₂ (fun element value => read element = .ok value) list values := by
  induction list generalizing values with
  | nil =>
      rw [List.forall₂_nil_left_iff]
      constructor
      · intro hvalues
        cases hvalues
        rfl
      · rintro rfl
        rfl
  | cons head tail ih =>
      rw [List.mapM_cons, bind_eq_ok, List.forall₂_cons_left_iff]
      constructor
      · rintro ⟨value, hhead, htail⟩
        obtain ⟨rest, hrest, hvalues⟩ := bind_eq_ok.mp htail
        cases hvalues
        exact ⟨value, rest, hhead, ih.mp hrest, rfl⟩
      · rintro ⟨value, rest, hhead, hrest, rfl⟩
        exact ⟨value, hhead, bind_eq_ok.mpr ⟨rest, ih.mpr hrest, rfl⟩⟩

/-- A reading of every element, when each succeeds under a condition and with a known value. -/
theorem mapM_eq_ok_iff {value : α → β} {fit : α → Prop}
    (hread : ∀ a b, read a = .ok b ↔ fit a ∧ b = value a) :
    list.mapM read = .ok values ↔ (∀ a ∈ list, fit a) ∧ values = list.map value := by
  have hvalues : List.Forall₂ (fun a b => b = value a) list values ↔ values = list.map value := by
    have hmapped : List.Forall₂ (· = ·) (list.map value) values ↔ list.map value = values := by
      rw [List.forall₂_eq_eq_eq]
    rw [eq_comm, ← hmapped, List.forall₂_map_left_iff]
    simp only [eq_comm]
  rw [mapM_eq_ok, ← hvalues, ← List.forall₂_and_left]
  simp only [hread]

theorem mapM_eq_map {value : α → β} (hread : ∀ a ∈ list, read a = .ok (value a)) :
    list.mapM read = .ok (list.map value) :=
  mapM_eq_ok.mpr (List.forall₂_map_right_iff.mpr (List.forall₂_same.mpr hread))

end Foundation
