import Mathlib

/-!
# Windows of a list

The elements of a list from one index up to another. Consecutive windows join,
and a window grows by one element at its upper end.
-/

namespace Foundation

variable {α : Type*}

/-- The elements at the indices from `low` up to, not including, `high`. -/
def window (list : List α) (low high : Nat) : List α := (list.take high).drop low

@[simp] theorem window_self (list : List α) (index : Nat) : window list index index = [] := by
  simp [window]

@[simp] theorem window_zero_length (list : List α) : window list 0 list.length = list := by
  simp [window]

theorem window_length_eq_drop (list : List α) (low : Nat) :
    window list low list.length = list.drop low := by
  simp [window]

theorem window_zero_eq_take (list : List α) (high : Nat) :
    window list 0 high = list.take high := by
  simp [window]

theorem length_window (list : List α) (low high : Nat) :
    (window list low high).length = min high list.length - low := by
  simp [window]

/-- Consecutive windows join into one. -/
theorem window_append (list : List α) {low middle high : Nat} (hlow : low ≤ middle)
    (hhigh : middle ≤ high) :
    window list low middle ++ window list middle high = window list low high := by
  have hstart : list.take middle = (list.take high).take middle := by
    rw [List.take_take, Nat.min_eq_left hhigh]
  unfold window
  rw [hstart]
  generalize list.take high = shorter
  rw [List.drop_take]
  have hsplit := List.take_append_drop (middle - low) (shorter.drop low)
  rwa [List.drop_drop, Nat.add_sub_cancel' hlow] at hsplit

/-- A window grows by the element at its upper end. -/
theorem window_succ (list : List α) {low index : Nat} (hlow : low ≤ index)
    (hindex : index < list.length) :
    window list low (index + 1) = window list low index ++ [list[index]] := by
  rw [← window_append list hlow (Nat.le_succ index)]
  congr 1
  rw [window, List.take_succ_eq_append_getElem hindex, List.drop_append]
  simp [Nat.min_eq_left hindex.le]

/-- The window of the middle of three parts. -/
theorem window_middle (before middle after : List α) :
    window (before ++ (middle ++ after)) before.length (before.length + middle.length) =
    middle := by
  rw [window, List.take_length_add_append, List.take_left, List.drop_left]

/-- What follows an index is a window and what follows that. -/
theorem drop_eq_window_append (list : List α) {low high : Nat} (hlow : low ≤ high) :
    list.drop low = window list low high ++ list.drop high := by
  rcases Nat.le_total high list.length with hhigh | hhigh
  · rw [← window_length_eq_drop, ← window_append list hlow hhigh, window_length_eq_drop]
  · rw [List.drop_eq_nil_of_le hhigh, List.append_nil, window, List.take_of_length_le hhigh]

theorem drop_eq_cons_of_getElem? {list : List α} {index : Nat} {element : α}
    (helement : list[index]? = some element) :
    list.drop index = element :: list.drop (index + 1) := by
  obtain ⟨hindex, rfl⟩ := List.getElem?_eq_some_iff.mp helement
  exact List.drop_eq_getElem_cons hindex

end Foundation
