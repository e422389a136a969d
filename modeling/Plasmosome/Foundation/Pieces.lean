import Mathlib

/-!
# Lists cut at a separator

The pieces between the separators of a list, the pieces each with a separator
before it, and the cut at the last separator.
-/

namespace Foundation.Pieces

variable {α : Type*} {separator : α}

/-- The pieces, each with the separator before it. -/
def led (separator : α) (pieces : List (List α)) : List α :=
  pieces.flatMap (separator :: ·)

@[simp] theorem led_nil : led separator ([] : List (List α)) = [] := rfl

@[simp] theorem led_cons (piece : List α) (rest : List (List α)) :
    led separator (piece :: rest) = separator :: piece ++ led separator rest := by
  simp [led]

@[simp] theorem led_append (first second : List (List α)) :
    led separator (first ++ second) = led separator first ++ led separator second := by
  simp [led]

variable [DecidableEq α]

theorem splitOn_cons_self (rest : List α) :
    (separator :: rest).splitOn separator = [] :: rest.splitOn separator := by
  simp [List.splitOn_cons_eq_if_modifyHead]

theorem splitOn_cons_ne {char : α} (hchar : char ≠ separator) (rest : List α) :
    (char :: rest).splitOn separator = (rest.splitOn separator).modifyHead (char :: ·) := by
  simp [List.splitOn_cons_eq_if_modifyHead, hchar]

theorem exists_splitOn (separator : α) (text : List α) :
    ∃ head tail, text.splitOn separator = head :: tail :=
  List.exists_cons_of_ne_nil (List.splitOn_ne_nil separator text)

/-- Putting the separators back gives the text, after one more separator. -/
theorem led_splitOn (text : List α) :
    led separator (text.splitOn separator) = separator :: text := by
  induction text with
  | nil => simp [led]
  | cons char rest ih =>
      by_cases hchar : char = separator
      · rw [hchar, splitOn_cons_self, led_cons, ih]
        rfl
      · obtain ⟨head, tail, hsplit⟩ := exists_splitOn separator rest
        rw [hsplit, led_cons, List.cons_append, List.cons.injEq] at ih
        rw [splitOn_cons_ne hchar, hsplit, List.modifyHead_cons, led_cons]
        rw [List.cons_append, List.cons_append, ih.2]

/-- Pieces without a separator are what a split gives back. -/
theorem splitOn_led {head : List α} {tail : List (List α)}
    (hfree : ∀ piece ∈ head :: tail, separator ∉ piece) :
    (head ++ led separator tail).splitOn separator = head :: tail := by
  induction tail generalizing head with
  | nil =>
      rw [led_nil, List.append_nil]
      exact List.splitOn_eq_singleton (hfree head List.mem_cons_self)
  | cons next rest ih =>
      rw [led_cons, List.cons_append,
        List.splitOn_append_cons_self_of_not_mem (hfree head List.mem_cons_self),
        ih fun piece hpiece => hfree piece (List.mem_cons_of_mem _ hpiece)]

theorem not_mem_of_mem_splitOn {text piece : List α} (hpiece : piece ∈ text.splitOn separator) :
    separator ∉ piece := by
  induction text generalizing piece with
  | nil =>
      rw [List.splitOn_nil, List.mem_singleton] at hpiece
      rw [hpiece]
      exact List.not_mem_nil
  | cons char rest ih =>
      by_cases hchar : char = separator
      · rw [hchar, splitOn_cons_self] at hpiece
        rcases List.mem_cons.mp hpiece with rfl | hpiece
        · exact List.not_mem_nil
        · exact ih hpiece
      · obtain ⟨head, tail, hsplit⟩ := exists_splitOn separator rest
        rw [splitOn_cons_ne hchar, hsplit, List.modifyHead_cons] at hpiece
        rcases List.mem_cons.mp hpiece with rfl | hpiece
        · intro hmem
          rcases List.mem_cons.mp hmem with rfl | hmem
          · exact hchar rfl
          · exact ih (hsplit ▸ List.mem_cons_self) hmem
        · exact ih (hsplit ▸ List.mem_cons_of_mem _ hpiece)

/-- A piece after the first is empty exactly when two separators meet or one ends the text. -/
theorem nil_mem_tail_splitOn {text : List α} : [] ∈ (text.splitOn separator).tail ↔
    text.getLast? = some separator ∨ [separator, separator] <:+: text := by
  induction text with
  | nil => simp
  | cons char rest ih =>
      by_cases hchar : char = separator
      · subst hchar
        rw [splitOn_cons_self, List.tail_cons, List.infix_cons_iff]
        cases rest with
        | nil => simp
        | cons next others =>
            obtain ⟨head, tail, hsplit⟩ := exists_splitOn char (next :: others)
            have hhead : [] = head ↔ next = char := by
              by_cases hnext : next = char
              · rw [hnext, splitOn_cons_self] at hsplit
                cases hsplit
                simp [hnext]
              · obtain ⟨first, others', hrest⟩ := exists_splitOn char others
                rw [splitOn_cons_ne hnext, hrest, List.modifyHead_cons] at hsplit
                cases hsplit
                simp [hnext]
            rw [hsplit, List.tail_cons] at ih
            rw [hsplit, List.mem_cons, hhead, ih]
            simp only [List.getLast?_cons_cons, List.cons_prefix_cons, List.nil_prefix, and_true,
              true_and]
            constructor
            · rintro (hnext | hlast | hmeet)
              · exact Or.inr (Or.inl hnext.symm)
              · exact Or.inl hlast
              · exact Or.inr (Or.inr hmeet)
            · rintro (hlast | hnext | hmeet)
              · exact Or.inr (Or.inl hlast)
              · exact Or.inl hnext.symm
              · exact Or.inr (Or.inr hmeet)
      · obtain ⟨head, tail, hsplit⟩ := exists_splitOn separator rest
        rw [splitOn_cons_ne hchar, hsplit, List.modifyHead_cons, List.tail_cons]
        rw [hsplit, List.tail_cons] at ih
        rw [ih, List.infix_cons_iff]
        have hstart : ¬[separator, separator] <+: char :: rest := by
          intro hstart
          exact hchar (List.cons_prefix_cons.mp hstart).1.symm
        cases rest with
        | nil => simp [hchar]
        | cons next others => simp [hstart]

/-- The text before the first separator, and the text after it. -/
def splitOnce (separator : α) : List α → Option (List α × List α)
  | [] => none
  | char :: rest =>
      if char = separator then some ([], rest)
      else (splitOnce separator rest).map fun (before, after) => (char :: before, after)

theorem splitOnce_append {before : List α} (hfree : separator ∉ before) (after : List α) :
    splitOnce separator (before ++ separator :: after) = some (before, after) := by
  induction before with
  | nil => rw [List.nil_append, splitOnce, if_pos rfl]
  | cons char rest ih =>
      have hchar := Ne.symm (List.ne_of_not_mem_cons hfree)
      have hrest := List.not_mem_of_not_mem_cons hfree
      rw [List.cons_append, splitOnce, if_neg hchar, ih hrest, Option.map_some]

theorem splitOnce_eq_some {text before after : List α}
    (hsplit : splitOnce separator text = some (before, after)) :
    text = before ++ separator :: after := by
  induction text generalizing before with
  | nil => cases hsplit
  | cons char rest ih =>
      rw [splitOnce] at hsplit
      split at hsplit
      next hchar =>
        cases hsplit
        rw [hchar, List.nil_append]
      next =>
        obtain ⟨⟨before, after⟩, hrest, heq⟩ := Option.map_eq_some_iff.mp hsplit
        cases heq
        rw [List.cons_append, ← ih hrest]

/-- The text before the last separator, and the text after it. -/
def rsplitOnce (separator : α) : List α → Option (List α × List α)
  | [] => none
  | char :: rest =>
      match rsplitOnce separator rest with
      | some (before, after) => some (char :: before, after)
      | none => if char = separator then some ([], rest) else none

theorem rsplitOnce_none {text : List α} (hfree : separator ∉ text) :
    rsplitOnce separator text = none := by
  induction text with
  | nil => rfl
  | cons char rest ih =>
      have hchar : char ≠ separator := by
        rintro rfl
        exact hfree List.mem_cons_self
      rw [rsplitOnce, ih fun hrest => hfree (List.mem_cons_of_mem _ hrest), if_neg hchar]

theorem rsplitOnce_append (before : List α) {after : List α} (hfree : separator ∉ after) :
    rsplitOnce separator (before ++ separator :: after) = some (before, after) := by
  induction before with
  | nil => rw [List.nil_append, rsplitOnce, rsplitOnce_none hfree, if_pos rfl]
  | cons char rest ih => rw [List.cons_append, rsplitOnce, ih]

end Foundation.Pieces
