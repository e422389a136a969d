import Mathlib

/-!
# Frames

A sequence of frames is their contents in turn, each ended by a terminator that no
content holds. Every list is some frames and an unfinished rest, in one way.
-/

namespace Foundation.Frames

variable {α : Type} {terminator : α}

/-- The frames with these contents, one after the other. -/
def frames (terminator : α) (contents : List (List α)) : List α :=
  contents.flatMap (· ++ [terminator])

@[simp] theorem frames_nil : frames terminator [] = [] := rfl

@[simp] theorem frames_cons (content : List α) (rest : List (List α)) :
    frames terminator (content :: rest) = content ++ terminator :: frames terminator rest := by
  simp [frames]

@[simp] theorem frames_append (first second : List (List α)) :
    frames terminator (first ++ second) = frames terminator first ++ frames terminator second := by
  simp [frames]

/-- No content holds the terminator. -/
def Free (terminator : α)
    (contents : List (List α)) : Prop := ∀ content ∈ contents, terminator ∉ content

theorem free_nil : Free terminator [] := by
  intro content hcontent
  cases hcontent

theorem free_cons {content : List α} {rest : List (List α)} :
    Free terminator (content :: rest) ↔ terminator ∉ content ∧ Free terminator rest :=
  List.forall_mem_cons

theorem free_append {first second : List (List α)} :
    Free terminator (first ++ second) ↔ Free terminator first ∧ Free terminator second :=
  List.forall_mem_append

/-- Every list is some frames and a rest. -/
theorem exists_frames [DecidableEq α] (terminator : α) (list : List α) : ∃ contents rest,
    Free terminator contents ∧ terminator ∉ rest ∧ list = frames terminator contents ++ rest := by
  induction list with
  | nil => exact ⟨[], [], free_nil, List.not_mem_nil, rfl⟩
  | cons first list ih =>
      obtain ⟨contents, rest, hfree, hrest, rfl⟩ := ih
      by_cases hfirst : first = terminator
      · exact ⟨[] :: contents, rest, free_cons.mpr ⟨List.not_mem_nil, hfree⟩, hrest,
          by simp [hfirst]⟩
      · cases contents with
        | nil => exact ⟨[], first :: rest, hfree, by simp [Ne.symm hfirst, hrest], rfl⟩
        | cons content contents =>
            obtain ⟨hcontent, hfree⟩ := free_cons.mp hfree
            refine ⟨(first :: content) :: contents, rest, ?_, hrest, by simp⟩
            exact free_cons.mpr ⟨by simp [Ne.symm hfirst, hcontent], hfree⟩

/-- A beginning of frames is some of them, and a beginning of the next one's content. -/
theorem prefix_frames {contents : List (List α)} {cut : List α}
    (hcut : cut <+: frames terminator contents) :
    ∃ first part, cut = frames terminator first ++ part ∧
      ((∃ next rest, contents = first ++ next :: rest ∧ part <+: next) ∨
        contents = first ∧ part = []) := by
  induction contents generalizing cut with
  | nil => exact ⟨[], [], List.prefix_nil.mp hcut, Or.inr ⟨rfl, rfl⟩⟩
  | cons content contents ih =>
      rw [frames_cons] at hcut
      rcases List.prefix_or_prefix_of_prefix hcut (List.prefix_append content _) with hwithin | hpast
      · exact ⟨[], cut, rfl, Or.inl ⟨content, contents, rfl, hwithin⟩⟩
      · obtain ⟨after, rfl⟩ := hpast
        rw [List.prefix_append_right_inj] at hcut
        cases after with
        | nil =>
            exact ⟨[], content, by simp, Or.inl ⟨content, contents, rfl, List.prefix_refl content⟩⟩
        | cons element after =>
            obtain ⟨rfl, hafter⟩ := List.cons_prefix_cons.mp hcut
            obtain ⟨first, part, rfl, hwhere⟩ := ih hafter
            refine ⟨content :: first, part, by simp, ?_⟩
            rcases hwhere with ⟨next, rest, rfl, hpart⟩ | ⟨rfl, rfl⟩
            · exact Or.inl ⟨next, rest, rfl, hpart⟩
            · exact Or.inr ⟨rfl, rfl⟩

/-- There are as many terminators as frames. -/
theorem count_frames [DecidableEq α] {contents : List (List α)} (hfree : Free terminator contents) :
    (frames terminator contents).count terminator = contents.length := by
  induction contents with
  | nil => rfl
  | cons content rest ih =>
      obtain ⟨hcontent, hrest⟩ := free_cons.mp hfree
      rw [frames_cons, List.count_append, List.count_eq_zero_of_not_mem hcontent,
        List.count_cons_self, ih hrest, List.length_cons, Nat.zero_add]

/-! ## Splitting -/

section Split

variable [DecidableEq α]

/-- The pieces that each end at a terminator, and the unfinished last one. -/
def splitInclusive (terminator : α) : List α → List (List α)
  | [] => []
  | first :: rest =>
      if first = terminator then [first] :: splitInclusive terminator rest
      else
        match splitInclusive terminator rest with
        | [] => [[first]]
        | piece :: pieces => (first :: piece) :: pieces

theorem splitInclusive_content {content : List α} (hcontent : terminator ∉ content)
    (rest : List α) :
    splitInclusive terminator (content ++ terminator :: rest) =
      (content ++ [terminator]) :: splitInclusive terminator rest := by
  induction content with
  | nil => exact if_pos rfl
  | cons first content ih =>
      obtain ⟨hfirst, hcontent⟩ := not_or.mp (mt List.mem_cons.mpr hcontent)
      rw [List.cons_append, splitInclusive, if_neg (Ne.symm hfirst), ih hcontent]
      rfl

theorem splitInclusive_rest {rest : List α} (hrest : terminator ∉ rest) (hne : rest ≠ []) :
    splitInclusive terminator rest = [rest] := by
  induction rest with
  | nil => exact absurd rfl hne
  | cons first rest ih =>
      obtain ⟨hfirst, hrest⟩ := not_or.mp (mt List.mem_cons.mpr hrest)
      rw [splitInclusive, if_neg (Ne.symm hfirst)]
      by_cases hempty : rest = []
      · rw [hempty]
        rfl
      · rw [ih hrest hempty]

theorem splitInclusive_frames {contents : List (List α)} (hfree : Free terminator contents)
    (rest : List α) : splitInclusive terminator (frames terminator contents ++ rest) =
      contents.map (· ++ [terminator]) ++ splitInclusive terminator rest := by
  induction contents with
  | nil => rfl
  | cons content contents ih =>
      obtain ⟨hcontent, hfree⟩ := free_cons.mp hfree
      rw [frames_cons, List.append_assoc, List.cons_append, splitInclusive_content hcontent,
        ih hfree]
      rfl

end Split

end Foundation.Frames
