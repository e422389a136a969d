import Mathlib

/-!
# Lines of text

A text is lines that each end in a line feed and a last part without one. The lines
of a text are also shown without the carriage returns they end in.
-/

namespace Foundation.Lines

/-- The lines, each ended by a line feed. -/
def unlines (lines : List (List Char)) : List Char := lines.flatMap (· ++ ['\n'])

@[simp] theorem unlines_nil : unlines [] = [] := rfl

@[simp] theorem unlines_cons (line : List Char) (rest : List (List Char)) :
    unlines (line :: rest) = line ++ '\n' :: unlines rest := by
  simp [unlines]

@[simp] theorem unlines_append (first second : List (List Char)) :
    unlines (first ++ second) = unlines first ++ unlines second := by
  simp [unlines]

/-- No line feed stands within a line. -/
def Free (lines : List (List Char)) : Prop := ∀ line ∈ lines, '\n' ∉ line

theorem free_cons {line : List Char} {rest : List (List Char)} :
    Free (line :: rest) ↔ '\n' ∉ line ∧ Free rest := List.forall_mem_cons

theorem free_append {first second : List (List Char)} :
    Free (first ++ second) ↔ Free first ∧ Free second := List.forall_mem_append

theorem exists_unlines (text : List Char) :
    ∃ lines last, Free lines ∧ '\n' ∉ last ∧ text = unlines lines ++ last := by
  induction text with
  | nil => exact ⟨[], [], nofun, nofun, rfl⟩
  | cons char rest ih =>
      obtain ⟨lines, last, hfree, hlast, rfl⟩ := ih
      by_cases hchar : char = '\n'
      · exact ⟨[] :: lines, last, free_cons.mpr ⟨nofun, hfree⟩, hlast, by simp [hchar]⟩
      · cases lines with
        | nil => exact ⟨[], char :: last, hfree, by simp [Ne.symm hchar, hlast], rfl⟩
        | cons line lines =>
            obtain ⟨hline, hfree⟩ := free_cons.mp hfree
            exact ⟨(char :: line) :: lines, last,
              free_cons.mpr ⟨by simp [Ne.symm hchar, hline], hfree⟩, hlast, by simp⟩

theorem splitOn_unlines {lines : List (List Char)} {last : List Char} (hfree : Free lines)
    (hlast : '\n' ∉ last) : (unlines lines ++ last).splitOn '\n' = lines ++ [last] := by
  induction lines with
  | nil => exact List.splitOn_eq_singleton hlast
  | cons line lines ih =>
      obtain ⟨hline, hfree⟩ := free_cons.mp hfree
      rw [unlines_cons, List.append_assoc, List.cons_append,
        List.splitOn_append_cons_self_of_not_mem hline, ih hfree, List.cons_append]

/-- A beginning of lines is some of the lines and a beginning of what follows them. -/
theorem prefix_unlines {lines : List (List Char)} {last text : List Char}
    (htext : text <+: unlines lines ++ last) :
    ∃ first part, text = unlines first ++ part ∧
      ((∃ next rest, lines = first ++ next :: rest ∧ part <+: next) ∨
        lines = first ∧ part <+: last) := by
  induction lines generalizing text with
  | nil => exact ⟨[], text, rfl, Or.inr ⟨rfl, htext⟩⟩
  | cons line lines ih =>
      rw [unlines_cons, List.append_assoc, List.cons_append] at htext
      rcases List.prefix_or_prefix_of_prefix htext (List.prefix_append line _) with hwithin | hpast
      · exact ⟨[], text, rfl, Or.inl ⟨line, lines, rfl, hwithin⟩⟩
      · obtain ⟨after, rfl⟩ := hpast
        rw [List.prefix_append_right_inj] at htext
        cases after with
        | nil => exact ⟨[], line, by simp, Or.inl ⟨line, lines, rfl, List.prefix_refl line⟩⟩
        | cons char after =>
            obtain ⟨rfl, hafter⟩ := List.cons_prefix_cons.mp htext
            obtain ⟨first, part, rfl, hwhere⟩ := ih hafter
            refine ⟨line :: first, part, by simp, ?_⟩
            rcases hwhere with ⟨next, rest, rfl, hpart⟩ | ⟨rfl, hpart⟩
            · exact Or.inl ⟨next, rest, rfl, hpart⟩
            · exact Or.inr ⟨rfl, hpart⟩

/-! ## Shown lines -/

/-- The text without the carriage returns it ends in. -/
def trimCr (line : List Char) : List Char := line.rdropWhile (· = '\r')

/-- The line without one carriage return at its end. -/
def stripCr (line : List Char) : List Char :=
  if line.getLast? = some '\r' then line.dropLast else line

/-- The lines of a text. One that a line feed ends loses a carriage return before it, and
nothing after the last line feed is no line. -/
def lines (text : List Char) : List (List Char) :=
  let pieces := text.splitOn '\n'
  pieces.dropLast.map stripCr ++ (pieces.getLast?.filter (· ≠ [])).toList

/-- The lines without the carriage returns they end in. -/
def shown (text : List Char) : List (List Char) := (lines text).map trimCr

theorem trimCr_append_cr {line returns : List Char} (hreturns : ∀ char ∈ returns, char = '\r') :
    trimCr (line ++ returns) = trimCr line := by
  induction returns using List.reverseRecOn with
  | nil => rw [List.append_nil]
  | append_singleton returns char ih =>
      have hchar := hreturns char (by simp)
      rw [trimCr, ← List.append_assoc, List.rdropWhile_concat_pos _ _ _ (by simpa using hchar)]
      exact ih fun other hmem => hreturns other (List.mem_append_left _ hmem)

theorem exists_trimCr (line : List Char) :
    ∃ returns, line = trimCr line ++ returns ∧ ∀ char ∈ returns, char = '\r' := by
  refine ⟨line.rtakeWhile (· = '\r'), (List.rdropWhile_append_rtakeWhile ..).symm, ?_⟩
  intro char hmem
  simpa using List.mem_rtakeWhile_imp hmem

/-- What does not end in a carriage return stays whole in front of what is trimmed. -/
theorem trimCr_append {first second : List Char} (hfirst : first.getLast? ≠ some '\r') :
    trimCr (first ++ second) = first ++ trimCr second := by
  induction second using List.reverseRecOn with
  | nil =>
      rw [List.append_nil, trimCr, trimCr, List.rdropWhile_nil, List.append_nil,
        List.rdropWhile_eq_self_iff]
      intro hne hlast
      refine hfirst ?_
      rw [List.getLast?_eq_some_getLast hne]
      simpa using hlast
  | append_singleton second char ih =>
      rw [← List.append_assoc]
      unfold trimCr at ih ⊢
      by_cases hchar : char = '\r'
      · rw [List.rdropWhile_concat_pos _ _ _ (by simpa using hchar),
          List.rdropWhile_concat_pos _ _ _ (by simpa using hchar), ih]
      · rw [List.rdropWhile_concat_neg _ _ _ (by simpa using hchar),
          List.rdropWhile_concat_neg _ _ _ (by simpa using hchar), List.append_assoc]

theorem trimCr_stripCr (line : List Char) : trimCr (stripCr line) = trimCr line := by
  unfold stripCr
  split
  next hlast =>
    obtain ⟨front, rfl⟩ := List.getLast?_eq_some_iff.mp hlast
    rw [List.dropLast_concat, trimCr_append_cr (by simp)]
  next => rfl

theorem shown_unlines {raws : List (List Char)} {last : List Char} (hfree : Free raws)
    (hlast : '\n' ∉ last) :
    shown (unlines raws ++ last) = raws.map trimCr ++ if last = [] then [] else [trimCr last] := by
  rw [shown, lines, splitOn_unlines hfree hlast]
  simp only [List.dropLast_concat, List.getLast?_concat, List.map_append, List.map_map]
  congr 1
  · exact List.map_congr_left fun line _ => trimCr_stripCr line
  · by_cases hempty : last = [] <;> simp [hempty]

/-- Lines in front of a text are shown in front of its own. -/
theorem shown_append {raws : List (List Char)} (hfree : Free raws) (text : List Char) :
    shown (unlines raws ++ text) = raws.map trimCr ++ shown text := by
  obtain ⟨lines, last, hlines, hlast, rfl⟩ := exists_unlines text
  rw [← List.append_assoc, ← unlines_append, shown_unlines (free_append.mpr ⟨hfree, hlines⟩) hlast,
    shown_unlines hlines hlast, List.map_append, List.append_assoc]

/-- The lines of a text as they stand in it: each is followed by nothing or a line feed. -/
theorem exists_lines (text : List Char) :
    ∃ raws, Free raws ∧ shown text = raws.map trimCr ∧
      ∀ before line after, raws = before ++ line :: after →
        ∃ rest, text = unlines before ++ (line ++ rest) ∧
        (rest = [] ∨ ∃ more, rest = '\n' :: more) := by
  obtain ⟨lines, last, hfree, hlast, rfl⟩ := exists_unlines text
  by_cases hempty : last = []
  · refine ⟨lines, hfree, by rw [shown_unlines hfree hlast, if_pos hempty, List.append_nil], ?_⟩
    rintro before line after rfl
    exact ⟨'\n' :: unlines after, by simp [hempty], Or.inr ⟨_, rfl⟩⟩
  · refine ⟨lines ++ [last], free_append.mpr ⟨hfree, by simpa [Free] using hlast⟩, ?_, ?_⟩
    · rw [shown_unlines hfree hlast, if_neg hempty, List.map_append, List.map_singleton]
    · intro before line after hsplit
      cases after using List.reverseRecOn with
      | nil =>
          obtain ⟨rfl, heq⟩ := List.append_inj' hsplit rfl
          obtain ⟨rfl, -⟩ := List.cons.inj heq
          exact ⟨[], by simp, Or.inl rfl⟩
      | append_singleton after final =>
          rw [← List.cons_append, ← List.append_assoc] at hsplit
          obtain ⟨rfl, heq⟩ := List.append_inj' hsplit rfl
          obtain ⟨rfl, -⟩ := List.cons.inj heq
          exact ⟨'\n' :: (unlines after ++ last), by simp, Or.inr ⟨_, rfl⟩⟩

/-- Text in which carriage returns were put before line feeds. -/
inductive Returned : List Char → List Char → Prop
  | nil : Returned [] []
  | keep {before after : List Char} (char : Char) :
      Returned before after → Returned (char :: before) (char :: after)
  | insert {before after : List Char} :
      Returned ('\n' :: before) after → Returned ('\n' :: before) ('\r' :: after)

/-- A line and the same with carriage returns after it. -/
def Longer (line longer : List Char) : Prop :=
  ∃ returns, longer = line ++ returns ∧ ∀ char ∈ returns, char = '\r'

theorem Longer.free {line longer : List Char} (hlonger : Longer line longer) (hline : '\n' ∉ line) :
    '\n' ∉ longer := by
  obtain ⟨returns, rfl, hreturns⟩ := hlonger
  rw [List.mem_append]
  rintro (hmem | hmem)
  · exact hline hmem
  · exact absurd (hreturns _ hmem) (by decide)

/-- Returns put before line feeds stand at the ends of lines. -/
theorem Returned.lines {text returned : List Char} (hreturned : Returned text returned) :
    ∃ raws longer last, Free raws ∧ '\n' ∉ last ∧ text = unlines raws ++ last ∧
      returned = unlines longer ++ last ∧ List.Forall₂ Longer raws longer := by
  induction hreturned with
  | nil => exact ⟨[], [], [], nofun, nofun, rfl, rfl, List.Forall₂.nil⟩
  | keep char _ ih =>
      obtain ⟨raws, longer, last, hfree, hlast, rfl, rfl, hlines⟩ := ih
      by_cases hchar : char = '\n'
      · refine ⟨[] :: raws, [] :: longer, last, free_cons.mpr ⟨nofun, hfree⟩, hlast,
          by simp [hchar],
          by simp [hchar], hlines.cons ⟨[], rfl, nofun⟩⟩
      · cases hlines with
        | nil => exact ⟨[], [], char :: last, nofun, by simp [Ne.symm hchar, hlast], rfl, rfl, .nil⟩
        | @cons line other raws longer hline hlines =>
            obtain ⟨hnone, hfree⟩ := free_cons.mp hfree
            obtain ⟨returns, rfl, hreturns⟩ := hline
            refine ⟨(char :: line) :: raws, (char :: (line ++ returns)) :: longer, last,
              free_cons.mpr ⟨by simp [Ne.symm hchar, hnone], hfree⟩, hlast, by simp, by simp,
              hlines.cons ⟨returns, rfl, hreturns⟩⟩
  | insert _ ih =>
      obtain ⟨raws, longer, last, hfree, hlast, htext, rfl, hlines⟩ := ih
      cases hlines with
      | nil =>
          rw [unlines_nil, List.nil_append] at htext
          exact absurd (htext ▸ List.mem_cons_self) hlast
      | @cons line other raws longer hline hlines =>
          obtain ⟨returns, rfl, hreturns⟩ := hline
          obtain ⟨hnone, hrest⟩ := free_cons.mp hfree
          have hempty : line = [] := by
            cases line with
            | nil => rfl
            | cons first line =>
                obtain ⟨rfl, -⟩ := List.cons.inj htext
                exact absurd List.mem_cons_self hnone
          subst hempty
          refine ⟨[] :: raws, ('\r' :: returns) :: longer, last, hfree, hlast, htext, by simp,
            hlines.cons ⟨'\r' :: returns, rfl, ?_⟩⟩
          exact List.forall_mem_cons.mpr ⟨rfl, hreturns⟩

theorem trimCr_longer {raws longer : List (List Char)} (hlines : List.Forall₂ Longer raws longer)
    (hfree : Free raws) : longer.map trimCr = raws.map trimCr ∧ Free longer := by
  induction hlines with
  | nil => exact ⟨rfl, nofun⟩
  | cons hline _ ih =>
      obtain ⟨hnone, hfree⟩ := free_cons.mp hfree
      obtain ⟨hrest, hlonger⟩ := ih hfree
      refine ⟨?_, free_cons.mpr ⟨hline.free hnone, hlonger⟩⟩
      obtain ⟨returns, rfl, hreturns⟩ := hline
      rw [List.map_cons, List.map_cons, hrest, trimCr_append_cr hreturns]

/-- Returns before line feeds are not shown. -/
theorem Returned.shown_eq {text returned : List Char} (hreturned : Returned text returned) :
    shown returned = shown text := by
  obtain ⟨raws, longer, last, hfree, hlast, rfl, rfl, hlines⟩ := hreturned.lines
  obtain ⟨hsame, hlonger⟩ := trimCr_longer hlines hfree
  rw [shown_unlines hlonger hlast, shown_unlines hfree hlast, hsame]

end Foundation.Lines
