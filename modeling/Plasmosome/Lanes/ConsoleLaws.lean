import Plasmosome.Foundation.Windows
import Plasmosome.Lanes.Console
import Plasmosome.Runtime.LoadedImages

/-!
# Whole transcripts

A finished run was framed by whole lines: a begin marker, one result line for each
probe, and an end marker that names the run and the count. A transcript cut before
the end of that marker is no run, and what is written around the frame changes nothing.
-/

namespace Plasmosome.Lanes.Console

open Foundation
open Foundation.Lines (unlines Free shown trimCr)
open Plasmosome.Runtime (stripPrefix stripPrefix_eq_some)

/-- The line that ends a run of so many results. -/
def endLine (runId : List Char) (count : Nat) : List Char :=
  END ++ ' ' :: (runId ++ ' ' :: decimal count)

/-- A line that opens a run. -/
def Opens (line : List Char) : Prop := BEGIN ++ [' '] <+: line

/-! ## Markers -/

theorem trimCr_marker {marker : List Char} (rest : List Char) :
    trimCr ((marker ++ [' ']) ++ rest) = (marker ++ [' ']) ++ trimCr rest := by
  apply Lines.trimCr_append
  rw [List.getLast?_concat]
  decide

/-- A line starts with a marker exactly when what is shown of it does. -/
theorem marker_prefix_trimCr {marker line : List Char} :
    marker ++ [' '] <+: trimCr line ↔ marker ++ [' '] <+: line := by
  constructor
  · intro hstarts
    obtain ⟨returns, hline, -⟩ := Lines.exists_trimCr line
    rw [hline]
    exact hstarts.trans (List.prefix_append _ _)
  · rintro ⟨rest, rfl⟩
    rw [trimCr_marker]
    exact List.prefix_append _ _

theorem end_not_result (line : List Char) :
    ¬ (END ++ [' '] <+: line ∧ RESULT ++ [' '] <+: line) := by
  rintro ⟨hend, hresult⟩
  have hshorter := List.prefix_of_prefix_length_le hend hresult (by decide)
  exact absurd hshorter (by decide)

section Reader

variable {reader : List Char → Except (List Char) ProbeResult} {runId : List Char}

/-! ## Between the markers -/

/-- A shown line writes a result: an object, or nothing. -/
def Writes (reader : List Char → Except (List Char) ProbeResult) (line : List Char)
    (result : ProbeResult) : Prop :=
  (∃ json, line = (RESULT ++ [' ']) ++ json ∧ reader json = .ok result) ∧
    ∀ value, result.result = some value → isObject value = true

theorem collect_end {results : List ProbeResult} {rest : List (List Char)} :
    collect reader runId results (endLine runId results.length :: rest) = .ok results := by
  have hstrip : stripPrefix (END ++ [' ']) (endLine runId results.length) =
      some (runId ++ ' ' :: decimal results.length) := by
    rw [stripPrefix_eq_some, endLine, List.append_assoc, List.singleton_append]
  simp only [collect, hstrip, if_true]

theorem collect_writes {results more : List ProbeResult} {lines : List (List Char)}
    (hlines : List.Forall₂ (Writes reader) lines more) (rest : List (List Char)) :
    collect reader runId results (lines ++ rest) = collect reader runId (results ++ more) rest := by
  induction hlines generalizing results with
  | nil => rw [List.nil_append, List.append_nil]
  | @cons line result lines more hline _ ih =>
      obtain ⟨⟨json, hjson, hread⟩, hobject⟩ := hline
      have hnone : stripPrefix (END ++ [' ']) line = none := by
        rw [Option.eq_none_iff_forall_ne_some]
        intro after hafter
        rw [stripPrefix_eq_some] at hafter
        exact end_not_result line ⟨⟨after, hafter.symm⟩, ⟨json, hjson.symm⟩⟩
      have hsome := stripPrefix_eq_some.mpr hjson
      have hplain : (result.result.any fun value => !isObject value) = false := by
        cases hvalue : result.result with
        | none => rfl
        | some value => simp [hobject value hvalue]
      rw [List.cons_append, collect, hnone]
      simp only [hsome, hread, hplain, Bool.false_eq_true, if_false]
      rw [ih, List.append_assoc, List.singleton_append]

/-- Results are collected from lines that write them and the end marker after those. -/
theorem collect_eq_ok {lines : List (List Char)} {before results : List ProbeResult}
    (hcollect : collect reader runId before lines = .ok results) :
    ∃ written more rest, lines = written ++ endLine runId results.length :: rest ∧
      List.Forall₂ (Writes reader) written more ∧ results = before ++ more := by
  induction lines generalizing before with
  | nil => cases hcollect
  | cons line lines ih =>
      rw [collect] at hcollect
      split at hcollect
      next rest hend =>
        split at hcollect
        next hsame =>
          cases hcollect
          rw [stripPrefix_eq_some, hsame] at hend
          refine ⟨[], [], lines, ?_, List.Forall₂.nil, (List.append_nil _).symm⟩
          rw [hend, endLine, List.append_assoc, List.singleton_append, List.nil_append]
        next => cases hcollect
      next =>
        split at hcollect
        next => cases hcollect
        next json hjson =>
          split at hcollect
          next => cases hcollect
          next parsed hread =>
            split at hcollect
            next => cases hcollect
            next hplain =>
              obtain ⟨written, more, rest, rfl, hwritten, rfl⟩ := ih hcollect
              have hline : Writes reader line parsed := by
                refine ⟨⟨json, stripPrefix_eq_some.mp hjson, hread⟩, ?_⟩
                intro value hvalue
                rw [hvalue] at hplain
                simpa using hplain
              exact ⟨line :: written, parsed :: more, rest, rfl, hwritten.cons hline, by simp⟩

/-! ## Around the markers -/

/-- Shown lines that open no run are passed over. -/
theorem dropWhile_unopened {lines : List (List Char)} (hlines : ∀ line ∈ lines, ¬ Opens line)
    (rest : List (List Char)) :
    ((lines.map trimCr ++ rest).dropWhile fun line => !(BEGIN ++ [' ']).isPrefixOf line) =
      rest.dropWhile fun line => !(BEGIN ++ [' ']).isPrefixOf line := by
  apply List.dropWhile_append_of_pos
  intro line hmem
  obtain ⟨raw, hraw, rfl⟩ := List.mem_map.mp hmem
  have hclosed : ¬ BEGIN ++ [' '] <+: trimCr raw := fun hopens =>
    hlines raw hraw (marker_prefix_trimCr.mp hopens)
  rw [Bool.not_eq_true', Bool.eq_false_iff]
  exact fun hopens => hclosed (List.isPrefixOf_iff_prefix.mp hopens)

theorem framed_congr {text other : List Char}
    (hshown : ((shown text).dropWhile fun line => !(BEGIN ++ [' ']).isPrefixOf line) =
      (shown other).dropWhile fun line => !(BEGIN ++ [' ']).isPrefixOf line) :
    framed reader text runId = framed reader other runId := by
  simp only [framed, hshown]

/-- A text whose lines open no run is not framed. -/
theorem framed_unopened {text : List Char} {lines : List (List Char)}
    (hshown : shown text = lines.map trimCr) (hlines : ∀ line ∈ lines, ¬ Opens line)
    (results : List ProbeResult) : framed reader text runId ≠ .ok results := by
  have hdrop := dropWhile_unopened hlines []
  rw [List.append_nil] at hdrop
  simp only [framed, hshown, hdrop]
  nofun

/-- After lines that open no run and one that opens this one, results are collected. -/
theorem framed_opened {text opening : List Char} {before : List (List Char)}
    {rest : List (List Char)}
    (hshown : shown text = before.map trimCr ++ trimCr opening :: rest)
    (hbefore : ∀ line ∈ before, ¬ Opens line) (hopening : Opens opening) :
    framed reader text runId =
      if trimCr opening = (BEGIN ++ [' ']) ++ runId then collect reader runId [] rest
      else .error (BEGIN ++ " names run ".toList ++
        quoted ((trimCr opening).drop (BEGIN ++ [' ']).length) ++ ", not the configured ".toList ++
          quoted runId) := by
  obtain ⟨opened, hopened⟩ := marker_prefix_trimCr.mpr hopening
  have hstop : (!(BEGIN ++ [' ']).isPrefixOf (trimCr opening)) = false := by
    rw [Bool.not_eq_false', List.isPrefixOf_iff_prefix]
    exact ⟨opened, hopened⟩
  simp only [framed, hshown]
  rw [dropWhile_unopened hbefore, List.dropWhile_cons_of_neg (by simp [hstop])]
  simp only [← hopened, List.drop_left, List.append_cancel_left_eq]
  by_cases hsame : opened = runId <;> simp [hsame]

/-- The lines of a framed run, as they stand in the text: the end marker is not among them. -/
structure Framed (reader : List Char → Except (List Char) ProbeResult) (runId : List Char)
    (before : List (List Char)) (opening : List Char) (written : List (List Char))
    (results : List ProbeResult) : Prop where
  before_lines : Free before
  opening_line : '\n' ∉ opening
  written_lines : Free written
  unopened : ∀ line ∈ before, ¬ Opens line
  opening_eq : trimCr opening = (BEGIN ++ [' ']) ++ runId
  writes : List.Forall₂ (fun line result => Writes reader (trimCr line) result) written results

variable {before written : List (List Char)} {opening text : List Char} {results : List ProbeResult}

theorem Framed.opens (hframed : Framed reader runId before opening written results) :
    Opens opening :=
  marker_prefix_trimCr.mp ⟨runId, hframed.opening_eq.symm⟩

theorem Framed.lines (hframed : Framed reader runId before opening written results) :
    Free (before ++ opening :: written) :=
  Lines.free_append.mpr ⟨hframed.before_lines,
    Lines.free_cons.mpr ⟨hframed.opening_line, hframed.written_lines⟩⟩

theorem forall₂_append_left {α β : Type*} {related : α → β → Prop} {first second : List α}
    {values : List β} (hall : List.Forall₂ related (first ++ second) values) :
    ∃ front rest, values = front ++ rest ∧ List.Forall₂ related first front ∧
      List.Forall₂ related second rest := by
  induction first generalizing values with
  | nil => exact ⟨[], values, rfl, List.Forall₂.nil, hall⟩
  | cons head first ih =>
      cases hall with
      | cons hhead hall =>
          obtain ⟨front, rest, rfl, hfront, hrest⟩ := ih hall
          exact ⟨_ :: front, rest, rfl, hfront.cons hhead, hrest⟩

theorem writes_map (hwrites : List.Forall₂ (fun line result => Writes reader (trimCr line) result)
    written results) : List.Forall₂ (Writes reader) (written.map trimCr) results := by
  rwa [List.forall₂_map_left_iff]

/-- Whatever ends the lines of a framed run, what comes after its end marker is not read. -/
theorem framed_of_lines (hframed : Framed reader runId before opening written results)
    {rest : List (List Char)}
    (hshown : shown text = before.map trimCr ++ trimCr opening ::
      (written.map trimCr ++ endLine runId results.length :: rest)) :
    framed reader text runId = .ok results := by
  rw [framed_opened hshown hframed.unopened hframed.opens, if_pos hframed.opening_eq,
    collect_writes (writes_map hframed.writes), List.nil_append, collect_end]

theorem exists_first {lines : List (List Char)} (hsome : ¬ ∀ line ∈ lines, ¬ Opens line) :
    ∃ before opening rest, lines = before ++ opening :: rest ∧ (∀ line ∈ before, ¬ Opens line) ∧
      Opens opening := by
  induction lines with
  | nil => exact absurd (fun _ hmem => nomatch hmem) hsome
  | cons line lines ih =>
      by_cases hopens : Opens line
      · exact ⟨[], line, lines, rfl, nofun, hopens⟩
      · have hrest : ¬ ∀ line ∈ lines, ¬ Opens line := fun hall =>
          hsome (List.forall_mem_cons.mpr ⟨hopens, hall⟩)
        obtain ⟨before, opening, rest, rfl, hbefore, hopening⟩ := ih hrest
        exact ⟨line :: before, opening, rest, rfl, List.forall_mem_cons.mpr ⟨hopens, hbefore⟩,
          hopening⟩

/-- A framed run stands in the text as whole lines. -/
theorem framed_eq_ok (hok : framed reader text runId = .ok results) :
    ∃ before opening written returns rest, Framed reader runId before opening written results ∧
      text = unlines (before ++ opening :: written) ++
        (endLine runId results.length ++ (returns ++ rest)) ∧
      (∀ char ∈ returns, char = '\r') ∧ '\n' ∉ endLine runId results.length ∧
      trimCr (endLine runId results.length) = endLine runId results.length ∧
      (rest = [] ∨ ∃ more, rest = '\n' :: more) := by
  obtain ⟨raws, hfree, hshown, hcut⟩ := Lines.exists_lines text
  by_cases hnone : ∀ line ∈ raws, ¬ Opens line
  · exact absurd hok (framed_unopened hshown hnone results)
  obtain ⟨before, opening, after, rfl, hbefore, hopening⟩ := exists_first hnone
  rw [List.map_append, List.map_cons] at hshown
  rw [framed_opened hshown hbefore hopening] at hok
  split at hok
  next heq =>
    obtain ⟨shownLines, more, shownRest, hafter, hwrites, rfl⟩ := collect_eq_ok hok
    obtain ⟨written, tail, rfl, rfl, htail⟩ := List.map_eq_append_iff.mp hafter
    obtain ⟨last, trailing, rfl, hlast, -⟩ := List.map_eq_cons_iff.mp htail
    obtain ⟨hbeforeFree, hrest⟩ := Lines.free_append.mp hfree
    obtain ⟨hopeningFree, hrest⟩ := Lines.free_cons.mp hrest
    obtain ⟨hwrittenFree, hrest⟩ := Lines.free_append.mp hrest
    obtain ⟨hlastFree, -⟩ := Lines.free_cons.mp hrest
    obtain ⟨returns, hreturned, hreturns⟩ := Lines.exists_trimCr last
    rw [hlast] at hreturned
    obtain ⟨rest, htext, hending⟩ := hcut (before ++ opening :: written) last trailing (by simp)
    refine ⟨before, opening, written, returns, rest,
      ⟨hbeforeFree, hopeningFree, hwrittenFree, hbefore,
      heq, by rwa [List.forall₂_map_left_iff] at hwrites⟩, ?_, hreturns, ?_, ?_, hending⟩
    · rw [htext, hreturned, List.append_assoc]
    · intro hmem
      exact hlastFree (hreturned ▸ List.mem_append_left _ hmem)
    · rw [← hlast]
      exact List.rdropWhile_idempotent _ last
  next => cases hok

/-! ## Cut transcripts -/

/-- The last line of a text, as it is shown. -/
def shownLast (part : List Char) : List (List Char) := if part = [] then [] else [trimCr part]

/-- A text with one line after lines that open no run is not framed. -/
theorem framed_cut_unopened {cut part : List Char} {first : List (List Char)}
    (hshown : shown cut = first.map trimCr ++ shownLast part)
    (hfirst : ∀ line ∈ first, ¬ Opens line) (others : List ProbeResult) :
    framed reader cut runId ≠ .ok others := by
  unfold shownLast at hshown
  split at hshown
  next =>
    rw [List.append_nil] at hshown
    exact framed_unopened hshown hfirst others
  next =>
    by_cases hopens : Opens part
    · rw [framed_opened hshown hfirst hopens]
      split <;> nofun
    · rw [← List.map_singleton, ← List.map_append] at hshown
      refine framed_unopened hshown ?_ others
      rw [List.forall_mem_append]
      exact ⟨hfirst, by simpa using hopens⟩

/-- A text with one line after a begin marker and some results is framed only by that line. -/
theorem framed_cut_opened {cut part : List Char} {passed : List (List Char)}
    {front others : List ProbeResult} (hframed : Framed reader runId before opening passed front)
    (hshown : shown cut = (before ++ opening :: passed).map trimCr ++ shownLast part)
    (hok : framed reader cut runId = .ok others) : trimCr part = endLine runId front.length := by
  rw [List.map_append, List.map_cons, List.append_assoc, List.cons_append] at hshown
  rw [framed_opened hshown hframed.unopened hframed.opens, if_pos hframed.opening_eq,
    collect_writes (writes_map hframed.writes), List.nil_append] at hok
  obtain ⟨lines, more, rest, hlast, hlines, rfl⟩ := collect_eq_ok hok
  unfold shownLast at hlast
  split at hlast
  next => simp at hlast
  next =>
    cases hlines with
    | nil =>
        rw [List.nil_append, List.append_nil] at hlast
        exact (List.cons.inj hlast).1
    | cons hline hlines => simp at hlast

/-- A text cut before the end of the end marker is not framed. -/
theorem framed_cut (hframed : Framed reader runId before opening written results)
    (hend : '\n' ∉ endLine runId results.length) {cut : List Char}
    (hcut : cut <+: unlines (before ++ opening :: written) ++ endLine runId results.length)
    (hshort : cut ≠ unlines (before ++ opening :: written) ++ endLine runId results.length)
    (others : List ProbeResult) : framed reader cut runId ≠ .ok others := by
  obtain ⟨first, part, rfl, hwhere⟩ := Lines.prefix_unlines hcut
  have hfree := hframed.lines
  have hpartFree : '\n' ∉ part := by
    rcases hwhere with ⟨next, rest, hlines, hpart⟩ | ⟨-, hpart⟩
    · intro hmem
      refine hfree next ?_ (hpart.subset hmem)
      rw [hlines]
      simp
    · exact fun hmem => hend (hpart.subset hmem)
  have hfirstFree : Free first := by
    rcases hwhere with ⟨next, rest, hlines, -⟩ | ⟨hlines, -⟩
    · rw [hlines] at hfree
      exact (Lines.free_append.mp hfree).1
    · rwa [hlines] at hfree
  have hshown : shown (unlines first ++ part) = first.map trimCr ++ shownLast part :=
    Lines.shown_unlines hfirstFree hpartFree
  rcases hwhere with ⟨next, rest, hlines, hpart⟩ | ⟨rfl, hpart⟩
  · rcases List.append_eq_append_iff.mp hlines with ⟨passed, rfl, hafter⟩ | ⟨passed, rfl, -⟩
    · cases passed with
      | nil =>
          rw [List.append_nil] at hshown ⊢
          exact framed_cut_unopened hshown hframed.unopened others
      | cons other passed =>
          -- The cut is within a result line, which is no end marker.
          obtain ⟨rfl, rfl⟩ := List.cons.inj hafter
          obtain ⟨front, more, rfl, hfront, hmore⟩ := forall₂_append_left hframed.writes
          have hpassed : Framed reader runId before opening passed front :=
            { hframed with
              written_lines := (Lines.free_append.mp hframed.written_lines).1
              writes := hfront }
          intro hok
          have hmarker := framed_cut_opened hpassed hshown hok
          obtain ⟨result, others, ⟨⟨json, hjson, -⟩, -⟩, -, rfl⟩ :=
            List.forall₂_cons_left_iff.mp hmore
          have hresult : RESULT ++ [' '] <+: next := marker_prefix_trimCr.mp ⟨json, hjson.symm⟩
          have hstarts : END ++ [' '] <+: trimCr part := by
            rw [hmarker, endLine]
            exact ⟨runId ++ ' ' :: decimal front.length, by simp⟩
          exact end_not_result next ⟨(marker_prefix_trimCr.mp hstarts).trans hpart, hresult⟩
    · refine framed_cut_unopened hshown ?_ others
      exact fun line hmem => hframed.unopened line (List.mem_append_left _ hmem)
  · intro hok
    have hmarker := framed_cut_opened hframed hshown hok
    have htrim : endLine runId results.length <+: part := by
      rw [← hmarker]
      exact List.rdropWhile_prefix _ part
    have hsame := hpart.eq_of_length_le htrim.length_le
    exact hshort (by rw [hsame])

/-! ## Finished runs -/

/-- A result answers a probe with an object. -/
def Answers (probe : List Char) (result : ProbeResult) : Prop :=
  result.probe = probe ∧ ∃ members, result.result = some (.object members)

/-- A result is for a probe and is not missing. -/
def Present (probe : List Char) (result : ProbeResult) : Prop :=
  result.probe = probe ∧ result.result.isSome

theorem unanswered_eq_none {probes : List (List Char)} {index : Nat} :
    unanswered results index probes = none ∧ results[index + probes.length]? = none ↔
      List.Forall₂ Present probes (results.drop index) := by
  induction probes generalizing index with
  | nil =>
      rw [List.forall₂_nil_left_iff, List.drop_eq_nil_iff, unanswered, List.length_nil,
        Nat.add_zero,
        List.getElem?_eq_none_iff]
      exact and_iff_right rfl
  | cons probe probes ih =>
      have hlength : index + (probe :: probes).length = index + 1 + probes.length := by
        rw [List.length_cons]
        omega
      rw [unanswered, hlength]
      cases hfound : results[index]? with
      | none =>
          rw [List.drop_eq_nil_of_le (List.getElem?_eq_none_iff.mp hfound)]
          simp
      | some found =>
          rw [drop_eq_cons_of_getElem? hfound, List.forall₂_cons, ← ih]
          by_cases hprobe : found.probe = probe
          · cases hresult : found.result <;> simp [Present, hprobe, hresult]
          · simp [Present, hprobe]

/-- A run is finished when it is framed and its results are those of the probes. -/
theorem parseConsole_eq_finished {probes : List (List Char)} :
    parseConsole reader text runId probes = .finished results ↔
      framed reader text runId = .ok results ∧ List.Forall₂ Present probes results := by
  have hall := @unanswered_eq_none results probes 0
  rw [Nat.zero_add, List.drop_zero] at hall
  unfold parseConsole
  constructor
  · intro hfinished
    split at hfinished
    next => cases hfinished
    next found hframed =>
      split at hfinished
      next => cases hfinished
      next hnone =>
        split at hfinished
        next => cases hfinished
        next hlast =>
          cases hfinished
          exact ⟨hframed, hall.mp ⟨hnone, hlast⟩⟩
  · rintro ⟨hframed, hpresent⟩
    obtain ⟨hnone, hlast⟩ := hall.mpr hpresent
    simp only [hframed, hnone, hlast]

theorem parseConsole_not_framed {probes : List (List Char)}
    (hframed : ∀ others, framed reader text runId ≠ .ok others) :
    ∃ reason, parseConsole reader text runId probes = .notRun reason := by
  unfold parseConsole
  cases hresult : framed reader text runId with
  | error reason => exact ⟨reason, rfl⟩
  | ok others => exact absurd hresult (hframed others)

theorem answers_of_framed {probes : List (List Char)}
    (hwrites : List.Forall₂ (fun line result => Writes reader (trimCr line) result) written results)
    (hpresent : List.Forall₂ Present probes results) : List.Forall₂ Answers probes results := by
  induction hpresent generalizing written with
  | nil => exact List.Forall₂.nil
  | cons hfirst _ ih =>
      cases hwrites with
      | cons hwrite hwrites =>
          refine List.Forall₂.cons ⟨hfirst.1, ?_⟩ (ih hwrites)
          obtain ⟨value, hvalue⟩ := Option.isSome_iff_exists.mp hfirst.2
          have hobject := hwrite.2 value hvalue
          cases value with
          | object members => exact ⟨members, hvalue⟩
          | _ => simp [isObject] at hobject

/-- The text of a finished run, as a whole. Its lines are a begin marker for the run, one result
line for each probe and an end marker for the run and their count, with each result an object. Cut
before the end of that marker the text is no run; and with anything after a line feed there, with
carriage returns before line feeds, or with lines that open no run put among those before the
begin marker, it is the same run. -/
structure Whole (reader : List Char → Except (List Char) ProbeResult) (runId : List Char)
    (probes : List (List Char)) (text : List Char) (results : List ProbeResult) : Prop where
  answers : List.Forall₂ Answers probes results
  lines : ∃ before opening written returns rest,
    Framed reader runId before opening written results ∧
    written.length = probes.length ∧
    text = unlines (before ++ opening :: written) ++
      (endLine runId probes.length ++ (returns ++ rest)) ∧
    (∀ char ∈ returns, char = '\r') ∧ (rest = [] ∨ ∃ more, rest = '\n' :: more) ∧
    (∀ cut, cut <+: unlines (before ++ opening :: written) ++ endLine runId probes.length →
      cut ≠ unlines (before ++ opening :: written) ++ endLine runId probes.length →
        ∃ reason, parseConsole reader cut runId probes = .notRun reason) ∧
    ∀ returns' more, (∀ char ∈ returns', char = '\r') →
      parseConsole reader (unlines (before ++ opening :: written) ++
        (endLine runId probes.length ++ (returns' ++ '\n' :: more))) runId probes =
          .finished results
  returned : ∀ other, Lines.Returned text other →
    parseConsole reader other runId probes = .finished results
  inserted : ∀ first second between, text = unlines first ++ second → Free first → Free between →
    (∀ line ∈ first, ¬ Opens line) → (∀ line ∈ between, ¬ Opens line) →
      parseConsole reader (unlines first ++ (unlines between ++ second)) runId probes =
      .finished results

theorem whole_of_finished {probes : List (List Char)}
    (hfinished : parseConsole reader text runId probes = .finished results) :
    Whole reader runId probes text results := by
  obtain ⟨hok, hpresent⟩ := parseConsole_eq_finished.mp hfinished
  obtain ⟨before, opening, written, returns, rest, hframed, htext, hreturns, hendFree, hendTrim,
      hrest⟩ :=
    framed_eq_ok hok
  have hcount := hpresent.length_eq
  rw [← hcount] at htext hendFree hendTrim
  refine ⟨answers_of_framed hframed.writes hpresent,
    ⟨before, opening, written, returns, rest, hframed, hframed.writes.length_eq.trans hcount.symm,
    htext,
      hreturns, hrest, ?_, ?_⟩, ?_, ?_⟩
  · intro cut hcut hshort
    rw [hcount] at hcut hshort hendFree
    exact parseConsole_not_framed (framed_cut hframed hendFree hcut hshort)
  · intro returns' more hreturns'
    refine parseConsole_eq_finished.mpr ⟨?_, hpresent⟩
    have hlong :
        Lines.Longer (endLine runId probes.length) (endLine runId probes.length ++ returns') :=
      ⟨returns', rfl, hreturns'⟩
    have hlines :
        Free ((before ++ opening :: written) ++ [endLine runId probes.length ++ returns']) := by
      refine Lines.free_append.mpr ⟨hframed.lines, ?_⟩
      simpa only [Free, List.forall_mem_singleton] using hlong.free hendFree
    have htexts : unlines (before ++ opening :: written) ++
        (endLine runId probes.length ++ (returns' ++ '\n' :: more)) =
          unlines ((before ++ opening :: written) ++ [endLine runId probes.length ++ returns']) ++
          more := by
      simp
    have hshown := Lines.shown_append hlines more
    rw [htexts]
    refine @framed_of_lines reader runId before written opening _ results hframed (shown more) ?_
    rw [hshown, ← hcount, List.map_append, List.map_singleton, Lines.trimCr_append_cr hreturns',
      hendTrim]
    simp
  · intro returned hreturned
    refine parseConsole_eq_finished.mpr ⟨?_, hpresent⟩
    rw [← hok]
    apply framed_congr
    rw [hreturned.shown_eq]
  · intro first second inserted hsplit hfirst hinserted hunopened hunopened'
    refine parseConsole_eq_finished.mpr ⟨?_, hpresent⟩
    rw [← hok, hsplit]
    apply framed_congr
    rw [Lines.shown_append hfirst, Lines.shown_append hinserted, Lines.shown_append hfirst,
      dropWhile_unopened hunopened, dropWhile_unopened hunopened', dropWhile_unopened hunopened]

end Reader

end Plasmosome.Lanes.Console
