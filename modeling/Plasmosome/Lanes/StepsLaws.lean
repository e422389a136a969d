import Plasmosome.Lanes.ConsoleLaws
import Plasmosome.Lanes.Steps

/-!
# What the host sees of a console

Reading a longer console shows the same complete lines and maybe more. So each complete
result line is recorded once, in order, and a step is taken once, in order, after the
line of its probe.
-/

namespace Plasmosome.Lanes.Steps

open Foundation
open Foundation.Lines (unlines Free shown trimCr)
open Plasmosome.Runtime (stripPrefix stripPrefix_eq_some)
open Membrane.Probe (fromUtf8Lossy fromUtf8Lossy_newline newline_not_mem_lossy)
open Console (ProbeResult RESULT)

/-! ## Complete result lines -/

section Reader

variable {reader : List Char → Except (List Char) ProbeResult}

/-- The probe of a line, when it is a result line that parses. -/
def probeOf (reader : List Char → Except (List Char) ProbeResult) (line : List Char) :
    Option (List Char) :=
  (stripPrefix (RESULT ++ [' ']) (trimCr line)).bind fun json =>
    (reader json).toOption.map ProbeResult.probe

theorem probeOf_nil : probeOf reader [] = none := rfl

theorem probeOf_trimCr (line : List Char) : probeOf reader (trimCr line) = probeOf reader line := by
  unfold probeOf
  rw [show trimCr (trimCr line) = trimCr line from List.rdropWhile_idempotent _ line]

/-- The probes listed are those of the lines that a line feed ends. -/
theorem completeResultProbes_unlines {lines : List (List Char)} {last : List Char}
    (hfree : Free lines)
    (hlast : '\n' ∉ last) :
    completeResultProbes reader (unlines lines ++ last) = lines.filterMap (probeOf reader) := by
  cases lines using List.reverseRecOn with
  | nil =>
      rw [Lines.unlines_nil, List.nil_append, completeResultProbes, Pieces.rsplitOnce_none hlast]
      rfl
  | append_singleton init line =>
      obtain ⟨hinit, hline⟩ := Lines.free_append.mp hfree
      have hlineFree : '\n' ∉ line := hline line List.mem_cons_self
      have htext : unlines (init ++ [line]) ++ last =
        (unlines init ++ line) ++ '\n' :: last := by simp
      have hshown := Lines.shown_unlines hinit hlineFree
      have hprobes : ∀ shownLines : List (List Char),
          (((shownLines.filterMap fun line => stripPrefix (RESULT ++ [' ']) (trimCr line)).filterMap
            fun json => (reader json).toOption).map ProbeResult.probe) =
              (shownLines.map trimCr).filterMap (probeOf reader) := by
        intro shownLines
        rw [List.filterMap_filterMap, List.map_filterMap, List.filterMap_map]
        apply List.filterMap_congr
        intro shownLine _
        rw [Function.comp_apply, probeOf_trimCr, probeOf, Option.map_bind]
        rfl
      rw [htext, completeResultProbes, Pieces.rsplitOnce_append _ hlast]
      simp only
      rw [hprobes, ← shown, hshown, List.filterMap_append, List.filterMap_append,
        List.filterMap_map]
      congr 1
      · apply List.filterMap_congr
        intro other _
        exact probeOf_trimCr other
      · split
        next hempty => rw [hempty, List.filterMap_cons_none probeOf_nil]
        next => simp only [List.filterMap_cons, probeOf_trimCr]

/-- What a console with these bytes lists. -/
def listed (reader : List Char → Except (List Char) ProbeResult) (bytes : List UInt8) :
    List (List Char) :=
  completeResultProbes reader (fromUtf8Lossy (bytes.take (min bytes.length MAX_CONSOLE_BYTES)))

theorem completeResultProbes_prefix {earlier later : List UInt8} (hstarts : earlier <+: later) :
    completeResultProbes reader (fromUtf8Lossy earlier) <+:
      completeResultProbes reader (fromUtf8Lossy later) := by
  by_cases hfeed : 10 ∈ earlier
  · -- What stands before the last line feed reads the same in both.
    obtain ⟨after, before, hreverse, hlast⟩ :=
      List.eq_append_cons_of_mem (List.mem_reverse.mpr hfeed)
    have hearlier : earlier = before.reverse ++ 10 :: after.reverse := by
      have hback := congrArg List.reverse hreverse
      simpa using hback
    obtain ⟨more, rfl⟩ := hstarts
    obtain ⟨lines, line, hlines, hline, htext⟩ :=
      Lines.exists_unlines (fromUtf8Lossy before.reverse)
    have hfree : Free (lines ++ [line]) :=
      Lines.free_append.mpr ⟨hlines, by simpa [Free] using hline⟩
    have hunlines : ∀ rest, fromUtf8Lossy before.reverse ++ '\n' :: rest =
        unlines (lines ++ [line]) ++ rest := by
      intro rest
      rw [htext]
      simp
    have hshort : '\n' ∉ fromUtf8Lossy after.reverse :=
      newline_not_mem_lossy fun hmem => hlast (List.mem_reverse.mp hmem)
    obtain ⟨others, final, hothers, hfinal, hrest⟩ :=
      Lines.exists_unlines (fromUtf8Lossy (after.reverse ++ more))
    rw [hearlier, List.append_assoc, List.cons_append, fromUtf8Lossy_newline, fromUtf8Lossy_newline,
      hunlines, hunlines, completeResultProbes_unlines hfree hshort, hrest, ← List.append_assoc,
      ← Lines.unlines_append, completeResultProbes_unlines (Lines.free_append.mpr ⟨hfree,
      hothers⟩) hfinal]
    exact (List.prefix_append (lines ++ [line]) others).filterMap _
  · have hnone :=
      @completeResultProbes_unlines reader [] _ (by simp [Free]) (newline_not_mem_lossy hfeed)
    rw [Lines.unlines_nil, List.nil_append] at hnone
    rw [hnone]
    exact List.nil_prefix

/-- A longer console lists the same probes and maybe more. -/
theorem listed_prefix {earlier later : List UInt8} (hstarts : earlier <+: later) :
    listed reader earlier <+: listed reader later := by
  unfold listed
  apply completeResultProbes_prefix
  have htake : ∀ bytes : List UInt8, bytes.take (min bytes.length MAX_CONSOLE_BYTES) =
      bytes.take MAX_CONSOLE_BYTES := by
    intro bytes
    rw [Nat.min_comm, ← List.take_take, List.take_length]
  rw [htake, htake]
  exact hstarts.take MAX_CONSOLE_BYTES

/-! ## Watching -/

variable {World : Type} {host : Host World}

namespace Watch

/-- What the watch keeps: the steps taken come first, each is recorded once, and its probe was
seen. -/
def Kept (steps : List (Step World)) (watch : Watch World) : Prop :=
  ∃ taken, steps = taken ++ watch.pending ∧
  watch.records.map StepRecord.after = taken.map Step.after ∧
    ∀ record ∈ watch.records, record.after ∈ watch.seen.map Prod.fst

theorem see_probes (probes : List (List Char)) (seen : List (List Char × UInt64)) (world : World) :
    (see host probes seen world).1.map Prod.fst = seen.map Prod.fst ++ probes := by
  induction probes generalizing seen world with
  | nil => simp [see]
  | cons probe probes ih => rw [see, ih, List.map_append, List.append_assoc]; rfl

theorem take_after (step : Step World)
    (world : World) : (take host step world).1.after = step.after := rfl

theorem takeReady_cons (seen : List (List Char × UInt64)) (step : Step World)
    (pending : List (Step World)) (records : List StepRecord) (world : World) :
    takeReady host seen (step :: pending) records world =
      if seen.any fun entry => entry.1 = step.after then
        takeReady host seen pending (records ++ [(take host step world).1]) (take host step world).2
      else (⟨step :: pending, records, seen⟩, world) := rfl

/-- Taking steps keeps what was kept, and the probes seen are the same. -/
theorem takeReady_kept {steps : List (Step World)} {seen : List (List Char × UInt64)}
    {pending : List (Step World)} {records : List StepRecord} (world : World)
    (hkept : Kept steps ⟨pending, records, seen⟩) :
    Kept steps (takeReady host seen pending records world).1 ∧
      (takeReady host seen pending records world).1.seen = seen := by
  induction pending generalizing records world with
  | nil => exact ⟨hkept, rfl⟩
  | cons step pending ih =>
      rw [takeReady_cons]
      split
      next hseen =>
        apply ih
        obtain ⟨taken, hsteps, hrecords, hall⟩ := hkept
        refine ⟨taken ++ [step], by simpa using hsteps, ?_, ?_⟩
        · rw [List.map_append, List.map_append, List.map_singleton, List.map_singleton, take_after]
          exact congrArg (· ++ [step.after]) hrecords
        · intro record hmem
          rcases List.mem_append.mp hmem with hmem | hmem
          · exact hall record hmem
          · rw [List.mem_singleton.mp hmem, take_after]
            obtain ⟨entry, hentry, hsame⟩ := List.any_eq_true.mp hseen
            exact List.mem_map.mpr ⟨entry, hentry, of_decide_eq_true hsame⟩
      next => exact ⟨hkept, rfl⟩

/-- A look that reads a console on which the probes seen come first sees all that it lists. -/
theorem observe_kept {steps : List (Step World)} {watch : Watch World} {bytes : List UInt8}
    (taking : Bool) (world : World) (hkept : Kept steps watch)
    (hseen : watch.seen.map Prod.fst <+: listed reader bytes) :
    Kept steps (observe reader host taking (some bytes) watch world).1 ∧
      (observe reader host taking (some bytes) watch world).1.seen.map Prod.fst =
      listed reader bytes := by
  obtain ⟨more, hmore⟩ := hseen
  have hdrop : (listed reader bytes).drop watch.seen.length = more := by
    rw [← hmore, List.drop_left' (List.length_map _)]
  have hprobes := @see_probes World host more watch.seen world
  rw [hmore] at hprobes
  obtain ⟨taken, hsteps, hrecords, hall⟩ := hkept
  have hmiddle : Kept steps ⟨watch.pending, watch.records, (see host more watch.seen world).1⟩ := by
    refine ⟨taken, hsteps, hrecords, ?_⟩
    intro record hmem
    change record.after ∈ (see host more watch.seen world).1.map Prod.fst
    rw [hprobes, ← hmore]
    exact List.mem_append_left _ (hall record hmem)
  have hobserve : observe reader host taking (some bytes) watch world =
      if taking then takeReady host (see host more watch.seen world).1 watch.pending watch.records
        (see host more watch.seen world).2
      else (⟨watch.pending, watch.records, (see host more watch.seen world).1⟩,
        (see host more watch.seen world).2) := by
    rw [← hdrop]
    rfl
  rw [hobserve]
  cases taking with
  | true =>
      obtain ⟨hafter, hsame⟩ := takeReady_kept (see host more watch.seen world).2 hmiddle
      rw [if_pos rfl]
      refine ⟨hafter, ?_⟩
      rw [hsame, hprobes]
  | false => exact ⟨hmiddle, hprobes⟩

/-- The contents that the looks of a run read, in their order. -/
def contents (looks : List (Bool × Option (List UInt8))) : List (List UInt8) :=
  looks.filterMap Prod.snd

/-- What the last content lists, or nothing before one was read. -/
def lastListed (reader : List Char → Except (List Char) ProbeResult)
    (looks : List (Bool × Option (List UInt8))) : List (List Char) :=
  ((contents looks).getLast?.map (listed reader)).getD []

theorem run_kept {steps : List (Step World)} (looks : List (Bool × Option (List UInt8)))
    (hgrowing : (contents looks).IsChain (· <+: ·)) (world : World) :
    Kept steps (run reader host steps looks world).1 ∧
      (run reader host steps looks world).1.seen.map Prod.fst = lastListed reader looks := by
  induction looks using List.reverseRecOn with
  | nil => exact ⟨⟨[], rfl, rfl, nofun⟩, rfl⟩
  | append_singleton looks look ih =>
      obtain ⟨taking, read⟩ := look
      have hcontents : contents (looks ++ [(taking, read)]) = contents looks ++ read.toList := by
        rw [contents, contents, List.filterMap_append]
        cases read <;> rfl
      have hrun : run reader host steps (looks ++ [(taking, read)]) world =
          observe reader host taking read (run reader host steps looks world).1
            (run reader host steps looks world).2 := by
        rw [run, List.foldl_append]
        rfl
      rw [hcontents] at hgrowing
      obtain ⟨hkept, hseen⟩ := ih (List.isChain_append.mp hgrowing).1
      rw [hrun, lastListed, hcontents]
      cases read with
      | none =>
          rw [Option.toList_none, List.append_nil]
          exact ⟨hkept, hseen⟩
      | some bytes =>
          have hbefore : lastListed reader looks <+: listed reader bytes := by
            unfold lastListed
            cases hlast : (contents looks).getLast? with
            | none => exact List.nil_prefix
            | some earlier =>
                have hstarts := (List.isChain_append.mp hgrowing).2.2 earlier hlast bytes rfl
                exact listed_prefix hstarts
          rw [Option.toList_some, List.getLast?_concat]
          exact observe_kept taking _ hkept (hseen ▸ hbefore)

/-- A log of the world that the actions alone write, each the probe of its step. -/
structure Logs (log : World → List (List Char)) (host : Host World) (steps : List (Step World)) :
    Prop where
  millis : ∀ world, log (host.millis world).2 = log world
  write : ∀ flag line world, log (host.write flag line world).2 = log world
  action : ∀ step ∈ steps, ∀ world, log (step.action world).2 = log world ++ [step.after]

section Log

variable {log : World → List (List Char)} {steps : List (Step World)}

theorem log_see (hlogs : Logs log host steps) (probes : List (List Char))
    (seen : List (List Char × UInt64)) (world : World) :
    log (see host probes seen world).2 = log world := by
  induction probes generalizing seen world with
  | nil => rfl
  | cons probe probes ih =>
      rw [see, ih]
      exact hlogs.millis world

/-- One action runs when a step is taken, whether or not it succeeds and its flag is written. -/
theorem log_take (hlogs : Logs log host steps) {step : Step World} (hstep : step ∈ steps)
    (world : World) : log (take host step world).2 = log world ++ [step.after] := by
  have hacted : log (step.action (host.millis world).2).2 = log world ++ [step.after] := by
    rw [hlogs.action step hstep, hlogs.millis]
  unfold take
  rw [hlogs.millis]
  cases hresult : (step.action (host.millis world).2).1 with
  | error error => exact hacted
  | ok text =>
      have hwritten := (hlogs.write step.flag [103, 111, 10] _).trans hacted
      cases hwrite : host.write step.flag [103, 111, 10] (step.action (host.millis world).2).2 with
      | mk written next =>
          rw [hwrite] at hwritten
          cases written with
          | error error => exact hwritten
          | ok done => exact hwritten

/-- The actions that ran are those recorded, and the steps left are some of those there were. -/
theorem log_takeReady (hlogs : Logs log host steps) (seen : List (List Char × UInt64))
    {pending : List (Step World)} (hpending : ∀ step ∈ pending, step ∈ steps)
    {records : List StepRecord} {world : World} {before : List (List Char)}
    (hlog : log world = before ++ records.map StepRecord.after) :
    (∀ step ∈ (takeReady host seen pending records world).1.pending, step ∈ steps) ∧
      log (takeReady host seen pending records world).2 =
        before ++ (takeReady host seen pending records world).1.records.map StepRecord.after := by
  induction pending generalizing records world with
  | nil => exact ⟨nofun, hlog⟩
  | cons step pending ih =>
      obtain ⟨hstep, hrest⟩ := List.forall_mem_cons.mp hpending
      rw [takeReady_cons]
      split
      · apply ih hrest
        rw [log_take hlogs hstep, hlog, List.map_append, List.map_singleton, take_after,
          List.append_assoc]
      · exact ⟨hpending, hlog⟩

theorem log_run (hlogs : Logs log host steps) (looks : List (Bool × Option (List UInt8)))
    (world : World) :
    (∀ step ∈ (run reader host steps looks world).1.pending, step ∈ steps) ∧
      log (run reader host steps looks world).2 =
        log world ++ (run reader host steps looks world).1.records.map StepRecord.after := by
  induction looks using List.reverseRecOn with
  | nil => exact ⟨fun _ hstep => hstep, (List.append_nil _).symm⟩
  | append_singleton looks look ih =>
      obtain ⟨taking, read⟩ := look
      obtain ⟨hpending, hlog⟩ := ih
      rw [run, List.foldl_append]
      change (∀ step ∈ (observe reader host taking read (run reader host steps looks world).1
        (run reader host steps looks world).2).1.pending, step ∈ steps) ∧
          log (observe reader host taking read (run reader host steps looks world).1
            (run reader host steps looks world).2).2 = _ ++ (observe reader host taking read
              (run reader host steps looks world).1
                (run reader host steps looks world).2).1.records.map StepRecord.after
      cases read with
      | none => exact ⟨hpending, hlog⟩
      | some bytes =>
          have hseen := log_see hlogs ((listed reader bytes).drop
            (run reader host steps looks world).1.seen.length)
              (run reader host steps looks world).1.seen (run reader host steps looks world).2
          cases taking with
          | true => exact log_takeReady hlogs _ hpending (hseen.trans hlog)
          | false => exact ⟨hpending, hseen.trans hlog⟩

end Log

end Watch

/-- A console counts only when it is whole, and a growing one is watched without a loss. The text
of a finished run is whole. The probes of a text are those of its complete result lines, and a
longer content lists the same ones and maybe more. So, in whatever
looks at a growing console, each complete result line is recorded once and in order, and the steps
are taken from the first on, each once and after a line of its probe was seen: the actions that
ran are those recorded. -/
theorem console_counts_only_when_whole (reader : List Char → Except (List Char) ProbeResult) :
    (∀ (text runId : List Char) (probes : List (List Char)) (results : List ProbeResult),
      Console.parseConsole reader text runId probes = .finished results →
        Console.Whole reader runId probes text results) ∧
    (∀ (lines : List (List Char)) (last : List Char), Free lines → '\n' ∉ last →
      completeResultProbes reader (unlines lines ++ last) = lines.filterMap (probeOf reader)) ∧
    (∀ earlier later : List UInt8, earlier <+: later →
      listed reader earlier <+: listed reader later) ∧
    ∀ (World : Type) (host : Host World) (steps : List (Step World))
      (looks : List (Bool × Option (List UInt8))) (world : World),
      (Watch.contents looks).IsChain (· <+: ·) →
        (Watch.run reader host steps looks world).1.seen.map Prod.fst =
        Watch.lastListed reader looks ∧
          Watch.Kept steps (Watch.run reader host steps looks world).1 ∧
          ∀ log : World → List (List Char), Watch.Logs log host steps →
            log (Watch.run reader host steps looks world).2 = log world ++
              (Watch.run reader host steps looks world).1.records.map StepRecord.after := by
  refine ⟨?_, ?_, ?_, ?_⟩
  · intro text runId probes results hfinished
    exact Console.whole_of_finished hfinished
  · intro lines last hfree hlast
    exact completeResultProbes_unlines hfree hlast
  · intro earlier later hstarts
    exact listed_prefix hstarts
  · intro World host steps looks world hgrowing
    obtain ⟨hkept, hseen⟩ := @Watch.run_kept reader World host steps looks hgrowing world
    exact ⟨hseen, hkept, fun log hlogs => (Watch.log_run hlogs looks world).2⟩

end Reader

/-- A world that is its log: the clock stands still, and every flag is written. -/
def loggedHost : Host (List (List Char)) where
  millis world := (0, world)
  write _ _ world := (.ok (), world)

def loggedStep (probe : List Char) : Step (List (List Char)) :=
  ⟨probe, [], fun world => (.ok [], world ++ [probe])⟩

/-- Two looks at one console, the first while its second result line is being written. -/
def sampleLooks : List (Bool × Option (List UInt8)) :=
  [(true, some (Utf8.encode (RESULT ++ " a\nLANE".toList))), (false, none),
    (true, some (Utf8.encode (RESULT ++ " a\n".toList ++ RESULT ++ " b\n".toList)))]

def sampleReader (text : List Char) : Except (List Char) ProbeResult := .ok ⟨text, 0, some 0, none⟩

theorem console_counts_only_when_whole_sample :
    let run := Watch.run sampleReader loggedHost [loggedStep ['a'], loggedStep ['b']] sampleLooks []
    run.1.seen.map Prod.fst = [['a'], ['b']] ∧ run.2 = run.1.records.map StepRecord.after := by
  have hchain : (Watch.contents sampleLooks).IsChain (· <+: ·) :=
    List.isChain_pair.mpr (by decide +kernel)
  have hlogs : Watch.Logs id loggedHost [loggedStep ['a'], loggedStep ['b']] := by
    refine ⟨fun _ => rfl, fun _ _ _ => rfl, ?_⟩
    simp only [List.forall_mem_cons]
    exact ⟨fun _ => rfl, fun _ => rfl, nofun⟩
  have hlisted : Watch.lastListed sampleReader sampleLooks = [['a'], ['b']] := by decide +kernel
  obtain ⟨hseen, -, hran⟩ := (console_counts_only_when_whole sampleReader).2.2.2 _ loggedHost
    [loggedStep ['a'], loggedStep ['b']] sampleLooks [] hchain
  exact ⟨hseen.trans hlisted, hran id hlogs⟩

end Plasmosome.Lanes.Steps
