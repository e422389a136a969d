import Plasmosome.Differential.Findings

/-!
# Order and evidence

The findings depend on which runs a lane has, not on their order, and a run that
observed more takes no failure away.
-/

namespace Plasmosome.Differential

open Foundation Std

variable {F : Type} [Floats F]

/-! ## The order of the runs -/

/-- The same two, in this order or the other. -/
def Swapped {α : Type} (first second : Option (α × α)) : Prop :=
  second = first ∨ second = first.map Prod.swap

theorem Swapped.map {α β : Type} {first second : Option (α × α)} (hswapped : Swapped first second)
    (f : α → β) : Swapped (first.map fun pair => (f pair.1, f pair.2))
      (second.map fun pair => (f pair.1, f pair.2)) := by
  rcases hswapped with rfl | rfl
  · exact .inl rfl
  · right
    rw [Option.map_map, Option.map_map]
    rfl

omit [Floats F] in
theorem laneRuns_of_perm {runs runs' : List (Run F)} (hpaired : Paired runs)
    (hperm : runs'.Perm runs) (lane : Lane) :
    Swapped (laneRuns runs lane) (laneRuns runs' lane) := by
  have hfilter := hperm.filter fun run => run.lane = lane
  unfold laneRuns
  rcases hpaired lane with hnil | ⟨first, second, htwo⟩
  · rw [hnil] at hfilter ⊢
    rw [hfilter.eq_nil]
    exact .inl rfl
  · rw [htwo] at hfilter ⊢
    rcases List.perm_pair.mp hfilter with hsame | hswap
    · rw [hsame]
      exact .inl rfl
    · rw [hswap]
      exact .inr rfl

omit [Floats F] in
theorem Paired.of_perm {runs runs' : List (Run F)} (hpaired : Paired runs)
    (hperm : runs'.Perm runs) : Paired runs' := by
  intro lane
  have hfilter := hperm.filter fun run => run.lane = lane
  rcases hpaired lane with hnil | ⟨first, second, htwo⟩
  · rw [hnil] at hfilter
    exact .inl hfilter.eq_nil
  · rw [htwo] at hfilter
    rcases List.perm_pair.mp hfilter with hsame | hswap
    · exact .inr ⟨first, second, hsame⟩
    · exact .inr ⟨second, first, hswap⟩

omit [Floats F] in
theorem FitRuns.of_perm {manifest : Manifest F} {runs runs' : List (Run F)}
    (hfits : FitRuns manifest runs) (hperm : runs'.Perm runs) : FitRuns manifest runs' where
  boots := (hperm.map _).nodup_iff.mpr hfits.boots
  declared := fun run hrun => hfits.declared run (hperm.mem_iff.mp hrun)
  once := fun run hrun => hfits.once run (hperm.mem_iff.mp hrun)

section Swap

variable {seen seen' : Lane → Option (Option (FieldMap F) × Option (FieldMap F))}
  (hseen : ∀ lane, Swapped (seen lane) (seen' lane))

include hseen

omit [Floats F] in
theorem showed_of_swapped (lane : Lane) (fields : FieldMap F) :
    Showed seen lane fields ↔ Showed seen' lane fields := by
  unfold Showed
  rcases hseen lane with heq | heq
  · rw [heq]
  · rw [heq]
    cases seen lane with
    | none => simp
    | some shown => simp [or_comm]

theorem compareLanes_of_swapped {subject : Subject} {reach : Bool}
    {allowed : String → Value F → Bool} :
    compareLanes subject (ranOf seen) reach allowed =
      compareLanes subject (ranOf seen') reach allowed := by
  have hpairs : ∀ left right pair, pair ∈ completedPairs (ranOf seen) left right ↔
      pair ∈ completedPairs (ranOf seen') left right := by
    intro left right pair
    rw [mem_completedPairs, mem_completedPairs, showed_of_swapped hseen, showed_of_swapped hseen]
  have hnoise : ∀ report : Lane × Option (FieldMap F) × Option (FieldMap F) → List Finding,
      (∀ lane shown, noise shown = noise shown.swap →
        report (lane, shown) = report (lane, shown.swap)) →
        (ranOf seen).flatMap report = (ranOf seen').flatMap report := by
    intro report hreport
    unfold ranOf
    rw [List.filterMap_eq_flatMap_toList, List.filterMap_eq_flatMap_toList, List.flatMap_assoc,
      List.flatMap_assoc]
    apply List.flatMap_congr
    intro lane _
    rcases hseen lane with heq | heq
    · rw [heq]
    · rw [heq]
      cases seen lane with
      | none => rfl
      | some shown =>
          have hswap : noise shown = noise shown.swap := by
            obtain ⟨_ | first, _ | second⟩ := shown
            · rfl
            · rfl
            · rfl
            · exact differing_comm first second
          simp only [Option.map_some, Option.toList_some, List.flatMap_singleton,
            hreport lane shown hswap]
  have hsame : ∀ differs, (completedPairs (ranOf seen) .open .absent).any differs =
      (completedPairs (ranOf seen') .open .absent).any differs := by
    intro differs
    rw [Bool.eq_iff_iff, List.any_eq_true, List.any_eq_true]
    exact exists_congr fun pair => and_congr_left fun _ => hpairs .open .absent pair
  have hfields : ∀ hidden : FieldMap F × FieldMap F → List String, ExtTreeSet.ofList
      ((completedPairs (ranOf seen) .cell .absent).flatMap hidden) compare =
        ExtTreeSet.ofList ((completedPairs (ranOf seen') .cell .absent).flatMap hidden)
          compare := by
    intro hidden
    apply ExtTreeSet.ext_mem
    intro field
    rw [ExtTreeSet.mem_ofList, ExtTreeSet.mem_ofList, List.contains_iff_mem, List.contains_iff_mem,
      List.mem_flatMap, List.mem_flatMap]
    exact exists_congr fun pair => and_congr_left fun _ => hpairs .cell .absent pair
  rw [compareLanes, compareLanes, hnoise, hsame, hfields]
  intro lane shown hswap
  dsimp only
  rw [hswap]

end Swap

omit [Floats F] in
theorem laneFindings_of_swapped {manifest : Manifest F} {probe : String} {lane : Lane}
    {runs runs' : Option (Run F × Run F)} (hruns : Swapped runs runs') :
    laneFindings manifest probe (lane, runs) = laneFindings manifest probe (lane, runs') := by
  rcases hruns with rfl | rfl
  · rfl
  · cases runs with
    | none => rfl
    | some both =>
        obtain ⟨first, second⟩ := both
        have hshown : ∀ seen, seen ∈ [first.completed probe, second.completed probe].reduceOption ↔
            seen ∈ [second.completed probe, first.completed probe].reduceOption := by
          intro seen
          rw [List.reduceOption_mem_iff, List.reduceOption_mem_iff, List.mem_pair, List.mem_pair,
            or_comm]
        change laneFindings manifest probe (lane, some (first, second)) =
          laneFindings manifest probe (lane, some (second, first))
        rw [laneFindings, laneFindings, notNeutral_congr hshown, Bool.and_comm]

/-- The findings about the transcripts. -/
theorem judgeTranscripts_eq (ofLane : Lane → Option (Run F × Run F)) :
    judgeTranscripts (Lane.all.map fun lane => (lane, ofLane lane)) =
      (Lane.all.flatMap fun lane =>
        if (transcriptsOf ofLane lane).any fun shown => shown.1.isSome && shown.2.isSome then []
        else [⟨.transcript, .notRun lane⟩]) ++
      compareLanes .transcript (ranOf (transcriptsOf ofLane)) false fun _ _ => false := by
  unfold judgeTranscripts
  rw [List.flatMap_map, List.filterMap_map]
  rfl

theorem findings_of_swapped {manifest : Manifest F} {ofLane ofLane' : Lane → Option (Run F × Run F)}
    (hruns : ∀ lane, Swapped (ofLane lane) (ofLane' lane)) :
    findings manifest ofLane = findings manifest ofLane' := by
  have hprobe :
      ∀ probe, probeFindings manifest ofLane probe = probeFindings manifest ofLane' probe := by
    intro probe
    have hshown : ∀ lane, Swapped (shownOf manifest ofLane probe.id lane)
        (shownOf manifest ofLane' probe.id lane) :=
      fun lane => (hruns lane).map (shownFields manifest lane probe.id)
    rw [probeFindings, probeFindings, compareLanes_of_swapped hshown]
    congr 1
    apply List.flatMap_congr
    intro lane _
    exact laneFindings_of_swapped (hruns lane)
  have htranscripts : ∀ lane, Swapped (transcriptsOf ofLane lane) (transcriptsOf ofLane' lane) :=
    fun lane => (hruns lane).map Run.transcript
  have hnotRun : ∀ lane, (transcriptsOf ofLane lane).any (fun shown =>
      shown.1.isSome && shown.2.isSome) = (transcriptsOf ofLane' lane).any fun shown =>
        shown.1.isSome && shown.2.isSome := by
    intro lane
    rcases htranscripts lane with heq | heq
    · rw [heq]
    · rw [heq]
      cases transcriptsOf ofLane lane with
      | none => rfl
      | some shown => exact Bool.and_comm _ _
  unfold findings
  rw [judgeTranscripts_eq, judgeTranscripts_eq, compareLanes_of_swapped htranscripts,
    funext hprobe]
  simp only [hnotRun]

/-- The verdict is the same for every order of the runs. -/
theorem judge_of_perm {manifest : Manifest F} {runs runs' : List (Run F)} {judged : Verdict}
    (hjudged : judge manifest runs = .ok judged) (hperm : runs'.Perm runs) :
    judge manifest runs' = .ok judged := by
  obtain ⟨hvalid, hfits, hpaired, hnormal, rfl⟩ := judge_eq_ok.mp hjudged
  have hswapped := laneRuns_of_perm hpaired hperm
  refine judge_eq_ok.mpr ⟨hvalid, hfits.of_perm hperm, hpaired.of_perm hperm, ?_, ?_⟩
  · intro probe hprobe lane both hboth
    rcases hswapped lane with heq | heq
    · exact hnormal probe hprobe lane both (heq ▸ hboth)
    · rw [heq, Option.map_eq_some_iff] at hboth
      obtain ⟨both, hboth, rfl⟩ := hboth
      exact (hnormal probe hprobe lane both hboth).symm
  · rw [findings_of_swapped hswapped]

/-! ## What is found when more was observed -/

/-- The verdict, from the findings of each sort. -/
theorem verdict_eq (found : List Finding) :
    verdict found =
      match (found.filter fun finding => finding.reason.isNotRun).isEmpty,
        (found.filter fun finding => !finding.reason.isNotRun).isEmpty with
      | true, true => .pass
      | true, false => .fail (found.filter fun finding => !finding.reason.isNotRun)
      | false, _ => .notRun (found.filter fun finding => finding.reason.isNotRun)
          (found.filter fun finding => !finding.reason.isNotRun) := by
  unfold verdict
  rw [List.partition_eq_filter_filter]
  rfl

theorem verdict_failures (found : List Finding) :
    (verdict found).failures = found.filter fun finding => !finding.reason.isNotRun := by
  rw [verdict_eq]
  split
  next hnone =>
    exact (List.isEmpty_iff.mp hnone).symm
  · rfl
  · rfl

theorem verdict_eq_pass {found : List Finding} : verdict found = .pass ↔ found = [] := by
  constructor
  · intro hpass
    rw [verdict_eq] at hpass
    split at hpass
    next hnotRun hfailures =>
      rw [List.isEmpty_iff, List.filter_eq_nil_iff] at hnotRun hfailures
      rw [List.eq_nil_iff_forall_not_mem]
      intro finding hfinding
      refine hfailures finding hfinding ?_
      rw [eq_false_of_ne_true (hnotRun finding hfinding)]
      rfl
    · cases hpass
    · cases hpass
  · rintro rfl
    rfl

/-- The second run completed what the first did, and left the same transcript. -/
structure Run.Extends (run run' : Run F) : Prop where
  lane_eq : run'.lane = run.lane
  transcript_eq : run'.transcript = run.transcript
  completed : ∀ probe seen, run.completed probe = some seen → run'.completed probe = some seen

omit [Floats F] in
theorem Run.Extends.refl (run : Run F) : run.Extends run := ⟨rfl, rfl, fun _ _ hseen => hseen⟩

omit [Floats F] in
/-- In a run that observes each probe once, what completed is what it observed as completed. -/
theorem Run.completed_eq_some {run : Run F} (honce : (run.observations.map Observation.probe).Nodup)
    {probe : String} {seen : Observation F} :
    run.completed probe = some seen ↔ seen ∈ run.observations ∧ seen.probe = probe ∧
      seen.completed = true ∧ seen.failedBeforeStep = false := by
  have hfound : (run.observations.find? fun other => decide (other.probe = probe)) = some seen ↔
      seen ∈ run.observations ∧ seen.probe = probe := by
    constructor
    · intro hfound
      exact ⟨List.mem_of_find?_eq_some hfound, by simpa using List.find?_some hfound⟩
    · rintro ⟨hmem, rfl⟩
      cases hfound : run.observations.find? fun other => decide (other.probe = seen.probe) with
      | none =>
          rw [List.find?_eq_none] at hfound
          exact absurd (decide_eq_true rfl) (hfound seen hmem)
      | some other =>
          have hprobe : other.probe = seen.probe := by simpa using List.find?_some hfound
          rw [List.inj_on_of_nodup_map honce (List.mem_of_find?_eq_some hfound) hmem hprobe]
  unfold Run.completed
  rw [Option.filter_eq_some_iff, Bool.and_eq_true, Bool.not_eq_true', hfound, and_assoc]

omit [Floats F] in
/-- An observation that did not complete can give way to any other. -/
theorem Run.extends_replace {run : Run F} {before after : List (Observation F)}
    {observation other : Observation F}
    (hrun : run.observations = before ++ observation :: after)
    (hmissing : ¬ (observation.completed = true ∧ observation.failedBeforeStep = false))
    (honce : (run.observations.map Observation.probe).Nodup)
    (honce' : ((before ++ other :: after).map Observation.probe).Nodup) :
    run.Extends { run with observations := before ++ other :: after } where
  lane_eq := rfl
  transcript_eq := rfl
  completed := by
    intro probe seen hseen
    obtain ⟨hmem, hprobe, hdone⟩ := (Run.completed_eq_some honce).mp hseen
    have honce'' : (({ run with observations := before ++ other :: after } : Run F).observations.map
      Observation.probe).Nodup := honce'
    refine (Run.completed_eq_some honce'').mpr ⟨?_, hprobe, hdone⟩
    rw [hrun, List.mem_append, List.mem_cons] at hmem
    rcases hmem with hbefore | rfl | hafter
    · exact List.mem_append_left _ hbefore
    · exact absurd hdone hmissing
    · exact List.mem_append_right _ (List.mem_cons_of_mem _ hafter)

omit [Floats F] in
theorem laneRuns_extends {runs runs' : List (Run F)}
    (hruns : List.Forall₂ Run.Extends runs runs') {lane : Lane} {both : Run F × Run F}
    (hboth : laneRuns runs lane = some both) :
    ∃ both', laneRuns runs' lane = some both' ∧ both.1.Extends both'.1 ∧
      both.2.Extends both'.2 := by
  have hfilter : List.Forall₂ Run.Extends (runs.filter fun run => run.lane = lane)
      (runs'.filter fun run => run.lane = lane) := by
    refine List.rel_filter ?_ hruns
    intro run run' hextends
    change decide (run.lane = lane) = true ↔ decide (run'.lane = lane) = true
    rw [hextends.lane_eq]
  unfold laneRuns at hboth ⊢
  split at hboth
  next first second htwo =>
    cases hboth
    rw [htwo, List.forall₂_cons_left_iff] at hfilter
    obtain ⟨first', rest, hfirst, hrest, hfilter⟩ := hfilter
    obtain ⟨second', rest', hsecond, hnone, rfl⟩ := List.forall₂_cons_left_iff.mp hrest
    rw [List.forall₂_nil_left_iff] at hnone
    subst hnone
    rw [hfilter]
    exact ⟨(first', second'), rfl, hfirst, hsecond⟩
  · cases hboth

theorem shownFields_extends {manifest : Manifest F} {lane : Lane} {probe : String}
    {run run' : Run F} (hextends : run.Extends run') {fields : FieldMap F}
    (hshown : shownFields manifest lane probe run = some fields) :
    shownFields manifest lane probe run' = some fields := by
  unfold shownFields at hshown ⊢
  obtain ⟨seen, hseen, hfields⟩ := Option.bind_eq_some_iff.mp hshown
  exact Option.bind_eq_some_iff.mpr ⟨seen, hextends.completed probe seen hseen, hfields⟩

/-- What one comparison sees, the other sees too. -/
def SeenToo (seen seen' : Lane → Option (Option (FieldMap F) × Option (FieldMap F))) : Prop :=
  ∀ lane shown, seen lane = some shown → ∃ shown', seen' lane = some shown' ∧
    (∀ fields, shown.1 = some fields → shown'.1 = some fields) ∧
    ∀ fields, shown.2 = some fields → shown'.2 = some fields

theorem compareLanes_mono {subject : Subject}
    {seen seen' : Lane → Option (Option (FieldMap F) × Option (FieldMap F))}
    (hmore : SeenToo seen seen') {reach : Bool} {allowed : String → Value F → Bool}
    {finding : Finding} (hfinding : finding ∈ compareLanes subject (ranOf seen) reach allowed) :
    finding ∈ compareLanes subject (ranOf seen') reach allowed := by
  have hshowed : ∀ {lane fields}, Showed seen lane fields → Showed seen' lane fields := by
    rintro lane fields ⟨shown, hshown, heither⟩
    obtain ⟨shown', hshown', hfirst, hsecond⟩ := hmore lane shown hshown
    exact ⟨shown', hshown', heither.imp (hfirst fields) (hsecond fields)⟩
  rw [mem_compareLanes] at hfinding ⊢
  rcases hfinding with ⟨lane, first, second, field, hlane, hfield, rfl⟩ |
    ⟨hreach, ⟨fields, hopened, habsent⟩, rfl⟩ |
    ⟨field, cell, absent, hcell, habsent, hfield, rfl⟩
  · obtain ⟨⟨first', second'⟩, hlane', hfirst, hsecond⟩ := hmore lane _ hlane
    obtain rfl := hfirst first rfl
    obtain rfl := hsecond second rfl
    exact .inl ⟨lane, first, second, field, hlane', hfield, rfl⟩
  · exact .inr (.inl ⟨hreach, ⟨fields, hshowed hopened, hshowed habsent⟩, rfl⟩)
  · exact .inr (.inr ⟨field, cell, absent, hshowed hcell, hshowed habsent, hfield, rfl⟩)

omit [Floats F] in
theorem laneFindings_mono {manifest : Manifest F} {probe : String} {lane : Lane}
    {both both' : Run F × Run F} (hfirst : both.1.Extends both'.1)
    (hsecond : both.2.Extends both'.2)
    {finding : Finding} (hfailure : finding.reason.isNotRun = false)
    (hfinding : finding ∈ laneFindings manifest probe (lane, some both)) :
    finding ∈ laneFindings manifest probe (lane, some both') := by
  obtain ⟨first, second⟩ := both
  obtain ⟨first', second'⟩ := both'
  unfold laneFindings at hfinding ⊢
  rw [List.mem_append] at hfinding ⊢
  rcases hfinding with hnotRun | hname
  · split at hnotRun
    · cases hnotRun
    · rw [List.mem_singleton] at hnotRun
      subst hnotRun
      cases hfailure
  · right
    obtain ⟨name, hnames, rfl⟩ := List.mem_map.mp hname
    refine List.mem_map_of_mem ?_
    have hshown : ∀ seen, seen ∈ [first.completed probe, second.completed probe].reduceOption →
        seen ∈ [first'.completed probe, second'.completed probe].reduceOption := by
      intro seen hseen
      rw [List.reduceOption_mem_iff, List.mem_pair] at hseen ⊢
      rcases hseen with hseen | hseen
      · exact .inl (hfirst.completed probe seen hseen.symm).symm
      · exact .inr (hsecond.completed probe seen hseen.symm).symm
    rw [mem_notNeutral] at hnames ⊢
    rcases hnames with ⟨hprobe, mount, hmount, entry, hentry, ⟨seen, hseen, hshows⟩, heq⟩ |
      ⟨hprobe, ⟨seen, hseen, hshows⟩, heq⟩
    · exact .inl ⟨hprobe, mount, hmount, entry, hentry, ⟨seen, hshown seen hseen, hshows⟩, heq⟩
    · exact .inr ⟨hprobe, ⟨seen, hshown seen hseen, hshows⟩, heq⟩

/-- No failure goes away when the runs complete more. -/
theorem findings_mono {manifest : Manifest F} {runs runs' : List (Run F)}
    (hruns : List.Forall₂ Run.Extends runs runs') {finding : Finding}
    (hfailure : finding.reason.isNotRun = false)
    (hfinding : finding ∈ findings manifest (laneRuns runs)) :
    finding ∈ findings manifest (laneRuns runs') := by
  unfold findings at hfinding ⊢
  rw [List.mem_append] at hfinding ⊢
  refine hfinding.imp (fun hprobes => ?_) fun htranscripts => ?_
  · obtain ⟨probe, hprobe, hfinding⟩ := List.mem_flatMap.mp hprobes
    refine List.mem_flatMap.mpr ⟨probe, hprobe, ?_⟩
    unfold probeFindings at hfinding ⊢
    rw [List.mem_append] at hfinding ⊢
    refine hfinding.imp (fun hlanes => ?_) (compareLanes_mono ?_)
    · obtain ⟨lane, hlane, hfinding⟩ := List.mem_flatMap.mp hlanes
      refine List.mem_flatMap.mpr ⟨lane, hlane, ?_⟩
      cases hboth : laneRuns runs lane with
      | none =>
          rw [hboth] at hfinding
          rw [laneFindings, List.mem_singleton] at hfinding
          subst hfinding
          cases hfailure
      | some both =>
          obtain ⟨both', hboth', hfirst, hsecond⟩ := laneRuns_extends hruns hboth
          rw [hboth] at hfinding
          rw [hboth']
          exact laneFindings_mono hfirst hsecond hfailure hfinding
    · intro lane shown hshown
      obtain ⟨both, hboth, rfl⟩ := Option.map_eq_some_iff.mp hshown
      obtain ⟨both', hboth', hfirst, hsecond⟩ := laneRuns_extends hruns hboth
      refine ⟨_, Option.map_eq_some_iff.mpr ⟨both', hboth', rfl⟩, ?_, ?_⟩
      · exact fun fields => shownFields_extends hfirst
      · exact fun fields => shownFields_extends hsecond
  · rw [judgeTranscripts_eq, List.mem_append] at htranscripts ⊢
    rcases htranscripts with hnotRun | hcompared
    · obtain ⟨lane, -, hnotRun⟩ := List.mem_flatMap.mp hnotRun
      split at hnotRun
      · cases hnotRun
      · rw [List.mem_singleton] at hnotRun
        subst hnotRun
        cases hfailure
    · refine .inr (compareLanes_mono ?_ hcompared)
      intro lane shown hshown
      obtain ⟨both, hboth, rfl⟩ := Option.map_eq_some_iff.mp hshown
      obtain ⟨both', hboth', hfirst, hsecond⟩ := laneRuns_extends hruns hboth
      refine ⟨_, Option.map_eq_some_iff.mpr ⟨both', hboth', rfl⟩, ?_, ?_⟩
      · exact fun fields htranscript => hfirst.transcript_eq.trans htranscript
      · exact fun fields htranscript => hsecond.transcript_eq.trans htranscript

/-- An observation that completes where none did removes no failure. -/
theorem failures_mono {manifest : Manifest F} {before after : List (Run F)} {run : Run F}
    {earlier later : List (Observation F)} {observation other : Observation F}
    {judged judged' : Verdict} (hrun : run.observations = earlier ++ observation :: later)
    (hmissing : ¬ (observation.completed = true ∧ observation.failedBeforeStep = false))
    (hjudged : judge manifest (before ++ run :: after) = .ok judged)
    (hjudged' : judge manifest (before ++
      { run with observations := earlier ++ other :: later } :: after) = .ok judged') :
    ∀ finding ∈ judged.failures, finding ∈ judged'.failures := by
  obtain ⟨-, hfits, -, -, rfl⟩ := judge_eq_ok.mp hjudged
  obtain ⟨-, hfits', -, -, rfl⟩ := judge_eq_ok.mp hjudged'
  have hself : ∀ runs : List (Run F), List.Forall₂ Run.Extends runs runs := fun runs =>
    List.forall₂_same.mpr fun run _ => Run.Extends.refl run
  have hextends := Run.extends_replace hrun hmissing
    (hfits.once run (List.mem_append_right _ List.mem_cons_self))
    (hfits'.once _ (List.mem_append_right _ List.mem_cons_self))
  have hruns := List.rel_append (hself before) (List.Forall₂.cons hextends (hself after))
  intro finding hfinding
  rw [verdict_failures, List.mem_filter, Bool.not_eq_true'] at hfinding ⊢
  exact ⟨findings_mono hruns hfinding.2 hfinding.1, hfinding.2⟩

end Plasmosome.Differential
