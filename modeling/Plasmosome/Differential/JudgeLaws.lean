import Plasmosome.Differential.FindingsLaws
import Plasmosome.Differential.NormalizeLaws

/-!
# What the verdict rests on

No finding is left exactly when every lane gave full evidence and the cell shows
nothing the absent lane does not.
-/

namespace Plasmosome.Differential

open Foundation Std

variable {F : Type} [Floats F]

/-! ## Full evidence -/

/-- A mount is reported with the text under the key. -/
def Reports (seen : Observation F) (path key text : String) : Prop :=
  ∃ members, seen.fields[path]? = some (.object members) ∧
    members.lookup key = some (.string text)

/-- A mount is reported with its neutral source, type and options, and with the neutral subtype if
it is of type `fuse`. -/
structure ShowsMount (neutral : Neutral) (seen : Observation F) (mount : NeutralMount) : Prop where
  source : Reports seen mount.path "source" mount.source
  fstype : Reports seen mount.path "fstype" mount.fstype
  options : Reports seen mount.path "options" mount.options
  subtype : mount.fstype = "fuse" → Reports seen mount.path "subtype" neutral.fuseSubtype

/-- Every lane ran every probe twice and showed the neutral names, no run differs from its lane's
other run, the open lane is told from the absent lane, and the cell lane is not. -/
structure FullEvidence (manifest : Manifest F) (runs : List (Run F)) : Prop where
  two : ∀ lane, (runs.filter fun run => run.lane = lane).length = 2
  observed : ∀ run ∈ runs, ∀ probe ∈ manifest.probes, ∃ seen ∈ run.observations,
    seen.probe = probe.id ∧ seen.completed = true ∧ seen.failedBeforeStep = false
  recorded : ∀ run ∈ runs, run.transcript.isSome = true
  mounts : ∀ run ∈ runs, ∀ seen ∈ run.observations, seen.probe = manifest.neutral.mountsProbe →
    ∀ mount ∈ manifest.neutral.mounts, ShowsMount manifest.neutral seen mount
  cgroup : ∀ run ∈ runs, ∀ seen ∈ run.observations, seen.probe = manifest.neutral.cgroupProbe →
    seen.fields["path"]? = some (.string manifest.neutral.cgroupPath)
  stable : ∀ first ∈ runs, ∀ second ∈ runs, first.lane = second.lane →
    first.transcript = second.transcript ∧
      ∀ seen ∈ first.observations, ∀ other ∈ second.observations, seen.probe = other.probe →
        normalize manifest first.lane seen = normalize manifest second.lane other
  told : ∀ opened ∈ runs, ∀ absent ∈ runs, opened.lane = .open → absent.lane = .absent →
    ∀ probe ∈ manifest.probes, probe.reach.isSome = true →
      ∀ seen ∈ opened.observations, ∀ other ∈ absent.observations,
        seen.probe = probe.id → other.probe = probe.id → ∀ shown shown',
          normalize manifest .open seen = .ok shown →
          normalize manifest .absent other = .ok shown' →
            shown ≠ shown'
  hidden : ∀ cell ∈ runs, ∀ absent ∈ runs, cell.lane = .cell → absent.lane = .absent →
    cell.transcript = absent.transcript ∧
      ∀ seen ∈ cell.observations, ∀ other ∈ absent.observations, seen.probe = other.probe →
        ∀ shown shown', normalize manifest .cell seen = .ok shown →
          normalize manifest .absent other = .ok shown' →
            ∀ field, shown[field]? ≠ shown'[field]? → ∃ value, shown[field]? = some value ∧
              ∃ allowance ∈ manifest.allowances, allowance.probe = seen.probe ∧
                allowance.field = field ∧ allowance.cellValue = value

/-- No lane comparison is found when lanes agree with themselves and differ only where allowed. -/
theorem compareLanes_eq_nil {subject : Subject}
    {seen : Lane → Option (Option (FieldMap F) × Option (FieldMap F))}
    (hfull : ∀ lane, ∃ first second, seen lane = some (some first, some second)) {reach : Bool}
    {allowed : String → Value F → Bool} :
    compareLanes subject (ranOf seen) reach allowed = [] ↔
      (∀ lane first second, Showed seen lane first → Showed seen lane second → first = second) ∧
      (reach = true → ∀ first second, Showed seen .open first → Showed seen .absent second →
        first ≠ second) ∧
      ∀ cell absent, Showed seen .cell cell → Showed seen .absent absent →
        ∀ field, cell[field]? ≠ absent[field]? →
          ∃ value, cell[field]? = some value ∧ allowed field value = true := by
  rw [List.eq_nil_iff_forall_not_mem]
  simp only [mem_compareLanes]
  constructor
  · intro hnone
    refine ⟨fun lane first second hfirst hsecond => ?_,
      fun hreach first second hfirst hsecond heq => ?_,
      fun cell absent hcell habsent field hfield => ?_⟩
    · obtain ⟨one, other, hlane⟩ := hfull lane
      have hsame : one = other := by
        apply ExtTreeMap.ext_getElem?
        intro field
        by_contra hne
        exact hnone _ (.inl ⟨lane, one, other, field, hlane, hne, rfl⟩)
      subst hsame
      have hone : ∀ {fields}, Showed seen lane fields → fields = one := by
        rintro fields ⟨shown, hshown, heither⟩
        rw [hlane] at hshown
        cases hshown
        rcases heither with heq | heq <;> exact (Option.some.inj heq).symm
      rw [hone hfirst, hone hsecond]
    · subst heq
      exact hnone _ (.inr (.inl ⟨hreach, ⟨first, hfirst, hsecond⟩, rfl⟩))
    · by_contra hnot
      refine hnone _ (.inr (.inr ⟨field, cell, absent, hcell, habsent,
        mem_disallowed.mpr ⟨hfield, fun value hvalue => ?_⟩, rfl⟩))
      exact eq_false_of_ne_true fun hallowed => hnot ⟨value, hvalue, hallowed⟩
  · rintro ⟨hstable, htold, hhidden⟩ finding
      (⟨lane, first, second, field, hlane, hfield, -⟩ |
      ⟨hreach, ⟨fields, hopened, habsent⟩, -⟩ | ⟨field, cell, absent, hcell, habsent, hfield, -⟩)
    · exact hfield (congrArg (fun fields : FieldMap F => fields[field]?)
        (hstable lane first second ⟨_, hlane, .inl rfl⟩ ⟨_, hlane, .inr rfl⟩))
    · exact htold hreach fields fields hopened habsent rfl
    · rw [mem_disallowed] at hfield
      obtain ⟨value, hvalue, hallowed⟩ := hhidden cell absent hcell habsent field hfield.1
      rw [hfield.2 value hvalue] at hallowed
      cases hallowed

omit [Floats F] in
theorem laneFindings_eq_nil {manifest : Manifest F} {probe : String} {lane : Lane}
    {runs : Option (Run F × Run F)} :
    laneFindings manifest probe (lane, runs) = [] ↔ ∃ first second seen other,
      runs = some (first, second) ∧ first.completed probe = some seen ∧
        second.completed probe = some other ∧ notNeutral manifest probe [seen, other] = [] := by
  cases runs with
  | none =>
      refine iff_of_false (List.cons_ne_nil _ _) ?_
      rintro ⟨_, _, _, _, hnone, -⟩
      cases hnone
  | some both =>
      obtain ⟨first, second⟩ := both
      unfold laneFindings
      rw [List.append_eq_nil_iff, List.map_eq_nil_iff]
      constructor
      · rintro ⟨hran, hnames⟩
        split at hran
        next hboth =>
          rw [Bool.and_eq_true, Option.isSome_iff_exists, Option.isSome_iff_exists] at hboth
          obtain ⟨⟨seen, hseen⟩, other, hother⟩ := hboth
          rw [hseen, hother] at hnames
          exact ⟨first, second, seen, other, rfl, hseen, hother, hnames⟩
        · cases hran
      · rintro ⟨_, _, seen, other, ⟨⟩, hseen, hother, hnames⟩
        rw [hseen, hother]
        exact ⟨rfl, hnames⟩

omit [Floats F] in
theorem asStr_eq_some {value : Value F} {text : String} :
    value.asStr = some text ↔ value = .string text := by
  cases value <;> simp [Value.asStr]

omit [Floats F] in
/-- The code looks a mount up where it is reported. -/
theorem showsMount_iff {seen : Observation F} {path text : String} {key : MountKey} :
    seen.showsMount path key text = true ↔ Reports seen path key.name text := by
  unfold Observation.showsMount Reports
  rw [decide_eq_true_iff, Option.bind_eq_some_iff]
  simp only [Option.bind_eq_some_iff, asStr_eq_some]
  constructor
  · rintro ⟨_, ⟨reported, hreported, hget⟩, rfl⟩
    cases reported with
    | object members => exact ⟨members, hreported, hget⟩
    | _ => cases hget
  · rintro ⟨members, hreported, hlookup⟩
    exact ⟨_, ⟨_, hreported, hlookup⟩, rfl⟩

omit [Floats F] in
/-- What the code expects of a mount is what a neutral mount shows. -/
theorem expected_iff {neutral : Neutral} {seen : Observation F} {mount : NeutralMount} :
    (∀ entry ∈ neutral.expected mount, seen.showsMount mount.path entry.1 entry.2 = true) ↔
      ShowsMount neutral seen mount := by
  have hsubtype : (∀ entry ∈ (if mount.fstype = fuse then [(MountKey.subtype, neutral.fuseSubtype)]
      else []), seen.showsMount mount.path entry.1 entry.2 = true) ↔
        (mount.fstype = "fuse" → Reports seen mount.path "subtype" neutral.fuseSubtype) := by
    change _ ↔ (mount.fstype = fuse → _)
    by_cases htype : mount.fstype = fuse
    · rw [if_pos htype, List.forall_mem_singleton, showsMount_iff, forall_prop_of_true htype]
      rfl
    · rw [if_neg htype]
      exact iff_of_true nofun fun hfuse => absurd hfuse htype
  rw [Neutral.expected, List.forall_mem_append, hsubtype, List.forall_mem_cons,
    List.forall_mem_cons, List.forall_mem_singleton, showsMount_iff, showsMount_iff, showsMount_iff]
  constructor
  · rintro ⟨⟨hsource, hfstype, hoptions⟩, hfuse⟩
    exact ⟨hsource, hfstype, hoptions, hfuse⟩
  · rintro ⟨hsource, hfstype, hoptions, hfuse⟩
    exact ⟨⟨hsource, hfstype, hoptions⟩, hfuse⟩

omit [Floats F] in
theorem showsCgroup_iff {seen : Observation F} {path : String} :
    seen.showsCgroup path = true ↔ seen.fields["path"]? = some (.string path) := by
  rw [Observation.showsCgroup, decide_eq_true_iff, Option.bind_eq_some_iff]
  simp only [asStr_eq_some, exists_eq_right]

/-- An observation shows the neutral names its probe must show. -/
def ShowsNeutral (manifest : Manifest F) (probe : String) (seen : Observation F) : Prop :=
  (probe = manifest.neutral.mountsProbe → ∀ mount ∈ manifest.neutral.mounts,
    ShowsMount manifest.neutral seen mount) ∧
  (probe = manifest.neutral.cgroupProbe →
    seen.fields["path"]? = some (.string manifest.neutral.cgroupPath))

omit [Floats F] in
/-- Nothing is found not neutral when everything shown is neutral. -/
theorem notNeutral_eq_nil {manifest : Manifest F} {probe : String} {shown : List (Observation F)} :
    notNeutral manifest probe shown = [] ↔ ∀ seen ∈ shown, ShowsNeutral manifest probe seen := by
  rw [List.eq_nil_iff_forall_not_mem]
  simp only [mem_notNeutral, ShowsNeutral, ← expected_iff, ← showsCgroup_iff]
  constructor
  · intro hnone seen hseen
    refine ⟨fun hprobe mount hmount entry hentry => ?_, fun hprobe => ?_⟩
    · by_contra hshows
      exact hnone _ (.inl ⟨hprobe, mount, hmount, entry, hentry,
        ⟨seen, hseen, eq_false_of_ne_true hshows⟩, rfl⟩)
    · by_contra hshows
      exact hnone _ (.inr ⟨hprobe, ⟨seen, hseen, eq_false_of_ne_true hshows⟩, rfl⟩)
  · rintro hall name (⟨hprobe, mount, hmount, entry, hentry, ⟨seen, hseen, hshows⟩, -⟩ |
      ⟨hprobe, ⟨seen, hseen, hshows⟩, -⟩)
    · rw [(hall seen hseen).1 hprobe mount hmount entry hentry] at hshows
      cases hshows
    · rw [(hall seen hseen).2 hprobe] at hshows
      cases hshows

section Evidence

variable {manifest : Manifest F} {runs : List (Run F)} (hpaired : Paired runs)

include hpaired

omit [Floats F] in
theorem showed_laneRuns {view : Lane → Run F → Option (FieldMap F)} {lane : Lane}
    {fields : FieldMap F} :
    Showed (fun lane => (laneRuns runs lane).map fun both => (view lane both.1, view lane both.2))
      lane fields ↔ ∃ run ∈ runs, run.lane = lane ∧ view lane run = some fields := by
  have hruns : (∃ run ∈ runs, run.lane = lane ∧ view lane run = some fields) ↔
      ∃ run, (∃ first second, laneRuns runs lane = some (first, second) ∧
        (run = first ∨ run = second)) ∧ view lane run = some fields := by
    simp only [← hpaired.mem_iff, and_assoc]
  rw [hruns]
  constructor
  · rintro ⟨shown, hshown, heither⟩
    obtain ⟨⟨first, second⟩, hboth, rfl⟩ := Option.map_eq_some_iff.mp hshown
    rcases heither with hfirst | hsecond
    · exact ⟨first, ⟨first, second, hboth, .inl rfl⟩, hfirst⟩
    · exact ⟨second, ⟨first, second, hboth, .inr rfl⟩, hsecond⟩
  · rintro ⟨run, ⟨first, second, hboth, heither⟩, hview⟩
    refine ⟨_, Option.map_eq_some_iff.mpr ⟨(first, second), hboth, rfl⟩, ?_⟩
    rcases heither with rfl | rfl
    · exact .inl hview
    · exact .inr hview

omit [Floats F] in
/-- Every lane is full when it has runs and each shows something. -/
theorem full_laneRuns (view : Lane → Run F → Option (FieldMap F))
    (htwo : ∀ lane, (laneRuns runs lane).isSome = true)
    (hview : ∀ run ∈ runs, (view run.lane run).isSome = true) (lane : Lane) :
    ∃ first second, (laneRuns runs lane).map (fun both => (view lane both.1, view lane both.2)) =
      some (some first, some second) := by
  obtain ⟨⟨first, second⟩, hboth⟩ := Option.isSome_iff_exists.mp (htwo lane)
  obtain ⟨hfirst, hlane⟩ := hpaired.mem_iff.mpr ⟨first, second, hboth, .inl rfl⟩
  obtain ⟨hsecond, hlane'⟩ := hpaired.mem_iff.mpr ⟨first, second, hboth, .inr rfl⟩
  obtain ⟨fields, hfields⟩ := Option.isSome_iff_exists.mp (hview first hfirst)
  obtain ⟨fields', hfields'⟩ := Option.isSome_iff_exists.mp (hview second hsecond)
  rw [hlane] at hfields
  rw [hlane'] at hfields'
  refine ⟨fields, fields', ?_⟩
  rw [hboth, Option.map_some, hfields, hfields']

omit [Floats F] in
/-- A lane has no findings when it ran twice and its probe completed neutrally each time. -/
theorem laneFindings_nil_iff {probe : String} :
    (∀ lane, laneFindings manifest probe (lane, laneRuns runs lane) = []) ↔
      (∀ lane, (laneRuns runs lane).isSome = true) ∧ ∀ run ∈ runs, ∃ seen,
        run.completed probe = some seen ∧ ShowsNeutral manifest probe seen := by
  have hpair : ∀ seen other : Observation F, (∀ shown ∈ [seen, other],
      ShowsNeutral manifest probe shown) ↔
        ShowsNeutral manifest probe seen ∧ ShowsNeutral manifest probe other := by
    intro seen other
    rw [List.forall_mem_cons, List.forall_mem_singleton]
  simp only [laneFindings_eq_nil, notNeutral_eq_nil, hpair]
  constructor
  · intro hall
    refine ⟨fun lane => ?_, fun run hrun => ?_⟩
    · obtain ⟨first, second, seen, other, hboth, -⟩ := hall lane
      rw [hboth]
      rfl
    · obtain ⟨first, second, hboth, heither⟩ := hpaired.mem_iff.mp ⟨hrun, rfl⟩
      obtain ⟨first', second', seen, other, hboth', hseen, hother, hshows, hshows'⟩ := hall run.lane
      rw [hboth] at hboth'
      cases hboth'
      rcases heither with rfl | rfl
      · exact ⟨seen, hseen, hshows⟩
      · exact ⟨other, hother, hshows'⟩
  · rintro ⟨htwo, hruns⟩ lane
    obtain ⟨⟨first, second⟩, hboth⟩ := Option.isSome_iff_exists.mp (htwo lane)
    obtain ⟨seen, hseen, hshows⟩ := hruns first
      (hpaired.mem_iff.mpr ⟨first, second, hboth, .inl rfl⟩).1
    obtain ⟨other, hother, hshows'⟩ := hruns second
      (hpaired.mem_iff.mpr ⟨first, second, hboth, .inr rfl⟩).1
    exact ⟨first, second, seen, other, hboth, hseen, hother, hshows, hshows'⟩

omit [Floats F] in
/-- No transcript is missing when each lane ran twice and every run has one. -/
theorem transcripts_nil_iff :
    (∀ lane, (transcriptsOf (laneRuns runs) lane).any (fun shown =>
      shown.1.isSome && shown.2.isSome) = true) ↔
      (∀ lane, (laneRuns runs lane).isSome = true) ∧
        ∀ run ∈ runs, run.transcript.isSome = true := by
  constructor
  · intro hall
    have hboth : ∀ lane, ∃ first second, laneRuns runs lane = some (first, second) ∧
        first.transcript.isSome = true ∧ second.transcript.isSome = true := by
      intro lane
      obtain ⟨shown, hshown, hsome⟩ := (Option.any_eq_true _ _).mp (hall lane)
      obtain ⟨⟨first, second⟩, hruns, rfl⟩ := Option.map_eq_some_iff.mp hshown
      rw [Bool.and_eq_true] at hsome
      exact ⟨first, second, hruns, hsome⟩
    refine ⟨fun lane => ?_, fun run hrun => ?_⟩
    · obtain ⟨first, second, hruns, -⟩ := hboth lane
      rw [hruns]
      rfl
    · obtain ⟨first, second, hruns, heither⟩ := hpaired.mem_iff.mp ⟨hrun, rfl⟩
      obtain ⟨first', second', hruns', hsome, hsome'⟩ := hboth run.lane
      rw [hruns] at hruns'
      cases hruns'
      rcases heither with rfl | rfl
      · exact hsome
      · exact hsome'
  · rintro ⟨htwo, hsome⟩ lane
    obtain ⟨first, second, hfull⟩ := full_laneRuns hpaired
      (fun _ run => run.transcript) htwo hsome lane
    have hfull' : transcriptsOf (laneRuns runs) lane = some (some first, some second) := hfull
    rw [hfull']
    rfl

end Evidence

/-- There are no findings when no probe, transcript or comparison has one. -/
theorem findings_eq_nil {manifest : Manifest F} {ofLane : Lane → Option (Run F × Run F)} :
    findings manifest ofLane = [] ↔
      (∀ probe ∈ manifest.probes,
        (∀ lane, laneFindings manifest probe.id (lane, ofLane lane) = []) ∧
          compareLanes (.probe probe.id) (ranOf (shownOf manifest ofLane probe.id))
            probe.reach.isSome (manifest.allowed probe.id) = []) ∧
      (∀ lane, (transcriptsOf ofLane lane).any (fun shown =>
        shown.1.isSome && shown.2.isSome) = true) ∧
      compareLanes .transcript (ranOf (transcriptsOf ofLane)) false (fun _ _ => false) = [] := by
  unfold findings probeFindings
  rw [judgeTranscripts_eq, List.append_eq_nil_iff, List.append_eq_nil_iff, List.flatMap_eq_nil_iff,
    List.flatMap_eq_nil_iff]
  simp only [List.append_eq_nil_iff, List.flatMap_eq_nil_iff]
  refine and_congr ?_ (and_congr ?_ Iff.rfl)
  · refine forall_congr' fun probe => forall_congr' fun _ => and_congr_left fun _ => ?_
    exact ⟨fun hall lane => hall lane (mem_laneAll lane), fun hall lane _ => hall lane⟩
  · constructor
    · intro hall lane
      have hlane := hall lane (mem_laneAll lane)
      split at hlane
      next hboth => exact hboth
      · cases hlane
    · intro hall lane _
      rw [if_pos (hall lane)]

theorem allowed_iff {manifest : Manifest F} {probe field : String} {value : Value F} :
    manifest.allowed probe field value = true ↔ ∃ allowance ∈ manifest.allowances,
      allowance.probe = probe ∧ allowance.field = field ∧ allowance.cellValue = value := by
  unfold Manifest.allowed
  simp only [List.any_eq_true, Bool.and_eq_true, decide_eq_true_iff, and_assoc]

theorem shownFields_eq_some {manifest : Manifest F} {lane : Lane} {probe : String} {run : Run F}
    {fields : FieldMap F} : shownFields manifest lane probe run = some fields ↔
      ∃ seen, run.completed probe = some seen ∧ normalize manifest lane seen = .ok fields := by
  unfold shownFields
  rw [Option.bind_eq_some_iff]
  refine exists_congr fun seen => and_congr_right fun _ => ?_
  cases normalize manifest lane seen with
  | error refusal => exact iff_of_false nofun nofun
  | ok shown =>
      change some shown = some fields ↔ _
      rw [Option.some.injEq, Except.ok.injEq]

omit [Floats F] in
/-- What a run observed of a probe is what completed, when something completed. -/
theorem completed_of_mem {run : Run F} (honce : (run.observations.map Observation.probe).Nodup)
    {seen other : Observation F} (hmem : seen ∈ run.observations) {probe : String}
    (hprobe : seen.probe = probe) (hother : run.completed probe = some other) :
    run.completed probe = some seen := by
  obtain ⟨hmem', hprobe', -⟩ := (Run.completed_eq_some honce).mp hother
  rw [List.inj_on_of_nodup_map honce hmem hmem' (hprobe.trans hprobe'.symm)]
  exact hother

section Passes

variable {manifest : Manifest F} {runs : List (Run F)} (hpaired : Paired runs)

include hpaired

theorem showed_shownOf {probe : String} {lane : Lane} {fields : FieldMap F} :
    Showed (shownOf manifest (laneRuns runs) probe) lane fields ↔
      ∃ run ∈ runs, run.lane = lane ∧ shownFields manifest lane probe run = some fields :=
  showed_laneRuns hpaired

omit [Floats F] in
theorem showed_transcriptsOf {lane : Lane} {fields : FieldMap F} :
    Showed (transcriptsOf (laneRuns runs)) lane fields ↔
      ∃ run ∈ runs, run.lane = lane ∧ run.transcript = some fields :=
  showed_laneRuns hpaired

variable (hfits : FitRuns manifest runs)
  (hnormal : ∀ probe ∈ manifest.probes, ∀ lane both, laneRuns runs lane = some both →
    Normalizes manifest lane probe.id both.1 ∧ Normalizes manifest lane probe.id both.2)

include hnormal

/-- What completed was normalized. -/
theorem normalizes_of_mem {probe : ProbeSpec} (hprobe : probe ∈ manifest.probes) {run : Run F}
    (hrun : run ∈ runs) : Normalizes manifest run.lane probe.id run := by
  obtain ⟨first, second, hboth, heither⟩ := hpaired.mem_iff.mp ⟨hrun, rfl⟩
  obtain ⟨hfirst, hsecond⟩ := hnormal probe hprobe run.lane _ hboth
  rcases heither with heq | heq
  · exact heq ▸ hfirst
  · exact heq ▸ hsecond

theorem shown_of_completed {probe : ProbeSpec} (hprobe : probe ∈ manifest.probes)
    (hcompleted : ∀ run ∈ runs, ∃ seen, run.completed probe.id = some seen) :
    ∀ run ∈ runs, (shownFields manifest run.lane probe.id run).isSome = true := by
  intro run hrun
  obtain ⟨seen, hseen⟩ := hcompleted run hrun
  obtain ⟨fields, hfields⟩ := normalizes_of_mem hpaired hnormal hprobe hrun seen hseen
  rw [shownFields_eq_some.mpr ⟨seen, hseen, hfields⟩]
  rfl

/-- Every lane is full when every run completed the probe. -/
theorem full_shownOf {probe : ProbeSpec} (hprobe : probe ∈ manifest.probes)
    (htwo : ∀ lane, (laneRuns runs lane).isSome = true)
    (hcompleted : ∀ run ∈ runs, ∃ seen, run.completed probe.id = some seen) :
    ∀ lane, ∃ first second,
      shownOf manifest (laneRuns runs) probe.id lane = some (some first, some second) :=
  full_laneRuns hpaired (fun lane run => shownFields manifest lane probe.id run) htwo
    (shown_of_completed hpaired hnormal hprobe hcompleted)

omit [Floats F] hnormal in
theorem full_transcriptsOf (htwo : ∀ lane, (laneRuns runs lane).isSome = true)
    (hrecorded : ∀ run ∈ runs, run.transcript.isSome = true) :
    ∀ lane, ∃ first second, transcriptsOf (laneRuns runs) lane = some (some first, some second) :=
  full_laneRuns hpaired (fun _ run => run.transcript) htwo hrecorded

include hfits

/-- Runs without findings are full evidence. -/
theorem evidence_of_nil (hnil : findings manifest (laneRuns runs) = []) :
    FullEvidence manifest runs := by
  obtain ⟨hprobes, htranscripts, hcompared⟩ := findings_eq_nil.mp hnil
  obtain ⟨htwo, hrecorded⟩ := (transcripts_nil_iff hpaired).mp htranscripts
  have hneutral : ∀ probe ∈ manifest.probes, ∀ run ∈ runs, ∃ seen,
      run.completed probe.id = some seen ∧ ShowsNeutral manifest probe.id seen :=
    fun probe hprobe => ((laneFindings_nil_iff hpaired).mp (hprobes probe hprobe).1).2
  have hcompleted : ∀ probe ∈ manifest.probes, ∀ run ∈ runs, ∃ seen,
      run.completed probe.id = some seen := fun probe hprobe run hrun =>
    (hneutral probe hprobe run hrun).imp fun seen hseen => hseen.1
  -- Every observation is of a declared probe, so it is what completed there.
  have hobserved : ∀ run ∈ runs, ∀ seen ∈ run.observations, ∃ probe ∈ manifest.probes,
      probe.id = seen.probe ∧ run.completed probe.id = some seen := by
    intro run hrun seen hseen
    obtain ⟨probe, hprobe, hid⟩ := List.mem_map.mp (hfits.declared run hrun seen hseen)
    obtain ⟨other, hother⟩ := hcompleted probe hprobe run hrun
    exact ⟨probe, hprobe, hid, completed_of_mem (hfits.once run hrun) hseen hid.symm hother⟩
  have hcompare := fun probe hprobe =>
    (compareLanes_eq_nil (full_shownOf hpaired hnormal hprobe htwo (hcompleted probe hprobe))).mp
      (hprobes probe hprobe).2
  have htranscript :=
    (compareLanes_eq_nil (full_transcriptsOf hpaired htwo hrecorded)).mp hcompared
  have hshowed : ∀ probe ∈ manifest.probes, ∀ run ∈ runs, ∀ lane, run.lane = lane → ∀ seen,
      run.completed probe.id = some seen → ∀ fields, normalize manifest lane seen = .ok fields →
        Showed (shownOf manifest (laneRuns runs) probe.id) lane fields := by
    intro probe _ run hrun lane hlane seen hseen fields hfields
    exact (showed_shownOf hpaired).mpr
      ⟨run, hrun, hlane, shownFields_eq_some.mpr ⟨seen, hseen, hfields⟩⟩
  have hrecords : ∀ run ∈ runs, ∀ lane, run.lane = lane → ∃ fields, run.transcript = some fields ∧
      Showed (transcriptsOf (laneRuns runs)) lane fields := by
    intro run hrun lane hlane
    obtain ⟨fields, hfields⟩ := Option.isSome_iff_exists.mp (hrecorded run hrun)
    exact ⟨fields, hfields, (showed_transcriptsOf hpaired).mpr ⟨run, hrun, hlane, hfields⟩⟩
  refine ⟨fun lane => ?_, fun run hrun probe hprobe => ?_, hrecorded, ?_, ?_, ?_, ?_, ?_⟩
  · have hsome := htwo lane
    unfold laneRuns at hsome
    split at hsome
    next first second hruns => rw [hruns]; rfl
    · cases hsome
  · obtain ⟨seen, hseen⟩ := hcompleted probe hprobe run hrun
    exact ⟨seen, (Run.completed_eq_some (hfits.once run hrun)).mp hseen⟩
  · intro run hrun seen hseen hmounts
    obtain ⟨probe, hprobe, hid, hdone⟩ := hobserved run hrun seen hseen
    obtain ⟨other, hother, hshows⟩ := hneutral probe hprobe run hrun
    rw [hdone] at hother
    cases hother
    exact hshows.1 (hid.trans hmounts)
  · intro run hrun seen hseen hcgroup
    obtain ⟨probe, hprobe, hid, hdone⟩ := hobserved run hrun seen hseen
    obtain ⟨other, hother, hshows⟩ := hneutral probe hprobe run hrun
    rw [hdone] at hother
    cases hother
    exact hshows.2 (hid.trans hcgroup)
  · intro first hfirst second hsecond hlane
    constructor
    · obtain ⟨fields, hfields, hshown⟩ := hrecords first hfirst second.lane hlane
      obtain ⟨fields', hfields', hshown'⟩ := hrecords second hsecond second.lane rfl
      rw [hfields, hfields', htranscript.1 second.lane fields fields' hshown hshown']
    · intro seen hseen other hother hsame
      obtain ⟨probe, hprobe, hid, hdone⟩ := hobserved first hfirst seen hseen
      obtain ⟨probe', hprobe', hid', hdone'⟩ := hobserved second hsecond other hother
      have hprobes : probe'.id = probe.id := hid'.trans (hsame.symm.trans hid.symm)
      rw [hprobes] at hdone'
      obtain ⟨fields, hfields⟩ := normalizes_of_mem hpaired hnormal hprobe hfirst seen hdone
      obtain ⟨fields', hfields'⟩ := normalizes_of_mem hpaired hnormal hprobe hsecond other hdone'
      have hequal := (hcompare probe hprobe).1 first.lane fields fields'
        (hshowed probe hprobe first hfirst first.lane rfl seen hdone fields hfields)
        (hshowed probe hprobe second hsecond first.lane hlane.symm other hdone' fields'
          (hlane.symm ▸ hfields'))
      rw [hfields, hfields', hequal]
  · intro opened hopened absent habsent hlane hlane' probe hprobe hreach seen hseen other hother
      hid hid' shown shown' hshown hshown'
    obtain ⟨held, hheld⟩ := hcompleted probe hprobe opened hopened
    obtain ⟨held', hheld'⟩ := hcompleted probe hprobe absent habsent
    have hdone := completed_of_mem (hfits.once opened hopened) hseen hid hheld
    have hdone' := completed_of_mem (hfits.once absent habsent) hother hid' hheld'
    exact (hcompare probe hprobe).2.1 hreach shown shown'
      (hshowed probe hprobe opened hopened .open hlane seen hdone shown hshown)
      (hshowed probe hprobe absent habsent .absent hlane' other hdone' shown' hshown')
  · intro cell hcell absent habsent hlane hlane'
    constructor
    · obtain ⟨fields, hfields, hshown⟩ := hrecords cell hcell .cell hlane
      obtain ⟨fields', hfields', hshown'⟩ := hrecords absent habsent .absent hlane'
      rw [hfields, hfields', Option.some.injEq]
      apply ExtTreeMap.ext_getElem?
      intro field
      by_contra hne
      obtain ⟨value, -, hallowed⟩ := htranscript.2.2 fields fields' hshown hshown' field hne
      cases hallowed
    · intro seen hseen other hother hsame shown shown' hshown hshown' field hfield
      obtain ⟨probe, hprobe, hid, hdone⟩ := hobserved cell hcell seen hseen
      obtain ⟨probe', hprobe', hid', hdone'⟩ := hobserved absent habsent other hother
      have hprobes : probe'.id = probe.id := hid'.trans (hsame.symm.trans hid.symm)
      rw [hprobes] at hdone'
      obtain ⟨value, hvalue, hallowed⟩ := (hcompare probe hprobe).2.2 shown shown'
        (hshowed probe hprobe cell hcell .cell hlane seen hdone shown hshown)
        (hshowed probe hprobe absent habsent .absent hlane' other hdone' shown' hshown')
        field hfield
      rw [allowed_iff, hid] at hallowed
      exact ⟨value, hvalue, hallowed⟩

/-- Full evidence leaves no findings. -/
theorem nil_of_evidence (hevidence : FullEvidence manifest runs) :
    findings manifest (laneRuns runs) = [] := by
  have htwo : ∀ lane, (laneRuns runs lane).isSome = true := by
    intro lane
    obtain ⟨first, second, hruns⟩ := List.length_eq_two.mp (hevidence.two lane)
    rw [laneRuns, hruns]
    rfl
  have hcompleted : ∀ probe ∈ manifest.probes, ∀ run ∈ runs, ∃ seen,
      run.completed probe.id = some seen := by
    intro probe hprobe run hrun
    obtain ⟨seen, hseen⟩ := hevidence.observed run hrun probe hprobe
    exact ⟨seen, (Run.completed_eq_some (hfits.once run hrun)).mpr hseen⟩
  -- What is shown of a probe was observed, and normalized.
  have hshowed : ∀ {probe : ProbeSpec} {lane : Lane} {fields : FieldMap F},
      Showed (shownOf manifest (laneRuns runs) probe.id) lane fields → ∃ run ∈ runs,
        run.lane = lane ∧ ∃ seen ∈ run.observations, seen.probe = probe.id ∧
          normalize manifest lane seen = .ok fields := by
    intro probe lane fields hshown
    obtain ⟨run, hrun, hlane, hfields⟩ := (showed_shownOf hpaired).mp hshown
    obtain ⟨seen, hseen, hnormalized⟩ := shownFields_eq_some.mp hfields
    obtain ⟨hmem, hid, -⟩ := (Run.completed_eq_some (hfits.once run hrun)).mp hseen
    exact ⟨run, hrun, hlane, seen, hmem, hid, hnormalized⟩
  refine findings_eq_nil.mpr ⟨fun probe hprobe => ⟨?_, ?_⟩,
    (transcripts_nil_iff hpaired).mpr ⟨htwo, hevidence.recorded⟩, ?_⟩
  · refine (laneFindings_nil_iff hpaired).mpr ⟨htwo, fun run hrun => ?_⟩
    obtain ⟨seen, hseen⟩ := hcompleted probe hprobe run hrun
    obtain ⟨hmem, hid, -⟩ := (Run.completed_eq_some (hfits.once run hrun)).mp hseen
    refine ⟨seen, hseen, fun hmounts => ?_, fun hcgroup => ?_⟩
    · exact hevidence.mounts run hrun seen hmem (hid.trans hmounts)
    · exact hevidence.cgroup run hrun seen hmem (hid.trans hcgroup)
  · refine (compareLanes_eq_nil (full_shownOf hpaired hnormal hprobe htwo
      (hcompleted probe hprobe))).mpr ⟨?_, ?_, ?_⟩
    · intro lane first second hfirst hsecond
      obtain ⟨run, hrun, rfl, seen, hseen, hid, hfields⟩ := hshowed hfirst
      obtain ⟨run', hrun', hlane, other, hother, hid', hfields'⟩ := hshowed hsecond
      have hequal := (hevidence.stable run hrun run' hrun' hlane.symm).2 seen hseen other hother
        (hid.trans hid'.symm)
      rw [hfields, hlane, hfields', Except.ok.injEq] at hequal
      exact hequal
    · intro hreach first second hfirst hsecond
      obtain ⟨run, hrun, hlane, seen, hseen, hid, hfields⟩ := hshowed hfirst
      obtain ⟨run', hrun', hlane', other, hother, hid', hfields'⟩ := hshowed hsecond
      exact hevidence.told run hrun run' hrun' hlane hlane' probe hprobe hreach seen hseen other
        hother hid hid' first second hfields hfields'
    · intro cell absent hcell habsent field hfield
      obtain ⟨run, hrun, hlane, seen, hseen, hid, hfields⟩ := hshowed hcell
      obtain ⟨run', hrun', hlane', other, hother, hid', hfields'⟩ := hshowed habsent
      obtain ⟨value, hvalue, hallowed⟩ := (hevidence.hidden run hrun run' hrun' hlane hlane').2 seen
        hseen other hother (hid.trans hid'.symm) cell absent hfields hfields' field hfield
      rw [hid] at hallowed
      exact ⟨value, hvalue, allowed_iff.mpr hallowed⟩
  · refine (compareLanes_eq_nil (full_transcriptsOf hpaired htwo
      hevidence.recorded)).mpr ⟨?_, by simp, ?_⟩
    · intro lane first second hfirst hsecond
      obtain ⟨run, hrun, rfl, hfields⟩ := (showed_transcriptsOf hpaired).mp hfirst
      obtain ⟨run', hrun', hlane, hfields'⟩ := (showed_transcriptsOf hpaired).mp hsecond
      have hequal := (hevidence.stable run hrun run' hrun' hlane.symm).1
      rw [hfields, hfields', Option.some.injEq] at hequal
      exact hequal
    · intro cell absent hcell habsent field hfield
      obtain ⟨run, hrun, hlane, hfields⟩ := (showed_transcriptsOf hpaired).mp hcell
      obtain ⟨run', hrun', hlane', hfields'⟩ := (showed_transcriptsOf hpaired).mp habsent
      have hequal := (hevidence.hidden run hrun run' hrun' hlane hlane').1
      rw [hfields, hfields', Option.some.injEq] at hequal
      exact absurd (congrArg (fun fields : FieldMap F => fields[field]?) hequal) hfield

end Passes

/-- The differential passes on full evidence only; its verdict is the same for every order of the
runs, and no failure goes away when an observation that did not complete gives way to another. -/
theorem differential_passes_on_full_evidence (manifest : Manifest F) (runs : List (Run F))
    (judged : Verdict) (hjudged : judge manifest runs = .ok judged) :
    (judged = .pass ↔ FullEvidence manifest runs) ∧
      (∀ runs', runs'.Perm runs → judge manifest runs' = .ok judged) ∧
      ∀ before run after earlier observation other later judged',
        runs = before ++ run :: after → run.observations = earlier ++ observation :: later →
        ¬ (observation.completed = true ∧ observation.failedBeforeStep = false) →
        judge manifest (before ++ { run with observations := earlier ++ other :: later } :: after) =
          .ok judged' → ∀ finding ∈ judged.failures, finding ∈ judged'.failures := by
  refine ⟨?_, fun runs' => judge_of_perm hjudged, ?_⟩
  · obtain ⟨-, hfits, hpaired, hnormal, rfl⟩ := judge_eq_ok.mp hjudged
    rw [verdict_eq_pass]
    exact ⟨evidence_of_nil hpaired hfits hnormal, nil_of_evidence hpaired hfits hnormal⟩
  · rintro before run after earlier observation other later judged' rfl hrun hmissing hjudged'
    exact failures_mono hrun hmissing hjudged hjudged'

/-! ## Six runs -/

section Sample

/-- Fields without a rule are shown as they are. -/
theorem normalize_of_unruled {manifest : Manifest F} (lane : Lane) {observation : Observation F}
    (hunruled : ∀ rule ∈ manifest.rules, observation.fields[rule.field]? = none) :
    normalize manifest lane observation = .ok observation.fields := by
  have hrun : ∀ rules : List Rule, (∀ rule ∈ rules, observation.fields[rule.field]? = none) →
      rules.foldlM (normalizeRule lane) ⟨observation.fields, fun _ => []⟩ =
        .ok ⟨observation.fields, fun _ => []⟩ := by
    intro rules hrules
    induction rules with
    | nil => rfl
    | cons rule rest ih =>
        obtain ⟨hhead, hrest⟩ := List.forall_mem_cons.mp hrules
        have hrule : normalizeRule lane ⟨observation.fields, fun _ => []⟩ rule =
            .ok ⟨observation.fields, fun _ => []⟩ := by
          unfold normalizeRule
          rw [hhead]
        rw [List.foldlM_cons, hrule]
        exact ih hrest
  rw [normalize, hrun _ fun rule hrule => hunruled rule
    (List.mem_of_mem_filter ((manifest.mem_rulesOf observation.probe rule).mp hrule))]
  rfl

def sampleMount (mount : NeutralMount) : Value Int :=
  .object [("source", .string mount.source), ("fstype", .string mount.fstype),
    ("options", .string mount.options), ("subtype", .string "disk")]

def reachProbes : List String :=
  ["host.a", "host.b", "host.c", "path.a", "path.b", "path.c", "use.a", "use.b", "use.c"]

/-- What a probe shows in a lane: the neutral names, what only the open lane reaches, and a field
in which the cell may differ. -/
def sampleShown (lane : Lane) (probe : String) : FieldMap Int :=
  if probe = "mounts" then
    (((∅ : FieldMap Int).insert "/opt" (sampleMount ⟨"/opt", "a", "ext4", "ro"⟩)).insert
      "/usr/local/bin" (sampleMount ⟨"/usr/local/bin", "b", "ext4", "ro"⟩)).insert
        "/work" (sampleMount ⟨"/work", "c", "fuse", "rw"⟩)
  else if probe = "cgroup" then (∅ : FieldMap Int).insert "path" (.string "/")
  else if probe ∈ reachProbes then
    if lane = .open then (∅ : FieldMap Int).insert "reached" (.bool true) else ∅
  else if probe = "see.a" then (∅ : FieldMap Int).insert "shown" (.bool (lane = .cell))
  else ∅

def sampleRun (lane : Lane) (boot : String) : Run Int where
  lane := lane
  bootId := boot
  observations := sampleProbes.map fun probe => ⟨probe.id, true, false, sampleShown lane probe.id⟩
  transcript := some ((∅ : FieldMap Int).insert "code" (.number (.posInt 0)))

def sampleRuns : List (Run Int) :=
  [sampleRun .cell "1", sampleRun .open "2", sampleRun .absent "3", sampleRun .cell "4",
    sampleRun .open "5", sampleRun .absent "6"]

theorem mem_sampleRuns {run : Run Int} (hrun : run ∈ sampleRuns) :
    ∃ boot, run = sampleRun run.lane boot := by
  simp only [sampleRuns, List.mem_cons, List.not_mem_nil, or_false] at hrun
  rcases hrun with rfl | rfl | rfl | rfl | rfl | rfl <;> exact ⟨_, rfl⟩

theorem mem_observations {run : Run Int} (hrun : run ∈ sampleRuns) {seen : Observation Int}
    (hseen : seen ∈ run.observations) :
    ∃ probe ∈ sampleProbes, seen = ⟨probe.id, true, false, sampleShown run.lane probe.id⟩ := by
  obtain ⟨boot, hboot⟩ := mem_sampleRuns hrun
  rw [hboot] at hseen
  obtain ⟨probe, hprobe, rfl⟩ := List.mem_map.mp hseen
  exact ⟨probe, hprobe, rfl⟩

theorem observed_eq {run : Run Int} (hrun : run ∈ sampleRuns) {seen : Observation Int}
    (hseen : seen ∈ run.observations) :
    seen = ⟨seen.probe, true, false, sampleShown run.lane seen.probe⟩ := by
  obtain ⟨probe, -, rfl⟩ := mem_observations hrun hseen
  rfl

theorem sampleRuns_fit : FitRuns sampleManifest sampleRuns where
  boots := by decide
  declared := by
    intro run hrun observation hobservation
    obtain ⟨probe, hprobe, rfl⟩ := mem_observations hrun hobservation
    exact List.mem_map_of_mem hprobe
  once := by
    intro run hrun
    obtain ⟨boot, hboot⟩ := mem_sampleRuns hrun
    rw [hboot]
    change (sampleManifest.ids.map id).Nodup
    rw [List.map_id]
    exact Manifest.validate_probes sampleManifest_validate

theorem sampleRuns_paired : Paired sampleRuns := by
  intro lane
  cases lane <;> exact .inr ⟨_, _, rfl⟩

theorem sampleRuns_normalize (lane : Lane) {run : Run Int} (hrun : run ∈ sampleRuns)
    {seen : Observation Int} (hseen : seen ∈ run.observations) :
    normalize sampleManifest lane seen = .ok seen.fields := by
  refine normalize_of_unruled lane fun rule hrule => ?_
  have hfield : rule.field ∈ ["parents", "roots", "taken", "times"] :=
    List.mem_map_of_mem (f := Rule.field) hrule
  rw [observed_eq hrun hseen]
  dsimp only
  simp only [List.mem_cons, List.not_mem_nil, or_false] at hfield
  unfold sampleShown
  rcases hfield with heq | heq | heq | heq <;> rw [heq] <;> split_ifs <;>
    simp

theorem sampleRuns_judge : judge sampleManifest sampleRuns =
    .ok (verdict (findings sampleManifest (laneRuns sampleRuns))) := by
  refine judge_eq_ok.mpr ⟨sampleManifest_validate, sampleRuns_fit, sampleRuns_paired, ?_, rfl⟩
  have hnormal : ∀ run ∈ sampleRuns, ∀ lane probe, Normalizes sampleManifest lane probe run := by
    intro run hrun lane probe seen hseen
    obtain ⟨hmem, -⟩ := (Run.completed_eq_some (sampleRuns_fit.once run hrun)).mp hseen
    exact ⟨_, sampleRuns_normalize lane hrun hmem⟩
  intro probe _ lane both hboth
  have hfirst := sampleRuns_paired.mem_iff.mpr ⟨both.1, both.2, hboth, .inl rfl⟩
  have hsecond := sampleRuns_paired.mem_iff.mpr ⟨both.1, both.2, hboth, .inr rfl⟩
  exact ⟨hnormal _ hfirst.1 lane probe.id, hnormal _ hsecond.1 lane probe.id⟩

/-- The sample runs are full evidence. -/
theorem sampleRuns_evidence : FullEvidence sampleManifest sampleRuns where
  two lane := by cases lane <;> rfl
  observed run hrun probe hprobe := by
    obtain ⟨boot, hboot⟩ := mem_sampleRuns hrun
    rw [hboot]
    exact ⟨_, List.mem_map_of_mem hprobe, rfl, rfl, rfl⟩
  recorded run hrun := by
    obtain ⟨boot, hboot⟩ := mem_sampleRuns hrun
    rw [hboot]
    rfl
  mounts run hrun seen hseen hprobe mount hmount := by
    have hfields : seen.fields = sampleShown run.lane "mounts" := by
      rw [observed_eq hrun hseen, hprobe]
      rfl
    have hreports : seen.fields[mount.path]? = some (sampleMount mount) := by
      rw [hfields, sampleShown, if_pos rfl]
      simp only [sampleManifest, List.mem_cons, List.not_mem_nil, or_false] at hmount
      rcases hmount with rfl | rfl | rfl <;> simp only [OrderedMap.getElem?_insert'] <;> rfl
    exact ⟨⟨_, hreports, rfl⟩, ⟨_, hreports, rfl⟩, ⟨_, hreports, rfl⟩, fun _ => ⟨_, hreports, rfl⟩⟩
  cgroup run hrun seen hseen hprobe := by
    have hfields : seen.fields = sampleShown run.lane "cgroup" := by
      rw [observed_eq hrun hseen, hprobe]
      rfl
    rw [hfields, sampleShown, if_neg (by decide), if_pos rfl, ExtTreeMap.getElem?_insert_self]
    rfl
  stable first hfirst second hsecond hlane := by
    obtain ⟨boot, hboot⟩ := mem_sampleRuns hfirst
    obtain ⟨boot', hboot'⟩ := mem_sampleRuns hsecond
    refine ⟨by rw [hboot, hboot']; rfl, fun seen hseen other hother hsame => ?_⟩
    rw [observed_eq hfirst hseen, observed_eq hsecond hother, hsame, hlane]
  told opened hopened absent habsent hlane hlane' probe hprobe hreach seen hseen other hother
      hid hid' shown shown' hshown hshown' := by
    have hmem : probe.id ∈ reachProbes := by
      have hall : ∀ probe ∈ sampleProbes, probe.reach.isSome = true → probe.id ∈ reachProbes := by
        decide
      exact hall probe hprobe hreach
    rw [sampleRuns_normalize .open hopened hseen, Except.ok.injEq] at hshown
    rw [sampleRuns_normalize .absent habsent hother, Except.ok.injEq] at hshown'
    rw [← hshown, ← hshown', observed_eq hopened hseen, observed_eq habsent hother, hid, hid',
      hlane,
      hlane']
    have hnames : probe.id ≠ "mounts" ∧ probe.id ≠ "cgroup" := by
      have hall : ∀ id ∈ reachProbes, id ≠ "mounts" ∧ id ≠ "cgroup" := by decide
      exact hall _ hmem
    intro hequal
    simp only [sampleShown, if_neg hnames.1, if_neg hnames.2, if_pos hmem, if_true] at hequal
    have hreached := congrArg (fun fields : FieldMap Int => fields["reached"]?) hequal
    simp at hreached
  hidden cell hcell' absent habsent hlane hlane' := by
    obtain ⟨boot, hboot⟩ := mem_sampleRuns hcell'
    obtain ⟨boot', hboot'⟩ := mem_sampleRuns habsent
    refine ⟨by rw [hboot, hboot']; rfl,
      fun seen hseen other hother hsame shown shown' hshown hshown'
      field hfield => ?_⟩
    rw [sampleRuns_normalize .cell hcell' hseen, Except.ok.injEq] at hshown
    rw [sampleRuns_normalize .absent habsent hother, Except.ok.injEq] at hshown'
    rw [← hshown, ← hshown', observed_eq hcell' hseen, observed_eq habsent hother, ← hsame, hlane,
      hlane'] at hfield
    -- Only the field an allowance covers differs.
    by_cases hprobe : seen.probe = "see.a"
    · rw [hprobe] at hfield
      have hcell : sampleShown .cell "see.a" = (∅ : FieldMap Int).insert "shown" (.bool true) := rfl
      have habsent : sampleShown .absent "see.a" =
          (∅ : FieldMap Int).insert "shown" (.bool false) := rfl
      rw [hcell, habsent, OrderedMap.getElem?_insert', OrderedMap.getElem?_insert'] at hfield
      by_cases hname : "shown" = field
      · refine ⟨.bool true, ?_, _, List.mem_singleton_self _, hprobe.symm, hname, rfl⟩
        rw [← hshown, observed_eq hcell' hseen, hlane, hprobe, hcell, ← hname,
          ExtTreeMap.getElem?_insert_self]
      · rw [if_neg hname, if_neg hname] at hfield
        exact absurd rfl hfield
    · have hsame : sampleShown .cell seen.probe = sampleShown .absent seen.probe := by
        simp only [sampleShown, if_neg hprobe, reduceCtorEq, if_false]
      rw [hsame] at hfield
      exact absurd rfl hfield

/-- Runs with full evidence pass, in any order. -/
theorem differential_passes_on_full_evidence_sample :
    judge sampleManifest sampleRuns.reverse = .ok .pass := by
  have hpass := (differential_passes_on_full_evidence sampleManifest sampleRuns _
    sampleRuns_judge).1.mpr sampleRuns_evidence
  exact (differential_passes_on_full_evidence sampleManifest sampleRuns .pass
    (hpass ▸ sampleRuns_judge)).2.1 _ (List.reverse_perm sampleRuns)

end Sample

end Plasmosome.Differential
