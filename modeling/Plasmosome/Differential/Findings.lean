import Plasmosome.Differential.Judge
import Plasmosome.Foundation.Each

/-!
# The findings of a judgement

When the runs can be judged, the verdict is made of findings about each probe and
about the transcripts, and a comparison finds a failure exactly where two lanes
or two runs of one lane differ.
-/

namespace Plasmosome.Differential

open Foundation Std

variable {F : Type} [Floats F]

/-! ## Fields that differ -/

theorem mem_differing {first second : FieldMap F} {field : String} :
    field ∈ differing first second ↔ first[field]? ≠ second[field]? := by
  unfold differing
  rw [List.mem_filter, ExtTreeSet.mem_toList, ExtTreeSet.mem_ofList, decide_eq_true_iff]
  refine and_iff_right_of_imp fun hne => ?_
  rw [List.contains_iff_mem, List.mem_append, ExtTreeMap.mem_keys, ExtTreeMap.mem_keys]
  by_contra hnone
  rw [not_or, ExtTreeMap.mem_iff_isSome_getElem?, ExtTreeMap.mem_iff_isSome_getElem?,
    Option.not_isSome_iff_eq_none, Option.not_isSome_iff_eq_none] at hnone
  exact hne (hnone.1.trans hnone.2.symm)

theorem differing_comm (first second : FieldMap F) :
    differing first second = differing second first := by
  unfold differing
  have hkeys : ExtTreeSet.ofList (first.keys ++ second.keys) compare =
      ExtTreeSet.ofList (second.keys ++ first.keys) compare := by
    apply ExtTreeSet.ext_mem
    intro key
    rw [ExtTreeSet.mem_ofList, ExtTreeSet.mem_ofList, List.contains_iff_mem, List.contains_iff_mem,
      List.mem_append, List.mem_append, or_comm]
  rw [hkeys]
  apply List.filter_congr
  intro key _
  rw [decide_eq_decide]
  exact ne_comm

/-! ## Neutral names -/

omit [Floats F] in
theorem mem_notNeutral {manifest : Manifest F} {probe : String} {shown : List (Observation F)}
    {name : NeutralName} :
    name ∈ notNeutral manifest probe shown ↔
      (probe = manifest.neutral.mountsProbe ∧ ∃ mount ∈ manifest.neutral.mounts,
        ∃ entry ∈ manifest.neutral.expected mount,
          (∃ seen ∈ shown, seen.showsMount mount.path entry.1 entry.2 = false) ∧
            NeutralName.mount mount.path entry.1 = name) ∨
      (probe = manifest.neutral.cgroupProbe ∧
        (∃ seen ∈ shown, seen.showsCgroup manifest.neutral.cgroupPath = false) ∧
          name = .cgroupPath) := by
  unfold notNeutral
  rw [List.mem_append]
  refine or_congr ?_ ?_
  · split
    next hprobe =>
      rw [and_iff_right hprobe, List.mem_flatMap]
      refine exists_congr fun mount => and_congr_right fun _ => ?_
      simp only [List.mem_map, List.mem_filter, List.any_eq_true, Bool.not_eq_true', and_assoc]
    next hprobe => exact iff_of_false List.not_mem_nil fun hboth => hprobe hboth.1
  · split
    next hprobe =>
      rw [List.mem_singleton, and_iff_right hprobe.1]
      refine (and_iff_right ?_).symm
      simpa only [List.any_eq_true, Bool.not_eq_true'] using hprobe.2
    next hprobe =>
      refine iff_of_false List.not_mem_nil fun hboth => hprobe ⟨hboth.1, ?_⟩
      simpa only [List.any_eq_true, Bool.not_eq_true'] using hboth.2.1

omit [Floats F] in
/-- Which names are not neutral depends on what was shown, not on its order. -/
theorem notNeutral_congr {manifest : Manifest F} {probe : String}
    {shown shown' : List (Observation F)} (hshown : ∀ seen, seen ∈ shown ↔ seen ∈ shown') :
    notNeutral manifest probe shown = notNeutral manifest probe shown' := by
  have hany : ∀ test : Observation F → Bool, shown.any test = shown'.any test := by
    intro test
    rw [Bool.eq_iff_iff, List.any_eq_true, List.any_eq_true]
    exact exists_congr fun seen => and_congr_left fun _ => hshown seen
  simp only [notNeutral, hany]

/-! ## What the lanes showed -/

/-- The lanes that have runs, in order. -/
def ranOf (seen : Lane → Option (Option (FieldMap F) × Option (FieldMap F))) : List (Ran F) :=
  Lane.all.filterMap fun lane => (seen lane).map fun shown => (lane, shown)

/-- A run of the lane completed and showed the fields. -/
def Showed (seen : Lane → Option (Option (FieldMap F) × Option (FieldMap F))) (lane : Lane)
    (fields : FieldMap F) : Prop :=
  ∃ shown, seen lane = some shown ∧ (shown.1 = some fields ∨ shown.2 = some fields)

theorem mem_laneAll (lane : Lane) : lane ∈ Lane.all := by cases lane <;> decide

omit [Floats F] in
theorem mem_ranOf {seen : Lane → Option (Option (FieldMap F) × Option (FieldMap F))}
    {entry : Ran F} : entry ∈ ranOf seen ↔ seen entry.1 = some entry.2 := by
  obtain ⟨lane, shown⟩ := entry
  unfold ranOf
  rw [List.mem_filterMap]
  constructor
  · rintro ⟨other, -, hother⟩
    rw [Option.map_eq_some_iff] at hother
    obtain ⟨found, hfound, heq⟩ := hother
    cases heq
    exact hfound
  · exact fun hshown => ⟨lane, mem_laneAll lane, Option.map_eq_some_iff.mpr ⟨shown, hshown, rfl⟩⟩

omit [Floats F] in
theorem lookup_ranOf (seen : Lane → Option (Option (FieldMap F) × Option (FieldMap F)))
    (lane : Lane) : (ranOf seen).lookup lane = seen lane := by
  have hlookup : ∀ lanes : List Lane, lane ∈ lanes →
      (lanes.filterMap fun lane => (seen lane).map fun shown => (lane, shown)).lookup lane =
        seen lane := by
    intro lanes hlane
    induction lanes with
    | nil => cases hlane
    | cons head rest ih =>
        by_cases hhead : lane = head
        · subst hhead
          cases hseen : seen lane with
          | some shown => simp [hseen]
          | none =>
              rw [List.filterMap_cons_none (by rw [hseen]; rfl), List.lookup_eq_none_iff]
              rintro entry hentry
              obtain ⟨other, -, hother⟩ := List.mem_filterMap.mp hentry
              obtain ⟨shown, hshown, rfl⟩ := Option.map_eq_some_iff.mp hother
              rw [bne_iff_ne]
              rintro rfl
              rw [hseen] at hshown
              cases hshown
        · have hrest := ih ((List.mem_cons.mp hlane).resolve_left hhead)
          cases hother : seen head with
          | none => rw [List.filterMap_cons_none (by rw [hother]; rfl), hrest]
          | some shown =>
              rw [List.filterMap_cons_some (by rw [hother]; rfl), List.lookup_cons,
                beq_eq_false_iff_ne.mpr hhead]
              exact hrest
  exact hlookup _ (mem_laneAll lane)

omit [Floats F] in
theorem mem_bothRuns {shown : Option (FieldMap F) × Option (FieldMap F)} {fields : FieldMap F} :
    fields ∈ bothRuns shown ↔ shown.1 = some fields ∨ shown.2 = some fields := by
  simp [bothRuns, List.reduceOption_mem_iff, eq_comm]

omit [Floats F] in
theorem mem_completedPairs {seen : Lane → Option (Option (FieldMap F) × Option (FieldMap F))}
    {left right : Lane} {pair : FieldMap F × FieldMap F} :
    pair ∈ completedPairs (ranOf seen) left right ↔
      Showed seen left pair.1 ∧ Showed seen right pair.2 := by
  unfold completedPairs Showed
  rw [lookup_ranOf, lookup_ranOf]
  cases hleft : seen left with
  | none => simp
  | some lefts =>
      cases hright : seen right with
      | none => simp
      | some rights =>
          simp only [Option.some.injEq, exists_eq_left']
          exact List.mem_product.trans (and_congr mem_bothRuns mem_bothRuns)

theorem mem_disallowed {allowed : String → Value F → Bool} {cell absent : FieldMap F}
    {field : String} : field ∈ disallowed allowed cell absent ↔
      cell[field]? ≠ absent[field]? ∧
        ∀ value, cell[field]? = some value → allowed field value = false := by
  unfold disallowed
  rw [List.mem_filter, mem_differing]
  refine and_congr_right fun _ => ?_
  cases cell[field]? with
  | none => simp
  | some value => simp

/-- The failures a comparison finds, one by one. -/
theorem mem_compareLanes {subject : Subject}
    {seen : Lane → Option (Option (FieldMap F) × Option (FieldMap F))} {reach : Bool}
    {allowed : String → Value F → Bool} {finding : Finding} :
    finding ∈ compareLanes subject (ranOf seen) reach allowed ↔
      (∃ lane first second field, seen lane = some (some first, some second) ∧
        first[field]? ≠ second[field]? ∧ finding = ⟨subject, .noise lane field⟩) ∨
      (reach = true ∧ (∃ fields, Showed seen .open fields ∧ Showed seen .absent fields) ∧
        finding = ⟨subject, .noDiscrimination⟩) ∨
      ∃ field cell absent, Showed seen .cell cell ∧ Showed seen .absent absent ∧
        field ∈ disallowed allowed cell absent ∧ finding = ⟨subject, .differs field⟩ := by
  unfold compareLanes
  rw [List.append_assoc, List.mem_append, List.mem_append]
  refine or_congr ?_ (or_congr ?_ ?_)
  · rw [List.mem_flatMap]
    constructor
    · rintro ⟨⟨lane, shown⟩, hmem, hfinding⟩
      obtain ⟨field, hfield, rfl⟩ := List.mem_map.mp hfinding
      rw [mem_ranOf] at hmem
      obtain ⟨_ | first, _ | second⟩ := shown
      · cases hfield
      · cases hfield
      · cases hfield
      · exact ⟨lane, first, second, field, hmem, mem_differing.mp hfield, rfl⟩
    · rintro ⟨lane, first, second, field, hmem, hfield, rfl⟩
      exact ⟨(lane, some first, some second), mem_ranOf.mpr hmem,
        List.mem_map_of_mem (mem_differing.mpr hfield)⟩
  · have hsame : ((completedPairs (ranOf seen) .open .absent).any fun pair =>
        decide (pair.1 = pair.2)) = true ↔
        ∃ fields, Showed seen .open fields ∧ Showed seen .absent fields := by
      rw [List.any_eq_true]
      constructor
      · rintro ⟨⟨opened, absent⟩, hpair, heq⟩
        rw [mem_completedPairs] at hpair
        have hequal : opened = absent := of_decide_eq_true heq
        exact ⟨opened, hpair.1, hequal ▸ hpair.2⟩
      · rintro ⟨fields, hopened, habsent⟩
        exact ⟨(fields, fields), mem_completedPairs.mpr ⟨hopened, habsent⟩, decide_eq_true rfl⟩
    rw [← hsame, ← and_assoc, ← Bool.and_eq_true]
    split
    next htrue => rw [List.mem_singleton, and_iff_right htrue]
    next hfalse => exact iff_of_false List.not_mem_nil fun hboth => hfalse hboth.1
  · rw [List.mem_map]
    constructor
    · rintro ⟨field, hfield, rfl⟩
      rw [ExtTreeSet.mem_toList, ExtTreeSet.mem_ofList, List.contains_iff_mem, List.mem_flatMap]
        at hfield
      obtain ⟨⟨cell, absent⟩, hpair, hfield⟩ := hfield
      rw [mem_completedPairs] at hpair
      exact ⟨field, cell, absent, hpair.1, hpair.2, hfield, rfl⟩
    · rintro ⟨field, cell, absent, hcell, habsent, hfield, rfl⟩
      refine ⟨field, ?_, rfl⟩
      rw [ExtTreeSet.mem_toList, ExtTreeSet.mem_ofList, List.contains_iff_mem, List.mem_flatMap]
      exact ⟨(cell, absent), mem_completedPairs.mpr ⟨hcell, habsent⟩, hfield⟩

/-! ## Runs that pair up -/

/-- The two runs of a lane, when it has two. -/
def laneRuns (runs : List (Run F)) (lane : Lane) : Option (Run F × Run F) :=
  match runs.filter fun run => run.lane = lane with
  | [first, second] => some (first, second)
  | _ => none

/-- Every run is of its own boot, and observes each declared probe once at most. -/
structure FitRuns (manifest : Manifest F) (runs : List (Run F)) : Prop where
  boots : (runs.map Run.bootId).Nodup
  declared : ∀ run ∈ runs, ∀ observation ∈ run.observations, observation.probe ∈ manifest.ids
  once : ∀ run ∈ runs, (run.observations.map Observation.probe).Nodup

/-- Every lane has two runs or none. -/
def Paired (runs : List (Run F)) : Prop :=
  ∀ lane, runs.filter (fun run => run.lane = lane) = [] ∨
    ∃ first second, runs.filter (fun run => run.lane = lane) = [first, second]

omit [Floats F] in
theorem checkObservations_eq_ok {manifest : Manifest F} {lane : Lane} {seen : List String}
    {observations : List (Observation F)} :
    checkObservations manifest lane seen observations = .ok () ↔
      (∀ observation ∈ observations, observation.probe ∈ manifest.ids) ∧
      (∀ observation ∈ observations, observation.probe ∉ seen) ∧
      (observations.map Observation.probe).Nodup := by
  induction observations generalizing seen with
  | nil => exact iff_of_true rfl ⟨nofun, nofun, List.nodup_nil⟩
  | cons observation rest ih =>
      rw [checkObservations, check_bind_eq_ok, check_bind_eq_ok, require_eq_ok, require_eq_ok, ih,
        List.forall_mem_cons, List.forall_mem_cons, List.map_cons, List.nodup_cons, List.mem_map]
      constructor
      · rintro ⟨hdeclared, hnew, hrest, hapart, hnodup⟩
        refine ⟨⟨hdeclared, hrest⟩, ⟨hnew, ?_⟩, ?_, hnodup⟩
        · exact fun other hother hold => hapart other hother (List.mem_cons_of_mem _ hold)
        · rintro ⟨other, hother, heq⟩
          exact hapart other hother (heq ▸ List.mem_cons_self)
      · rintro ⟨⟨hdeclared, hrest⟩, ⟨hnew, hapart⟩, hfresh, hnodup⟩
        refine ⟨hdeclared, hnew, hrest, fun other hother hold => ?_, hnodup⟩
        rcases List.mem_cons.mp hold with heq | hold
        · exact hfresh ⟨other, hother, heq⟩
        · exact hapart other hother hold

omit [Floats F] in
theorem checkRuns_eq_ok {manifest : Manifest F} {boots : OrderedMap String Lane}
    {runs : List (Run F)} : checkRuns manifest boots runs = .ok () ↔
      FitRuns manifest runs ∧ ∀ run ∈ runs, boots[run.bootId]? = none := by
  induction runs generalizing boots with
  | nil => exact iff_of_true rfl ⟨⟨List.nodup_nil, nofun, nofun⟩, nofun⟩
  | cons run rest ih =>
      rw [checkRuns, List.forall_mem_cons]
      split
      next first hfirst =>
        refine iff_of_false nofun fun hboth => ?_
        rw [hfirst] at hboth
        exact nomatch hboth.2.1
      next hnew =>
        rw [check_bind_eq_ok, checkObservations_eq_ok, ih]
        constructor
        · rintro ⟨⟨hdeclared, -, honce⟩, hfits, hapart⟩
          have hothers :
              ∀ other ∈ rest, run.bootId ≠ other.bootId ∧ boots[other.bootId]? = none := by
            intro other hother
            have hnone := hapart other hother
            rw [OrderedMap.getElem?_insert'] at hnone
            split at hnone
            · cases hnone
            next hne => exact ⟨hne, hnone⟩
          refine ⟨⟨List.nodup_cons.mpr ⟨?_, hfits.boots⟩,
            List.forall_mem_cons.mpr ⟨hdeclared, hfits.declared⟩,
            List.forall_mem_cons.mpr ⟨honce, hfits.once⟩⟩, hnew, fun other hother =>
              (hothers other hother).2⟩
          intro hmem
          obtain ⟨other, hother, heq⟩ := List.mem_map.mp hmem
          exact (hothers other hother).1 heq.symm
        · rintro ⟨⟨hboots, hdeclared, honce⟩, -, hapart⟩
          obtain ⟨hfresh, hboots⟩ := List.nodup_cons.mp hboots
          rw [List.forall_mem_cons] at hdeclared honce
          refine ⟨⟨hdeclared.1, fun _ _ => List.not_mem_nil, honce.1⟩,
            ⟨hboots, hdeclared.2, honce.2⟩, fun other hother => ?_⟩
          rw [OrderedMap.getElem?_insert', if_neg]
          · exact hapart other hother
          · exact fun heq => hfresh (heq ▸ List.mem_map_of_mem hother)

omit [Floats F] in
theorem pairLane_eq_ok {runs : List (Run F)} {lane : Lane} {ofLane : LaneRuns F} :
    pairLane runs lane = .ok ofLane ↔
      (runs.filter (fun run => run.lane = lane) = [] ∨
        ∃ first second, runs.filter (fun run => run.lane = lane) = [first, second]) ∧
      ofLane = (lane, laneRuns runs lane) := by
  unfold pairLane laneRuns
  split
  next hnil =>
    rw [hnil, Except.ok.injEq]
    exact ⟨fun heq => ⟨.inl rfl, heq.symm⟩, fun hboth => hboth.2.symm⟩
  next first second hpair =>
    rw [hpair, Except.ok.injEq]
    exact ⟨fun heq => ⟨.inr ⟨first, second, rfl⟩, heq.symm⟩, fun hboth => hboth.2.symm⟩
  next hnil hpair =>
    refine iff_of_false nofun fun hboth => ?_
    rcases hboth.1 with hempty | ⟨first, second, htwo⟩
    · exact hnil hempty
    · exact hpair first second htwo

omit [Floats F] in
theorem pair_eq_ok {manifest : Manifest F} {runs : List (Run F)} {lanes : List (LaneRuns F)} :
    pair manifest runs = .ok lanes ↔ FitRuns manifest runs ∧ Paired runs ∧
      lanes = Lane.all.map fun lane => (lane, laneRuns runs lane) := by
  rw [pair, check_bind_eq_ok, checkRuns_eq_ok, mapM_eq_ok_iff fun _ _ => pairLane_eq_ok]
  refine and_congr ?_ (and_congr_left fun _ => ?_)
  · exact and_iff_left fun run _ => ExtTreeMap.getElem?_empty
  · exact ⟨fun hall lane => hall lane (mem_laneAll lane), fun hpaired lane _ => hpaired lane⟩

omit [Floats F] in
/-- The runs of a paired lane are the two it has. -/
theorem Paired.mem_iff {runs : List (Run F)} (hpaired : Paired runs) {lane : Lane} {run : Run F} :
    run ∈ runs ∧ run.lane = lane ↔
      ∃ first second, laneRuns runs lane = some (first, second) ∧ (run = first ∨ run = second) := by
  have hfilter : run ∈ runs ∧ run.lane = lane ↔ run ∈ runs.filter fun run => run.lane = lane := by
    rw [List.mem_filter, decide_eq_true_iff]
  rw [hfilter, laneRuns]
  rcases hpaired lane with hnil | ⟨first, second, htwo⟩
  · rw [hnil]
    simp
  · rw [htwo]
    simp

/-! ## What a lane showed of a probe -/

/-- The fields a run showed of a probe, after normalization. -/
def shownFields (manifest : Manifest F) (lane : Lane) (probe : String) (run : Run F) :
    Option (FieldMap F) :=
  (run.completed probe).bind fun seen => (normalize manifest lane seen).toOption

/-- What the lanes showed of a probe. -/
def shownOf (manifest : Manifest F) (ofLane : Lane → Option (Run F × Run F)) (probe : String)
    (lane : Lane) : Option (Option (FieldMap F) × Option (FieldMap F)) :=
  (ofLane lane).map fun runs =>
    (shownFields manifest lane probe runs.1, shownFields manifest lane probe runs.2)

/-- The findings about one lane alone. -/
def laneFindings (manifest : Manifest F) (probe : String) : LaneRuns F → List Finding
  | (lane, none) => [⟨.probe probe, .notRun lane⟩]
  | (lane, some (first, second)) =>
      (if (first.completed probe).isSome && (second.completed probe).isSome then []
        else [⟨.probe probe, .notRun lane⟩]) ++
      (notNeutral manifest probe [first.completed probe, second.completed probe].reduceOption).map
        fun name => ⟨.probe probe, .notNeutral lane name⟩

/-- What a run completed of a probe normalizes. -/
def Normalizes (manifest : Manifest F) (lane : Lane) (probe : String) (run : Run F) : Prop :=
  ∀ seen, run.completed probe = some seen → ∃ fields, normalize manifest lane seen = .ok fields

theorem mapM_normalize_eq_ok {manifest : Manifest F} {lane : Lane} {probe : String} {run : Run F}
    {fields : Option (FieldMap F)} :
    (run.completed probe).mapM (normalize manifest lane) = .ok fields ↔
      Normalizes manifest lane probe run ∧ fields = shownFields manifest lane probe run := by
  unfold Normalizes shownFields
  cases hseen : run.completed probe with
  | none =>
      change Except.ok none = Except.ok fields ↔ _
      rw [Except.ok.injEq]
      exact ⟨fun heq => ⟨nofun, heq.symm⟩, fun hboth => hboth.2.symm⟩
  | some seen =>
      cases hnormal : normalize manifest lane seen with
      | error refusal =>
          refine iff_of_false (fun heq => ?_) fun hboth => ?_
          · change (normalize manifest lane seen >>= fun fields => pure (some fields)) = _ at heq
            rw [hnormal] at heq
            cases heq
          · obtain ⟨fields, hfields⟩ := hboth.1 seen rfl
            rw [hnormal] at hfields
            cases hfields
      | ok shown =>
          change (normalize manifest lane seen >>= fun fields => pure (some fields)) = _ ↔ _
          rw [hnormal]
          change Except.ok (some shown) = Except.ok fields ↔ _
          rw [Except.ok.injEq, Option.bind_some, hnormal]
          refine ⟨fun heq => ⟨?_, heq.symm⟩, fun hboth => hboth.2.symm⟩
          rintro _ ⟨⟩
          exact ⟨shown, hnormal⟩

theorem observeLane_eq_ok {manifest : Manifest F} {probe : String} {ofLane : LaneRuns F}
    {found : List Finding × Option (Ran F)} :
    observeLane manifest probe ofLane = .ok found ↔
      (∀ runs, ofLane.2 = some runs → Normalizes manifest ofLane.1 probe runs.1 ∧
        Normalizes manifest ofLane.1 probe runs.2) ∧
      found = (laneFindings manifest probe ofLane, ofLane.2.map fun runs => (ofLane.1,
        (shownFields manifest ofLane.1 probe runs.1,
        shownFields manifest ofLane.1 probe runs.2))) := by
  obtain ⟨lane, _ | ⟨first, second⟩⟩ := ofLane
  · change Except.ok _ = Except.ok found ↔ _
    rw [Except.ok.injEq]
    exact ⟨fun heq => ⟨nofun, heq.symm⟩, fun hboth => hboth.2.symm⟩
  · unfold observeLane
    rw [bind_eq_ok]
    constructor
    · rintro ⟨firstFields, hfirst, hrest⟩
      obtain ⟨secondFields, hsecond, heq⟩ := bind_eq_ok.mp hrest
      obtain ⟨hnormal, rfl⟩ := mapM_normalize_eq_ok.mp hfirst
      obtain ⟨hnormal', rfl⟩ := mapM_normalize_eq_ok.mp hsecond
      cases heq
      refine ⟨?_, rfl⟩
      rintro _ ⟨⟩
      exact ⟨hnormal, hnormal'⟩
    · rintro ⟨hnormal, rfl⟩
      obtain ⟨hnormal, hnormal'⟩ := hnormal (first, second) rfl
      exact ⟨_, mapM_normalize_eq_ok.mpr ⟨hnormal, rfl⟩,
        bind_eq_ok.mpr ⟨_, mapM_normalize_eq_ok.mpr ⟨hnormal', rfl⟩, rfl⟩⟩

/-! ## All findings -/

def probeFindings (manifest : Manifest F) (ofLane : Lane → Option (Run F × Run F))
    (probe : ProbeSpec) : List Finding :=
  (Lane.all.flatMap fun lane => laneFindings manifest probe.id (lane, ofLane lane)) ++
    compareLanes (.probe probe.id) (ranOf (shownOf manifest ofLane probe.id)) probe.reach.isSome
      (manifest.allowed probe.id)

/-- The transcripts the lanes left. -/
def transcriptsOf (ofLane : Lane → Option (Run F × Run F)) (lane : Lane) :
    Option (Option (FieldMap F) × Option (FieldMap F)) :=
  LaneRuns.transcripts (lane, ofLane lane)

def findings (manifest : Manifest F) (ofLane : Lane → Option (Run F × Run F)) : List Finding :=
  manifest.probes.flatMap (probeFindings manifest ofLane) ++
    judgeTranscripts (Lane.all.map fun lane => (lane, ofLane lane))

theorem judgeProbe_eq_ok {manifest : Manifest F} {ofLane : Lane → Option (Run F × Run F)}
    {probe : ProbeSpec} {found : List Finding} :
    judgeProbe manifest (Lane.all.map fun lane => (lane, ofLane lane)) probe = .ok found ↔
      (∀ lane runs, ofLane lane = some runs → Normalizes manifest lane probe.id runs.1 ∧
        Normalizes manifest lane probe.id runs.2) ∧
      found = probeFindings manifest ofLane probe := by
  have hran : ((Lane.all.map fun lane => (lane, ofLane lane)).map fun ofLane =>
      ofLane.2.map fun runs => (ofLane.1, (shownFields manifest ofLane.1 probe.id runs.1,
        shownFields manifest ofLane.1 probe.id runs.2))).reduceOption =
      ranOf (shownOf manifest ofLane probe.id) := by
    unfold ranOf shownOf List.reduceOption
    rw [List.filterMap_map, List.filterMap_map]
    apply List.filterMap_congr
    intro lane _
    simp only [Function.comp_apply, id_eq, Option.map_map]
    rfl
  unfold judgeProbe
  rw [bind_eq_ok]
  constructor
  · rintro ⟨observed, hobserved, heq⟩
    obtain ⟨hnormal, rfl⟩ := (mapM_eq_ok_iff fun _ _ => observeLane_eq_ok).mp hobserved
    cases heq
    refine ⟨fun lane runs hruns => ?_, ?_⟩
    · exact hnormal (lane, ofLane lane) (List.mem_map_of_mem (mem_laneAll lane)) runs hruns
    · rw [probeFindings, List.map_map, List.map_map, List.flatMap_def, ← hran, List.map_map,
        List.map_map]
      rfl
  · rintro ⟨hnormal, rfl⟩
    refine ⟨_, (mapM_eq_ok_iff fun _ _ => observeLane_eq_ok).mpr ⟨?_, rfl⟩, ?_⟩
    · rintro _ hentry
      obtain ⟨lane, -, rfl⟩ := List.mem_map.mp hentry
      exact hnormal lane
    · rw [probeFindings, List.map_map, List.map_map, List.flatMap_def, ← hran, List.map_map,
        List.map_map]
      rfl

/-- When runs can be judged, and what the verdict is. -/
theorem judge_eq_ok {manifest : Manifest F} {runs : List (Run F)} {judged : Verdict} :
    judge manifest runs = .ok judged ↔ manifest.validate = .ok () ∧ FitRuns manifest runs ∧
      Paired runs ∧
      (∀ probe ∈ manifest.probes, ∀ lane both, laneRuns runs lane = some both →
        Normalizes manifest lane probe.id both.1 ∧ Normalizes manifest lane probe.id both.2) ∧
      judged = verdict (findings manifest (laneRuns runs)) := by
  unfold judge
  rw [check_bind_eq_ok, mapError_eq_ok, bind_eq_ok]
  refine and_congr_right fun _ => ?_
  constructor
  · rintro ⟨lanes, hlanes, hrest⟩
    obtain ⟨hfits, hpaired, rfl⟩ := pair_eq_ok.mp hlanes
    obtain ⟨found, hfound, heq⟩ := bind_eq_ok.mp hrest
    obtain ⟨hnormal, rfl⟩ := (mapM_eq_ok_iff fun _ _ => judgeProbe_eq_ok).mp hfound
    cases heq
    exact ⟨hfits, hpaired, hnormal, rfl⟩
  · rintro ⟨hfits, hpaired, hnormal, rfl⟩
    exact ⟨_, pair_eq_ok.mpr ⟨hfits, hpaired, rfl⟩, bind_eq_ok.mpr
      ⟨_, (mapM_eq_ok_iff fun _ _ => judgeProbe_eq_ok).mpr ⟨hnormal, rfl⟩, rfl⟩⟩

end Plasmosome.Differential
