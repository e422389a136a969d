import Plasmosome.Differential.Normalize

/-!
# The verdict

Two runs of each lane are judged probe by probe: each must have completed, show
the neutral names, and after normalization equal its lane's other run. The open
lane must be told from the absent lane on a reach probe, and the cell lane must
not be told from it, save where an allowance admits the cell's value.
-/

namespace Plasmosome.Differential

open Foundation Std

/-- What a finding is about. -/
inductive Subject where
  | probe (id : String)
  | transcript
deriving DecidableEq, Repr

inductive MountKey where
  | source
  | fstype
  | options
  | subtype
deriving DecidableEq, Repr

def MountKey.name : MountKey → String
  | .source => "source"
  | .fstype => "fstype"
  | .options => "options"
  | .subtype => "subtype"

/-- A name that is fixed to a neutral value. -/
inductive NeutralName where
  | mount (path : String) (key : MountKey)
  | cgroupPath
deriving DecidableEq, Repr

/-- Why a subject did not pass. -/
inductive Reason where
  | notRun (lane : Lane)
  | noise (lane : Lane) (field : String)
  | noDiscrimination
  | differs (field : String)
  | notNeutral (lane : Lane) (name : NeutralName)
deriving DecidableEq, Repr

structure Finding where
  subject : Subject
  reason : Reason
deriving DecidableEq, Repr

/-- The findings that a subject did not run come first, and the failures are still listed. -/
inductive Verdict where
  | pass
  | fail (failures : List Finding)
  | notRun (notRun failures : List Finding)
deriving DecidableEq, Repr

def Verdict.failures : Verdict → List Finding
  | .pass => []
  | .fail failures => failures
  | .notRun _ failures => failures

variable {F : Type}

/-! ## Pairing the runs -/

/-- Refuses the first observation of a probe that is not declared, or was observed before. -/
def checkObservations (manifest : Manifest F) (lane : Lane) :
    List String → List (Observation F) → Except RunRefusal Unit
  | _, [] => .ok ()
  | seen, observation :: rest => do
      require (observation.probe ∈ manifest.ids) (.unknownProbe lane observation.probe)
      require (observation.probe ∉ seen) (.duplicateObservation lane observation.probe)
      checkObservations manifest lane (observation.probe :: seen) rest

/-- Refuses the first run whose boot stands before it, or whose observations do not fit. -/
def checkRuns (manifest : Manifest F) : OrderedMap String Lane → List (Run F) →
    Except RunRefusal Unit
  | _, [] => .ok ()
  | boots, run :: rest => do
      match boots[run.bootId]? with
      | some first => .error (.sameBoot run.bootId first run.lane)
      | none => do
          checkObservations manifest run.lane [] run.observations
          checkRuns manifest (boots.insert run.bootId run.lane) rest

/-- A lane with its two runs, or with none. -/
abbrev LaneRuns (F : Type) := Lane × Option (Run F × Run F)

def pairLane (runs : List (Run F)) (lane : Lane) : Except RunRefusal (LaneRuns F) :=
  match runs.filter fun run => run.lane = lane with
  | [] => .ok (lane, none)
  | [first, second] => .ok (lane, some (first, second))
  | ofLane => .error (.runCount lane ofLane.length)

def pair (manifest : Manifest F) (runs : List (Run F)) : Except RunRefusal (List (LaneRuns F)) := do
  checkRuns manifest ∅ runs
  Lane.all.mapM (pairLane runs)

/-- What a run observed of a probe, when it completed. -/
def Run.completed (run : Run F) (probe : String) : Option (Observation F) :=
  (run.observations.find? fun seen => seen.probe = probe).filter fun seen =>
    seen.completed && !seen.failedBeforeStep

/-! ## Neutral names -/

/-- The keys of a mount and what they must show. -/
def Neutral.expected (neutral : Neutral) (mount : NeutralMount) : List (MountKey × String) :=
  [(.source, mount.source), (.fstype, mount.fstype), (.options, mount.options)] ++
    if mount.fstype = fuse then [(.subtype, neutral.fuseSubtype)] else []

/-- Whether an observation shows a value under the key of a mount. -/
def Observation.showsMount (seen : Observation F) (path : String) (key : MountKey)
    (value : String) : Bool :=
  ((seen.fields[path]?.bind fun reported => reported.get key.name).bind Value.asStr) = some value

def Observation.showsCgroup (seen : Observation F) (path : String) : Bool :=
  seen.fields["path"]?.bind Value.asStr = some path

def notNeutral (manifest : Manifest F) (probe : String) (shown : List (Observation F)) :
    List NeutralName :=
  let neutral := manifest.neutral
  (if probe = neutral.mountsProbe then
      neutral.mounts.flatMap fun mount =>
        ((neutral.expected mount).filter fun (key, value) =>
          shown.any fun seen => !seen.showsMount mount.path key value).map fun (key, _) =>
            .mount mount.path key
    else []) ++
  if probe = neutral.cgroupProbe ∧ shown.any fun seen => !seen.showsCgroup neutral.cgroupPath then
    [.cgroupPath] else []

/-! ## Comparing -/

variable [Floats F]

/-- The fields two runs differ in, in order. -/
def differing (first second : FieldMap F) : List String :=
  (ExtTreeSet.ofList (first.keys ++ second.keys) compare).toList.filter fun key =>
    first[key]? ≠ second[key]?

/-- A lane with what its two runs showed after normalization. -/
abbrev Ran (F : Type) := Lane × (Option (FieldMap F) × Option (FieldMap F))

def bothRuns (shown : Option (FieldMap F) × Option (FieldMap F)) : List (FieldMap F) :=
  [shown.1, shown.2].reduceOption

/-- Every completed run of one lane with every completed run of the other. -/
def completedPairs (ran : List (Ran F)) (left right : Lane) : List (FieldMap F × FieldMap F) :=
  match ran.lookup left, ran.lookup right with
  | some lefts, some rights => (bothRuns lefts).product (bothRuns rights)
  | _, _ => []

/-- The fields the two runs of a lane differ in. -/
def noise (shown : Option (FieldMap F) × Option (FieldMap F)) : List String :=
  match shown with
  | (some first, some second) => differing first second
  | _ => []

/-- The fields in which the cell's run differs from the absent run, but for the allowed ones. -/
def disallowed (allowed : String → Value F → Bool) (cell absent : FieldMap F) : List String :=
  (differing cell absent).filter fun field => !cell[field]?.any (allowed field)

def compareLanes (subject : Subject) (ran : List (Ran F)) (reach : Bool)
    (allowed : String → Value F → Bool) : List Finding :=
  (ran.flatMap fun (lane, shown) => (noise shown).map fun field => ⟨subject, .noise lane field⟩) ++
  (if reach && (completedPairs ran .open .absent).any fun (opened, absent) => opened = absent then
      [⟨subject, .noDiscrimination⟩] else []) ++
  (ExtTreeSet.ofList ((completedPairs ran .cell .absent).flatMap fun (cell, absent) =>
      disallowed allowed cell absent) compare).toList.map fun field => ⟨subject, .differs field⟩

/-! ## Judging -/

/-- What one lane showed of a probe, with what is found there. -/
def observeLane (manifest : Manifest F) (probe : String) :
    LaneRuns F → Except RunRefusal (List Finding × Option (Ran F))
  | (lane, none) => .ok ([⟨.probe probe, .notRun lane⟩], none)
  | (lane, some (first, second)) => do
      let observations := (first.completed probe, second.completed probe)
      let missing := if observations.1.isSome && observations.2.isSome then []
        else [⟨.probe probe, .notRun lane⟩]
      let shown := [observations.1, observations.2].reduceOption
      let names := (notNeutral manifest probe shown).map fun name =>
        ⟨.probe probe, .notNeutral lane name⟩
      let firstFields ← observations.1.mapM (normalize manifest lane)
      let secondFields ← observations.2.mapM (normalize manifest lane)
      .ok (missing ++ names, some (lane, (firstFields, secondFields)))

/-- Whether an allowance of the probe admits the cell's value. -/
def Manifest.allowed (manifest : Manifest F) (probe field : String) (value : Value F) : Bool :=
  manifest.allowances.any fun allowance =>
    allowance.probe = probe && allowance.field = field && allowance.cellValue = value

def judgeProbe (manifest : Manifest F) (lanes : List (LaneRuns F)) (probe : ProbeSpec) :
    Except RunRefusal (List Finding) := do
  let observed ← lanes.mapM (observeLane manifest probe.id)
  .ok ((observed.map Prod.fst).flatten ++
    compareLanes (.probe probe.id) (observed.map Prod.snd).reduceOption probe.reach.isSome
      (manifest.allowed probe.id))

/-- The transcripts of a lane's runs. -/
def LaneRuns.transcripts (ofLane : LaneRuns F) :
    Option (Option (FieldMap F) × Option (FieldMap F)) :=
  ofLane.2.map fun runs => (runs.1.transcript, runs.2.transcript)

def judgeTranscripts (lanes : List (LaneRuns F)) : List Finding :=
  (lanes.flatMap fun ofLane =>
    if ofLane.transcripts.any fun shown => shown.1.isSome && shown.2.isSome then []
    else [⟨.transcript, .notRun ofLane.1⟩]) ++
  compareLanes .transcript
    (lanes.filterMap fun ofLane => ofLane.transcripts.map fun shown => (ofLane.1, shown)) false
    fun _ _ => false

def Reason.isNotRun : Reason → Bool
  | .notRun _ => true
  | _ => false

def verdict (findings : List Finding) : Verdict :=
  let (notRun, failures) := findings.partition fun finding => finding.reason.isNotRun
  match notRun.isEmpty, failures.isEmpty with
  | true, true => .pass
  | true, false => .fail failures
  | false, _ => .notRun notRun failures

/-- Judges the runs against the manifest. -/
def judge (manifest : Manifest F) (runs : List (Run F)) : Except RunRefusal Verdict := do
  manifest.validate.mapError .manifest
  let lanes ← pair manifest runs
  let found ← manifest.probes.mapM (judgeProbe manifest lanes)
  .ok (verdict (found.flatten ++ judgeTranscripts lanes))

end Plasmosome.Differential
