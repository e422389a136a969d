import Plasmosome.Differential.Value
import Plasmosome.Foundation.Checks
import Plasmosome.Foundation.OrderedMap

/-!
# The probe manifest and the runs it judges

The manifest is fixed before the runs: which probes there are, which fields are
normalized, which differences are allowed, and the neutral names every lane shows.
-/

namespace Plasmosome.Differential

open Foundation

inductive Channel where
  | refusal
  | hint
  | operation
  | facility
  | disturbance
deriving DecidableEq, Repr

def Channel.all : List Channel := [.refusal, .hint, .operation, .facility, .disturbance]

inductive ReachKind where
  | host
  | path
  | facility
deriving DecidableEq, Repr

def ReachKind.all : List ReachKind := [.host, .path, .facility]

/-- The lane under test and the two reference lanes. -/
inductive Lane where
  | cell
  | «open»
  | absent
deriving DecidableEq, Repr

def Lane.all : List Lane := [.cell, .open, .absent]

structure ProbeSpec where
  id : String
  channel : Channel
  step : String
  reach : Option ReachKind
  workloadSet : List String
deriving DecidableEq, Repr

inductive RuleKind where
  | pid
  | bootId
  | mountId
  | parentMountId
  | peerGroup
  | device
  | inode
  | systemTime
  | duration
  | ephemeralPort
  | resolvedAddress
  | memoryCounter
  | loadCounter
deriving DecidableEq, Repr

def RuleKind.name : RuleKind → String
  | .pid => "pid"
  | .bootId => "boot_id"
  | .mountId => "mount_id"
  | .parentMountId => "parent_mount_id"
  | .peerGroup => "peer_group"
  | .device => "device"
  | .inode => "inode"
  | .systemTime => "system_time"
  | .duration => "duration"
  | .ephemeralPort => "ephemeral_port"
  | .resolvedAddress => "resolved_address"
  | .memoryCounter => "memory_counter"
  | .loadCounter => "load_counter"

/-- One row of the normalization table. -/
structure Rule where
  probe : String
  field : String
  kind : RuleKind
deriving DecidableEq, Repr

/-- A difference the cell lane may show. -/
structure Allowance (F : Type) where
  probe : String
  field : String
  cellValue : Value F

structure NeutralMount where
  path : String
  source : String
  fstype : String
  options : String
deriving DecidableEq, Repr

/-- The fixed neutral names every lane must show. -/
structure Neutral where
  mountsProbe : String
  cgroupProbe : String
  mounts : List NeutralMount
  fuseSubtype : String
  cgroupPath : String
deriving DecidableEq, Repr

structure Manifest (F : Type) where
  probes : List ProbeSpec
  rules : List Rule
  allowances : List (Allowance F)
  neutral : Neutral

/-- The manifest key that named an undeclared probe. -/
inductive NamedBy where
  | rule
  | allowance
  | mountsProbe
  | cgroupProbe
deriving DecidableEq, Repr

/-- A neutral mount the manifest must declare. -/
inductive RequiredMount where
  | opt
  | usrLocalBin
  | fuseWorkspace
deriving DecidableEq, Repr

/-- Why a manifest breaks its own tables. -/
inductive ManifestRefusal where
  | duplicateProbe (id : String)
  | channelShort (channel : Channel) (count : Nat)
  | kindShort (kind : ReachKind) (count : Nat)
  | unknownProbe (probe : String) (namedBy : NamedBy)
  | ruleOnWorkloadSetField (probe field : String)
  | duplicateRule (probe field : String)
  | duplicateAllowance (probe field : String)
  | ruleAndAllowance (probe field : String)
  | duplicateNeutralMount (path : String)
  | neutralMountMissing (mount : RequiredMount)
deriving DecidableEq, Repr

def fuse : String := "fuse"

/-- The mounts of software, by path. -/
def software : List (RequiredMount × String) := [(.opt, "/opt"), (.usrLocalBin, "/usr/local/bin")]

/-- Refuses unless a condition holds. -/
def require {ε : Type} (condition : Prop) [Decidable condition] (refusal : ε) : Except ε Unit :=
  if ¬ condition then .error refusal else .ok ()

@[simp] theorem require_eq_ok {ε : Type} {condition : Prop} [Decidable condition] {refusal : ε} :
    require condition refusal = .ok () ↔ condition := by
  rw [require, refuse_unless_eq_ok, not_not]

namespace Manifest

variable {F : Type}

section Validation

variable (manifest : Manifest F)

def ids : List String := manifest.probes.map ProbeSpec.id

/-- Refuses the first probe whose identity stands before it. -/
def checkProbes : List String → List ProbeSpec → Except ManifestRefusal Unit
  | _, [] => .ok ()
  | ids, probe :: rest => do
      require (probe.id ∉ ids) (.duplicateProbe probe.id)
      checkProbes (probe.id :: ids) rest

def checkChannel (channel : Channel) : Except ManifestRefusal Unit :=
  let count := manifest.probes.countP fun probe => probe.channel = channel
  require (3 ≤ count) (.channelShort channel count)

def checkKind (kind : ReachKind) : Except ManifestRefusal Unit :=
  let count := manifest.probes.countP fun probe => probe.reach = some kind
  require (3 ≤ count) (.kindShort kind count)

def known (probe : String) (namedBy : NamedBy) : Except ManifestRefusal Unit :=
  require (probe ∈ manifest.ids) (.unknownProbe probe namedBy)

/-- The workload itself set the field of the probe. -/
def setByWorkload (probe field : String) : Bool :=
  manifest.probes.any fun declared => declared.id = probe && field ∈ declared.workloadSet

def checkRules : List (String × String) → List Rule → Except ManifestRefusal Unit
  | _, [] => .ok ()
  | ruled, rule :: rest => do
      manifest.known rule.probe .rule
      require (manifest.setByWorkload rule.probe rule.field = false)
        (.ruleOnWorkloadSetField rule.probe rule.field)
      require ((rule.probe, rule.field) ∉ ruled) (.duplicateRule rule.probe rule.field)
      checkRules ((rule.probe, rule.field) :: ruled) rest

def checkAllowances (ruled : List (String × String)) :
    List (String × String) → List (Allowance F) → Except ManifestRefusal Unit
  | _, [] => .ok ()
  | allowed, allowance :: rest => do
      manifest.known allowance.probe .allowance
      require ((allowance.probe, allowance.field) ∉ allowed)
        (.duplicateAllowance allowance.probe allowance.field)
      require ((allowance.probe, allowance.field) ∉ ruled)
        (.ruleAndAllowance allowance.probe allowance.field)
      checkAllowances ruled ((allowance.probe, allowance.field) :: allowed) rest

def checkMounts : List String → List NeutralMount → Except ManifestRefusal Unit
  | _, [] => .ok ()
  | paths, mount :: rest => do
      require (mount.path ∉ paths) (.duplicateNeutralMount mount.path)
      checkMounts (mount.path :: paths) rest

/-- A mount of the workspace: of type `fuse`, apart from the software. -/
def hasWorkspace : Bool :=
  manifest.neutral.mounts.any fun neutral =>
    neutral.fstype = fuse && software.all fun (_, path) => neutral.path ≠ path

/-- Checks the measurement rules. -/
def validate : Except ManifestRefusal Unit := do
  checkProbes [] manifest.probes
  Channel.all.forM manifest.checkChannel
  ReachKind.all.forM manifest.checkKind
  manifest.checkRules [] manifest.rules
  manifest.checkAllowances (manifest.rules.map fun rule => (rule.probe, rule.field)) []
    manifest.allowances
  manifest.known manifest.neutral.mountsProbe .mountsProbe
  manifest.known manifest.neutral.cgroupProbe .cgroupProbe
  checkMounts [] manifest.neutral.mounts
  software.forM fun (mount, path) =>
    require (path ∈ manifest.neutral.mounts.map NeutralMount.path) (.neutralMountMissing mount)
  require (manifest.hasWorkspace = true) (.neutralMountMissing .fuseWorkspace)

end Validation

/-! ## What a manifest that validates promises -/

variable {manifest : Manifest F}

theorem checkProbes_ok {ids : List String} {probes : List ProbeSpec}
    (hcheck : checkProbes ids probes = .ok ()) :
    (probes.map ProbeSpec.id).Nodup ∧ ∀ probe ∈ probes, probe.id ∉ ids := by
  induction probes generalizing ids with
  | nil => exact ⟨List.nodup_nil, nofun⟩
  | cons probe rest ih =>
      rw [checkProbes, check_bind_eq_ok, require_eq_ok] at hcheck
      obtain ⟨hnew, hrest⟩ := hcheck
      obtain ⟨hnodup, hapart⟩ := ih hrest
      refine ⟨List.nodup_cons.mpr ⟨?_, hnodup⟩, List.forall_mem_cons.mpr ⟨hnew, ?_⟩⟩
      · intro hmem
        obtain ⟨other, hother, hid⟩ := List.mem_map.mp hmem
        exact hapart other hother (hid ▸ List.mem_cons_self)
      · exact fun other hother hold => hapart other hother (List.mem_cons_of_mem _ hold)

theorem checkRules_ok {ruled : List (String × String)} {rules : List Rule}
    (hcheck : manifest.checkRules ruled rules = .ok ()) :
    (rules.map fun rule => (rule.probe, rule.field)).Nodup ∧
      (∀ rule ∈ rules, (rule.probe, rule.field) ∉ ruled) ∧
      ∀ rule ∈ rules, manifest.setByWorkload rule.probe rule.field = false := by
  induction rules generalizing ruled with
  | nil => exact ⟨List.nodup_nil, nofun, nofun⟩
  | cons rule rest ih =>
      rw [checkRules, check_bind_eq_ok, check_bind_eq_ok, check_bind_eq_ok, require_eq_ok,
        require_eq_ok] at hcheck
      obtain ⟨-, hset, hnew, hrest⟩ := hcheck
      obtain ⟨hnodup, hapart, hsets⟩ := ih hrest
      refine ⟨List.nodup_cons.mpr ⟨?_, hnodup⟩, List.forall_mem_cons.mpr ⟨hnew, ?_⟩,
        List.forall_mem_cons.mpr ⟨hset, hsets⟩⟩
      · intro hmem
        obtain ⟨other, hother, hkey⟩ := List.mem_map.mp hmem
        exact hapart other hother (hkey ▸ List.mem_cons_self)
      · exact fun other hother hold => hapart other hother (List.mem_cons_of_mem _ hold)

theorem validate_probes (hvalid : manifest.validate = .ok ()) :
    (manifest.probes.map ProbeSpec.id).Nodup := by
  rw [validate, check_bind_eq_ok] at hvalid
  exact (checkProbes_ok hvalid.1).1

theorem validate_rules (hvalid : manifest.validate = .ok ()) :
    (manifest.rules.map fun rule => (rule.probe, rule.field)).Nodup ∧
      ∀ rule ∈ manifest.rules, manifest.setByWorkload rule.probe rule.field = false := by
  simp only [validate, check_bind_eq_ok] at hvalid
  obtain ⟨-, -, -, hrules, -⟩ := hvalid
  obtain ⟨hnodup, -, hset⟩ := checkRules_ok hrules
  exact ⟨hnodup, hset⟩

end Manifest

/-! ## Runs -/

abbrev FieldMap (F : Type) := OrderedMap String (Value F)

/-- What one probe reported in one run. -/
structure Observation (F : Type) where
  probe : String
  completed : Bool
  failedBeforeStep : Bool
  fields : FieldMap F

/-- One run of one lane from a fresh boot, with what the harness did if it left a transcript. -/
structure Run (F : Type) where
  lane : Lane
  bootId : String
  observations : List (Observation F)
  transcript : Option (FieldMap F)

/-- Why runs cannot be judged at all. -/
inductive RunRefusal where
  | manifest (refusal : ManifestRefusal)
  | runCount (lane : Lane) (count : Nat)
  | sameBoot (bootId : String) (first second : Lane)
  | unknownProbe (lane : Lane) (probe : String)
  | duplicateObservation (lane : Lane) (probe : String)
  | ruleCannotHold (lane : Lane) (probe field : String) (kind : RuleKind)
deriving DecidableEq, Repr

end Plasmosome.Differential
