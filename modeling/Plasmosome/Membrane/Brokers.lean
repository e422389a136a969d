import Plasmosome.Membrane.Readiness

/-!
# A cell's brokers

The brokers of a cell are launched one by one, and no two of them answer on one
control socket. A status call asks them one by one, each inside what is left of one
allowance. What launches a broker and what probes one are parameters.
-/

namespace Plasmosome.Membrane

open Foundation
open Probe (Readiness NotReady Cancelled)

structure BrokerSpec where
  name : String
  controlSocket : List UInt8
deriving DecidableEq

/-- What a set of brokers last answered. -/
inductive SetStatus where
  | ready
  | notReady (broker : String) (reason : NotReady)
  | deadlineSpent (unreached : String) (asked : List String)
  | empty
deriving DecidableEq

inductive SetSpawnError (SpawnError : Type) where
  | forked (error : SpawnError)
  | duplicateControlSocket (socket : List UInt8) (heldBy : String)

structure SpawnFailed (SpawnError : Type) where
  broker : String
  reason : SetSpawnError SpawnError

variable {Child SpawnError : Type}

structure Broker (Child : Type) extends BrokerSpec where
  child : Child

/-- A cell's brokers in the order they were launched, each on a control socket of its own. -/
structure BrokerSet (Child : Type) where
  brokers : List (Broker Child)
  distinct : (brokers.map (·.controlSocket)).Nodup

namespace BrokerSet

/-! ## Launching -/

/-- The launcher's part: it is given one spec, and starts a child or fails. -/
abbrev launcher (Child SpawnError : Type) : Interface :=
  ⟨BrokerSpec, fun _ => Except SpawnError Child⟩

abbrev Launching (Child SpawnError α : Type) : Type :=
  Program (launcher Child SpawnError) Unit (SpawnFailed SpawnError) α

/-- The broker that already answers on a socket. -/
def holder (set : BrokerSet Child) (socket : List UInt8) : Option (Broker Child) :=
  set.brokers.find? fun held => held.controlSocket = socket

theorem holder_eq_none {set : BrokerSet Child} {socket : List UInt8}
    (hfree : set.holder socket = none) : socket ∉ set.brokers.map (·.controlSocket) := by
  intro hmem
  obtain ⟨held, hheld, rfl⟩ := List.mem_map.mp hmem
  have hother := List.find?_eq_none.mp hfree held hheld
  simp at hother

def empty : BrokerSet Child := ⟨[], List.nodup_nil⟩

def push (set : BrokerSet Child) (spec : BrokerSpec) (child : Child)
    (hfree : set.holder spec.controlSocket = none) : BrokerSet Child where
  brokers := set.brokers ++ [⟨spec, child⟩]
  distinct := by
    rw [List.map_append, List.map_singleton]
    exact List.nodup_append.mpr ⟨set.distinct, List.nodup_singleton _, by
      intro socket hmem other hother heq
      rw [List.mem_singleton.mp hother] at heq
      subst heq
      exact holder_eq_none hfree hmem⟩

/-- Launches the specs in order onto the brokers that already started. -/
def launch : List BrokerSpec → BrokerSet Child → Launching Child SpawnError (BrokerSet Child)
  | [], set => return set
  | spec :: specs, set =>
      match hheld : set.holder spec.controlSocket with
      | some other =>
          Program.throw ⟨spec.name, .duplicateControlSocket spec.controlSocket other.name⟩
      | none => do
          match ← (Program.ask spec : Launching Child SpawnError (Except SpawnError Child)) with
          | .ok child => launch specs (set.push spec child hheld)
          | .error reason => Program.throw ⟨spec.name, .forked reason⟩

/-- Asks one broker's control socket whether it is serving. -/
abbrev Prober : Type := List UInt8 → ProbeBudget → Probe.Step Cancelled Readiness

section Status

variable (prober : Prober) (budget : ProbeBudget)

def survey : List (Broker Child) → List String → Probe.Step Cancelled SetStatus
  | [], _ => return .ready
  | broker :: brokers, asked => do
      match ← (Probe.remaining budget).attempt with
      | .error .cancelled => Program.throw ⟨⟩
      | .error .timedOut => return .deadlineSpent broker.name asked
      | .ok _ =>
          let answer ← (prober broker.controlSocket budget).attempt
          match ← (Probe.remaining budget).attempt with
          | .error .cancelled => Program.throw ⟨⟩
          -- a probe that comes back after the budget gets no vote, whatever it says
          | .error .timedOut => return .notReady broker.name .timedOut
          | .ok _ =>
              match answer with
              | .error cancelled => Program.throw cancelled
              | .ok (.notReady reason) => return .notReady broker.name reason
              | .ok (.ready _) => survey brokers (asked ++ [broker.name])

end Status

/-- `deadline` is one allowance for the whole call. -/
def statusWith (prober : Prober) (set : BrokerSet Child) (deadline : Nat) :
    Probe.Step Cancelled SetStatus := do
  let started ← (Probe.ask .clock : Probe.Step Cancelled Reading)
  let budget : ProbeBudget := ⟨started.now, deadline⟩
  if set.brokers.isEmpty then
    match ← (Probe.remaining budget).attempt with
    | .error .cancelled => Program.throw ⟨⟩
    | .ok _ | .error .timedOut => return .empty
  else survey prober budget set.brokers []

end BrokerSet

end Plasmosome.Membrane
