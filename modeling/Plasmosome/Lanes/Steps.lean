import Plasmosome.Foundation.Pieces
import Plasmosome.Lanes.Console
import Plasmosome.Membrane.Lossy

/-!
# Steps of a lane run

While a guest writes the console, the host reads it again and again, records each
complete result line it sees, and takes the steps that wait for a probe's line. The
clock, the actions and the flags are a world that answers anything.
-/

namespace Plasmosome.Lanes.Steps

open Foundation
open Plasmosome.Runtime (stripPrefix)
open Console (ProbeResult RESULT)
open Membrane.Probe (fromUtf8Lossy)

def MAX_CONSOLE_BYTES : Nat := 16 * 1024 * 1024

/-- One host action taken during a lane run, once a probe's result is on the console. -/
structure Step (World : Type) where
  after : List Char
  flag : List UInt8
  action : World → Except (List Char) (List Char) × World

/-- What one step did. -/
structure StepRecord where
  after : List Char
  outcome : Except (List Char) (List Char)
  startedMs : UInt64
  flaggedMs : UInt64

structure Watch (World : Type) where
  pending : List (Step World)
  records : List StepRecord
  seen : List (List Char × UInt64)

/-- The clock that counts from a run's start, and the files. -/
structure Host (World : Type) where
  millis : World → UInt64 × World
  write : List UInt8 → List UInt8 → World → Except (List Char) Unit × World

section Reader

variable (reader : List Char → Except (List Char) ProbeResult)

def completeResultProbes (text : List Char) : List (List Char) :=
  match Pieces.rsplitOnce '\n' text with
  | none => []
  | some (complete, _) =>
      ((((Lines.lines complete).filterMap fun line =>
        stripPrefix (RESULT ++ [' ']) (Lines.trimCr line)).filterMap fun json =>
          (reader json).toOption).map ProbeResult.probe)

variable {World : Type} (host : Host World)

namespace Watch

/-- Records probes as seen, one after another. -/
def see : List (List Char) → List (List Char × UInt64) → World →
    List (List Char × UInt64) × World
  | [], seen, world => (seen, world)
  | probe :: probes, seen, world =>
      let (seenMs, world) := host.millis world
      see probes (seen ++ [(probe, seenMs)]) world

def take (step : Step World) (world : World) : StepRecord × World :=
  let (startedMs, world) := host.millis world
  let (acted, world) := step.action world
  let (outcome, world) : Except (List Char) (List Char) × World :=
    match acted with
    | .error error => (.error error, world)
    | .ok text =>
        -- The flag holds the line `go`.
        match host.write step.flag [103, 111, 10] world with
        | (.ok (), world) => (.ok text, world)
        | (.error error, world) =>
            (.error ("the flag ".toList ++ fromUtf8Lossy step.flag ++
              " could not be written: ".toList ++ error), world)
  let (flaggedMs, world) := host.millis world
  (⟨step.after, outcome, startedMs, flaggedMs⟩, world)

/-- Takes the pending steps up to one whose probe was not seen. -/
def takeReady (seen : List (List Char × UInt64)) :
    List (Step World) → List StepRecord → World → Watch World × World
  | [], records, world => (⟨[], records, seen⟩, world)
  | step :: pending, records, world =>
      if seen.any fun entry => entry.1 = step.after then
        let (record, world) := take host step world
        takeReady seen pending (records ++ [record]) world
      else (⟨step :: pending, records, seen⟩, world)

/-- One look at the console: what the read gave, which is nothing when it failed, and
whether steps are taken. -/
def observe (taking : Bool) (read : Option (List UInt8)) (watch : Watch World) (world : World) :
    Watch World × World :=
  match read with
  | none => (watch, world)
  | some bytes =>
      let text := fromUtf8Lossy (bytes.take (min bytes.length MAX_CONSOLE_BYTES))
      let (seen, world) :=
        see host ((completeResultProbes reader text).drop watch.seen.length) watch.seen world
      if taking then takeReady host seen watch.pending watch.records world
      else ({ watch with seen := seen }, world)

/-- The watch of a run: one look after another. -/
def run (steps : List (Step World)) (looks : List (Bool × Option (List UInt8))) (world : World) :
    Watch World × World :=
  looks.foldl (fun state look => observe reader host look.1 look.2 state.1 state.2)
    (⟨steps, [], []⟩, world)

end Watch

end Reader

end Plasmosome.Lanes.Steps
