import Plasmosome.Foundation.Machine
import Plasmosome.SessionLog.Line

/-!
# Session logs on one path

A file, and the values that were opened on it. Any call to the file may fail, a
write after any part of its bytes. An input says how each call it makes comes out;
a file that was never written reads as empty.
-/

namespace Plasmosome.SessionLog

open Foundation
open Serde

variable {Path : Type} (library : Library) (path : Path)

/-- How the calls of an open come out. Of the directories only the one that fails is told. -/
structure OpenCalls (Path : Type) where
  createParents : Option Path
  openFails : Bool
  readFails : Nat → Bool
  syncFails : Bool
  syncUpFrom : Option Path

/-- Every call succeeds. -/
def OpenCalls.succeed : OpenCalls Path := ⟨none, false, fun _ => false, false, none⟩

/-- How a call to the open file comes out. -/
inductive Call where
  | succeeds
  | fails
  | panics
deriving DecidableEq

/-- How the calls of an append come out. A write that does not succeed leaves `wrote` bytes. -/
structure WriteCalls where
  write : Call
  wrote : Nat
  flush : Call
  sync : Call

/-- Every call succeeds. -/
def WriteCalls.succeed : WriteCalls := ⟨.succeeds, 0, .succeeds, .succeeds⟩

/-- `LogState`. The writer lock is held for as long as the file is. -/
structure LogState where
  file : Bool
  nextSeq : UInt64

/-- The file's bytes and the values opened on it; a dropped value is `none`. -/
structure Store where
  file : List UInt8
  values : List (Option LogState)

namespace Store

def locked (store : Store) : Bool :=
  store.values.any fun value => value.any LogState.file

/-- The number after the last line's. -/
def numberAfter : Option (Nat × UInt64) → Except (SessionLogError Path) UInt64
  | none => .ok 1
  | some (line, seq) =>
      if seq.toNat + 1 < 2 ^ 64 then .ok (seq + 1)
      else .error (.malformed path line .sequenceExhausted)

/-- `open_with` after `create_parents` and `open_log`: the number of the next event. -/
def validate (calls : OpenCalls Path)
    (file : List UInt8) : Except (SessionLogError Path) UInt64 := do
  let scanned ← scanLines library path calls.readFails file
  let nextSeq ← numberAfter path scanned.2
  if calls.syncFails then .error (.io path .syncFile)
  else
    match calls.syncUpFrom with
    | some directory => .error (.io directory .syncDirectory)
    | none => return nextSeq

def openWith (calls : OpenCalls Path) (store : Store) : Except (SessionLogError Path) LogState := do
  match calls.createParents with
  | some directory => .error (.io directory .createDirectory)
  | none =>
      if calls.openFails then .error (.io path .openLog)
      else if store.locked then .error (.locked path)
      else return ⟨true, ← validate library path calls store.file⟩

end Store

/-- What `write_durably` comes to. -/
inductive Written where
  | done
  | failed (step : LogStep)
  | panicked
deriving DecidableEq

def Call.written (call : Call) (step : LogStep) (next : Written) : Written :=
  match call with
  | .succeeds => next
  | .fails => .failed step
  | .panics => .panicked

/-- The bytes written, and what came of it. -/
def writeDurably (calls : WriteCalls) (bytes : List UInt8) : List UInt8 × Written :=
  (if calls.write = .succeeds then bytes else bytes.take calls.wrote,
    calls.write.written .write (calls.flush.written .flush (calls.sync.written .syncFile .done)))

/-- What an append hands its caller. -/
inductive Appended (Path : Type) where
  | ok (seq : UInt64)
  | error (error : SessionLogError Path)
  | panicked
deriving DecidableEq

/-- The bytes an append adds to the file, the state after it, and its answer. -/
def LogState.append (state : LogState) (tsMs : UInt64) (kind : String) (payload : Payload)
    (calls : WriteCalls) : List UInt8 × LogState × Appended Path :=
  let seq := state.nextSeq
  if !state.file then ([], state, .error (.poisoned path))
  else
    let line := (Event.mk tsMs seq kind payload).line library
    if maxLineBytes < line.length - 1 then ([], state, .error (.eventTooLong path (line.length - 1)))
    else
      let (bytes, written) := writeDurably calls line
      match written with
      | .failed step => (bytes, { state with file := false }, .error (.io path step))
      | .panicked => (bytes, { state with file := false }, .panicked)
      | .done =>
          if seq.toNat + 1 < 2 ^ 64 then (bytes, { state with nextSeq := seq + 1 }, .ok seq)
          else (bytes, { state with file := false }, .ok seq)

inductive Input (Path : Type) where
  | openWith (calls : OpenCalls Path)
  | append (value : Nat) (tsMs : UInt64) (kind : String) (payload : Payload) (calls : WriteCalls)
  | drop (value : Nat)

inductive Output (Path : Type) where
  | opened (value : Nat)
  | refused (error : SessionLogError Path)
  | appended (answer : Appended Path)
  | dropped
  | noValue

/-- The values are numbered in the order they were opened. -/
def machine : Machine Store (Input Path) (Output Path) where
  step store
    | .openWith calls =>
        match store.openWith library path calls with
        | .ok state =>
            (.opened store.values.length, { store with values := store.values ++ [some state] })
        | .error error => (.refused error, store)
    | .append value tsMs kind payload calls =>
        match store.values[value]?.join with
        | none => (.noValue, store)
        | some state =>
            let (bytes, next, answer) := state.append library path tsMs kind payload calls
            (.appended answer, ⟨store.file ++ bytes, store.values.set value (some next)⟩)
    | .drop value => (.dropped, { store with values := store.values.set value none })

/-- No file, or an empty one, and nothing open. -/
def Store.empty : Store := ⟨[], []⟩

end Plasmosome.SessionLog
