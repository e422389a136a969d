import Plasmosome.Serde.Held

/-!
# The lines of a session log

A line is one event: an object with the envelope `ts_ms`, `seq` and `kind` and
the fields of the payload that are none of these. A file is read one line at a
time, and the first bad line refuses it.
-/

namespace Plasmosome.SessionLog

open Foundation
open Serde

inductive LogStep where
  | createDirectory
  | syncDirectory
  | openLog
  | write
  | flush
  | syncFile
  | read
deriving DecidableEq

inductive LogFault where
  | missingNewline
  | notUtf8
  | notJson
  | notAnObject
  | missingEnvelope
  | sequenceNotIncreasing
  | sequenceExhausted
  | lineTooLong
deriving DecidableEq

inductive SessionLogError (Path : Type) where
  | io (path : Path) (step : LogStep)
  | malformed (path : Path) (line : Nat) (fault : LogFault)
  | poisoned (path : Path)
  | locked (path : Path)
  | eventTooLong (path : Path) (bytes : Nat)
deriving DecidableEq

/-- The longest line, in bytes before its LF. -/
def maxLineBytes : Nat := 2 ^ 20

/-! ## Writing -/

/-- A value as the library holds it, with the members of every object in key order. -/
structure Payload where
  value : Value
  valid : value.Valid
  ordered : value.sorted = value

/-- The members of an object, and none of any other value. -/
def fieldsOf : Value → List (String × Value)
  | .object fields => fields
  | _ => []

/-- `event.entry(key).or_insert(value)`. -/
def orInsert (event : List (String × Value)) (field : String × Value) : List (String × Value) :=
  if (event.lookup field.1).isSome then event else insertMember field.1 field.2 event

def envelope (tsMs seq : UInt64) (kind : String) : List (String × Value) :=
  insertMember "kind" (.string kind)
    (insertMember "seq" (.ofU64 seq) (insertMember "ts_ms" (.ofU64 tsMs) []))

/-- One event, with the time it was appended at. -/
structure Event where
  tsMs : UInt64
  seq : UInt64
  kind : String
  payload : Payload

namespace Event

def members (event : Event) : List (String × Value) :=
  (fieldsOf event.payload.value).foldl orInsert (envelope event.tsMs event.seq event.kind)

/-- `event_line`. -/
def line (library : Library) (event : Event) : List UInt8 :=
  library.write (.object event.members) ++ [newline]

end Event

/-! ## Reading -/

/-- `read_until` through `take`: the bytes up to the first LF, at most `limit` of them, and the
bytes after them. -/
def readUntil : Nat → List UInt8 → List UInt8 × List UInt8
  | 0, bytes => ([], bytes)
  | _, [] => ([], [])
  | limit + 1, byte :: rest =>
      if byte = newline then ([byte], rest)
      else
        let (segment, after) := readUntil limit rest
        (byte :: segment, after)

theorem readUntil_append (limit : Nat) (bytes : List UInt8) :
    (readUntil limit bytes).1 ++ (readUntil limit bytes).2 = bytes := by
  induction limit generalizing bytes with
  | zero => rfl
  | succ limit ih =>
      cases bytes with
      | nil => rfl
      | cons byte rest =>
          rw [readUntil]
          split
          · rfl
          · exact congrArg (byte :: ·) (ih rest)

/-- What one line before its LF holds, and its `seq`. -/
def checkLine (library : Library) (segment : List UInt8) : Except LogFault (Value × UInt64) :=
  match Utf8.decode segment 0 with
  | .error _ => .error .notUtf8
  | .ok _ =>
      match library.fromStr segment with
      | none => .error .notJson
      | some (.object entries) =>
          match (entries.lookup "seq").bind Value.asU64,
            (entries.lookup "kind").bind Value.asStr with
          | some seq, some _ => .ok (.object entries, seq)
          | _, _ => .error .missingEnvelope
      | some _ => .error .notAnObject

/-- The events a scan kept, and the number and `seq` of the last line. -/
abbrev Scanned := List Value × Option (Nat × UInt64)

/-- The lines from number `line` on. `fails` tells which reads fail. -/
def scanFrom {Path : Type} (library : Library) (path : Path) (fails : Nat → Bool) (line : Nat)
    (last : Option (Nat × UInt64)) (bytes : List UInt8) :
    Except (SessionLogError Path) Scanned :=
  if fails line then .error (.io path .read)
  else if bytes = [] then .ok ([], last)
  else
    match _hread : readUntil (maxLineBytes + 1) bytes with
    | (segment, rest) =>
        if _hnewline : segment.getLast? = some newline then
          match checkLine library segment.dropLast with
          | .error fault => .error (.malformed path line fault)
          | .ok (event, seq) =>
              if last.any fun before => seq ≤ before.2 then
                .error (.malformed path line .sequenceNotIncreasing)
              else
                match scanFrom library path fails (line + 1) (some (line, seq)) rest with
                | .error error => .error error
                | .ok (events, final) => .ok (event :: events, final)
        else
          .error (.malformed path line
            (if maxLineBytes < segment.length then .lineTooLong else .missingNewline))
termination_by bytes.length
decreasing_by
  have hlength := congrArg List.length (readUntil_append (maxLineBytes + 1) bytes)
  rw [_hread, List.length_append] at hlength
  have hsegment : segment ≠ [] := by
    rintro rfl
    cases _hnewline
  have hpositive := List.length_pos_iff.mpr hsegment
  have hshorter : rest.length < bytes.length := by
    simp only at hlength
    omega
  exact hshorter

def scanLines {Path : Type} (library : Library) (path : Path) (fails : Nat → Bool)
    (bytes : List UInt8) : Except (SessionLogError Path) Scanned :=
  scanFrom library path fails 1 none bytes

/-- `read_events` on a file that opens and whose reads succeed. A missing file reads as empty. -/
def readEvents {Path : Type} (library : Library) (path : Path) (bytes : List UInt8) :
    Except (SessionLogError Path) (List Value) :=
  (scanLines library path (fun _ => false) bytes).map Prod.fst

end Plasmosome.SessionLog
