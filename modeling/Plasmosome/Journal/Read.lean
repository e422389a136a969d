import Plasmosome.Journal.Parse
import Plasmosome.Journal.Log

/-!
# Reading a journal

A journal is read line by line. Each record is parsed and then admitted, and the first
fault ends the reading with nothing decoded. What the reader gives after its bytes is
the end of the file or a failure.
-/

namespace Plasmosome.Journal

open Backend
open Serde (Library)

/-- Why a journal gave no history. `line` counts from one, and `linesParsed` the records
accepted before it. -/
structure CellJournalFault where
  path : String
  line : Option Nat
  linesParsed : Nat
  kind : CellJournalFaultKind
  detail : String
deriving DecidableEq, Repr

/-- The bytes still to be read, and the failure that follows them, if one does. -/
structure Reader where
  bytes : List UInt8
  failure : Option String

/-- Reads up to a delimiter and past it, or to the end. -/
def Reader.readUntil (delimiter : UInt8) (reader : Reader) : Except String (List UInt8) × Reader :=
  let before := reader.bytes.takeWhile (· ≠ delimiter)
  match reader.bytes.dropWhile (· ≠ delimiter) with
  | found :: rest => (.ok (before ++ [found]), { reader with bytes := rest })
  | [] =>
      match reader.failure with
      | some failure => (.error failure, { reader with bytes := [] })
      | none => (.ok before, { reader with bytes := [] })

theorem Reader.readUntil_shorter {delimiter byte : UInt8} {more : List UInt8} {reader rest : Reader}
    (hread : reader.readUntil delimiter = (.ok (byte :: more), rest)) :
    rest.bytes.length < reader.bytes.length := by
  have hsplit := congrArg List.length (List.takeWhile_append_dropWhile
    (p := fun byte => decide (byte ≠ delimiter)) (l := reader.bytes))
  rw [List.length_append] at hsplit
  unfold readUntil at hread
  split at hread
  next found after hdrop =>
    obtain ⟨-, rfl⟩ := Prod.mk.inj hread
    rw [hdrop, List.length_cons] at hsplit
    change after.length < reader.bytes.length
    omega
  next hdrop =>
    split at hread
    · cases hread
    · obtain ⟨hbefore, rfl⟩ := Prod.mk.inj hread
      rw [Except.ok.inj hbefore, List.length_cons] at hsplit
      change 0 < reader.bytes.length
      omega

/-- The bytes before a final newline. -/
def stripNewline (bytes : List UInt8) : Option (List UInt8) :=
  if bytes.getLast? = some Serde.newline then some bytes.dropLast else none

def CellHistory.extendBy (history : CellHistory) (record : CellJournalRecord) :
    Except Panic (Except JournalRuleError CellHistory) :=
  match history.admitRecord record with
  | (.error panic, _) => .error panic
  | (.ok (.error refusal), _) => .ok (.error refusal)
  | (.ok (.ok ()), next) => .ok (.ok next)

section Reading

variable (explain : Refused → String) (library : Library) (path : String) (cell : CellId)

/-- The record of a line, and the history that has admitted it. -/
def admitLine (history : CellHistory) (content : List UInt8) :
    Except Panic (Except JournalRuleError (CellJournalRecord × CellHistory)) :=
  match parseRecord explain library cell content with
  | .error refusal => .ok (.error refusal)
  | .ok record =>
      match history.extendBy record with
      | .error panic => .error panic
      | .ok (.error refusal) => .ok (.error refusal)
      | .ok (.ok next) => .ok (.ok (record, next))

/-- Reads the records after those given, which are admitted into the history. -/
def readRecords (line : Nat) (records : List CellJournalRecord) (history : CellHistory)
    (reader : Reader) :
    Except Panic (Except CellJournalFault (List CellJournalRecord × CellHistory)) :=
  let fault := CellJournalFault.mk path (some line) records.length
  match _hread : reader.readUntil Serde.newline with
  | (.ok [], _) => .ok (.ok (records, history))
  | (.error failure, _) => .ok (.error (fault .io failure))
  | (.ok (byte :: more), rest) =>
      match stripNewline (byte :: more) with
      | none => .ok (.error (fault .unparseable "the last record has no final LF"))
      | some content =>
          match admitLine explain library cell history content with
          | .error panic => .error panic
          | .ok (.error refusal) => .ok (.error (fault refusal.kind refusal.detail))
          | .ok (.ok (record, next)) => readRecords (line + 1) (records ++ [record]) next rest
termination_by reader.bytes.length
decreasing_by exact Reader.readUntil_shorter _hread

def readCellHistory (reader : Reader) :
    Except Panic (Except CellJournalFault (List CellJournalRecord × CellHistory)) :=
  readRecords explain library path cell 1 [] (CellHistory.new cell) reader

end Reading

end Plasmosome.Journal
