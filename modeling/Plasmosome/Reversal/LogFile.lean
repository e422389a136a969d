import Plasmosome.Foundation.Frames
import Plasmosome.Membrane.Readiness
import Plasmosome.Reversal.Codec
import Plasmosome.Serde.Deferred

/-!
# The log of a ledger

A log holds the effects of one plugin, one record a line. It is read back up to a record
that was cut short at its end, and is appended to only when its last line is complete.
-/

namespace Plasmosome.Reversal

open Backend Foundation
open Foundation.Frames
open Serde (Codec Fields Library Value newline)

/-! ## Records -/

/-- The only format of a log. -/
def logFormat : UInt8 := 3

structure LogRecord where
  format : UInt8
  plugin : PluginId
  effect : Effect
deriving DecidableEq

def unsupported (format : UInt64) : String :=
  "unsupported ledger format " ++ toString format.toNat ++ "; expected 3"

/-- A record of another format is neither written nor read. -/
def LogRecord.codec : Codec LogRecord :=
  .checked (fun record => record.format = logFormat) <|
    .through
      (.object (.field "format" .u8 (.field "plugin" PluginId.codec (.field "effect" Effect.codec .nil)))
        (by decide))
      (fun record => (record.format, record.plugin, record.effect, ()))
      (fun (format, plugin, effect, _) => ⟨format, plugin, effect⟩) fun _ => rfl

/-- The format that is read before the record is, from an object or from a list of one number.
Every other member is passed over unread. -/
def probeVersion (library : Library) (line : List UInt8) : Option UInt64 :=
  match library.outline line with
  | some (.object members) =>
      match members.filter fun member => member.1 = "format" with
      | [(_, text)] => library.read .u64 text
      | _ => none
  | some (.array [text]) => library.read .u64 text
  | _ => none

inductive RecordRefusal where
  | unsupported (format : UInt64)
  | unread
deriving DecidableEq

def decodeRecord (library : Library) (line : List UInt8) : Except RecordRefusal LogRecord :=
  match (probeVersion library line).filter (· ≠ logFormat.toUInt64) with
  | some format => .error (.unsupported format)
  | none =>
      match library.read LogRecord.codec line with
      | some record => .ok record
      | none => .error .unread

/-! ## UTF-8 -/

structure Utf8Error where
  validUpTo : Nat
  errorLen : Option Nat
deriving DecidableEq

def Utf8Error.display (error : Utf8Error) : String :=
  match error.errorLen with
  | some length => "invalid utf-8 sequence of " ++ toString length ++ " bytes from index " ++
      toString error.validUpTo
  | none => "incomplete utf-8 byte sequence from index " ++ toString error.validUpTo

/-- How many bytes are refused, unless they could begin a character that goes on after the end. -/
def errorLen (bytes : List UInt8) : Option Nat :=
  let refused := Membrane.Probe.illFormed bytes
  let unfinished :=
    match bytes with
    | [first] => 0xC2 ≤ first && first ≤ 0xF4
    | _ => refused = bytes.length
  if unfinished then none else some refused

def utf8Error (bytes : List UInt8) : Option Utf8Error :=
  match Utf8.decode bytes 0 with
  | .ok _ => none
  | .error offset => some ⟨offset, errorLen (bytes.drop offset)⟩

/-! ## Reading -/

/-- A line or an effect that the library refuses. -/
inductive Unusable where
  | line (bytes : List UInt8)
  | effect (effect : Effect)

section Log

variable (explain : Unusable → String) (library : Library) (eof : List UInt8 → Bool)

def RecordRefusal.display (line : List UInt8) : RecordRefusal → String
  | .unsupported format => Reversal.unsupported format
  | .unread => explain (.line line)

/-- The library has run out of bytes only when it has refused the line itself. -/
def RecordRefusal.isEof (line : List UInt8) : RecordRefusal → Bool
  | .unsupported _ => false
  | .unread => eof line

def invalidUtf8 (newlineEnded : Bool) (line : List UInt8) : Option Utf8Error :=
  (utf8Error line).filter fun error => newlineEnded || error.errorLen.isSome

/-- Reads the lines after those that gave the plugin and the effects. -/
def readLines (index : Nat) (plugin : Option PluginId) (effects : List Effect) :
    List (List UInt8) → Except String (Option PluginId × List Effect)
  | [] => .ok (plugin, effects)
  | framed :: rest =>
      let newlineEnded : Bool := framed.getLast? = some newline
      let line := if newlineEnded then framed.dropLast else framed
      match invalidUtf8 newlineEnded line with
      | some error => .error ("invalid UTF-8 in ledger record on line " ++ toString (index + 1) ++
          ": " ++ error.display)
      | none =>
          match decodeRecord library line with
          | .error refusal =>
              if !newlineEnded && refusal.isEof eof line then .ok (plugin, effects)
              else .error ("invalid ledger record on line " ++ toString (index + 1) ++ ": " ++
                refusal.display explain line)
          | .ok record =>
              match plugin with
              | some existing =>
                  if existing ≠ record.plugin then
                    .error ("ledger log mixes plugins on line " ++ toString (index + 1) ++ ": \x60" ++
                      existing.name ++ "\x60 and \x60" ++ record.plugin.name ++ "\x60")
                  else readLines (index + 1) (some existing) (effects ++ [record.effect]) rest
              | none => readLines (index + 1) (some record.plugin) (effects ++ [record.effect]) rest

def readPluginLog (bytes : List UInt8) : Except String (Option PluginId × List Effect) :=
  readLines explain library eof 0 none [] (splitInclusive newline bytes)

namespace Ledger

/-! ## Writing -/

def encodeEffects (plugin : PluginId) (total index : Nat) : List Effect → Except String (List UInt8)
  | [] => .ok []
  | effect :: rest =>
      match LogRecord.codec.encode ⟨logFormat, plugin, effect⟩ with
      | none => .error ("effect " ++ toString (index + 1) ++ " of " ++ toString total ++
          " cannot be encoded: " ++ explain (.effect effect))
      | some value => do
          let records ← encodeEffects plugin total (index + 1) rest
          return library.write value ++ newline :: records

/-- One record an effect. -/
def encode (ledger : Ledger) : Except String (List UInt8) :=
  encodeEffects explain library ledger.plugin ledger.effects.length 0 ledger.effects

def acceptsTarget (ledger : Ledger) (existing : List UInt8) : Except String Unit :=
  match existing.getLast? with
  | none => .ok ()
  | some last =>
      if last ≠ newline then .error "ledger log does not end with a newline; refusing to append"
      else
        match readPluginLog explain library eof existing with
        | .error refusal => .error refusal
        | .ok (some found, _) =>
            if found ≠ ledger.plugin then
              .error ("ledger log belongs to plugin \x60" ++ found.name ++
                "\x60; refusing to append plugin \x60" ++ ledger.plugin.name ++ "\x60")
            else .ok ()
        | .ok (none, _) => .ok ()

/-- Appends to a file that may be missing. A target that is refused stays as it was. -/
def appendToFile (ledger : Ledger) (file : Option (List UInt8)) :
    Except String Nat × Option (List UInt8) :=
  match ledger.encode explain library with
  | .error refusal => (.error refusal, file)
  | .ok records =>
      let existing := file.getD []
      match ledger.acceptsTarget explain library eof existing with
      | .error refusal => (.error refusal, some existing)
      | .ok () => (.ok ledger.effects.length, some (existing ++ records))

def openFile (bytes : List UInt8) : Except String Ledger :=
  match readPluginLog explain library eof bytes with
  | .error refusal => .error refusal
  | .ok (none, _) => .error "ledger log holds no record"
  | .ok (some plugin, effects) => .ok ⟨plugin, effects⟩

/-- An append that is cut off once this many bytes of the records have reached the file. -/
def appendCut (ledger : Ledger) (kept : Nat) (file : Option (List UInt8)) : Option (List UInt8) :=
  match ledger.encode explain library with
  | .error _ => file
  | .ok records =>
      let existing := file.getD []
      match ledger.acceptsTarget explain library eof existing with
      | .error _ => some existing
      | .ok () => some (existing ++ records.take kept)

end Ledger

end Log

end Plasmosome.Reversal
