import Plasmosome.Membrane.Brokers
import Plasmosome.Serde.Held

/-!
# The membrane's control connection

A client sends requests, one a line, and each is answered by one line. A request for
the status asks the brokers. The bytes a client sends come in reads of any size, and
what is read past a line is held for the next.
-/

namespace Plasmosome.Membrane.Control

open Foundation
open Serde
open Probe (NotReady Cancelled)

/-! ## Answering one line -/

def maxRequestBytes : Nat := 1048576

def statusMethod : String := "membrane.status"

def parseError : Int64 := -32700

def invalidRequest : Int64 := -32600

def methodNotFound : Int64 := -32601

def failure (id : Value) (code : Int64) (message : String) : Value :=
  objectOf [("id", id),
    ("error", objectOf [("code", .number (.negInt code)), ("message", .string message)])]

def reasonName : NotReady → String
  | .unreachable _ => "unreachable"
  | .timedOut => "timed_out"
  | .malformed _ => "malformed"
  | .reported _ => "reported"

def wireStatus : SetStatus → Value
  | .ready => objectOf [("ready", .bool true), ("state", .string "serving")]
  | .notReady broker reason =>
      let held := [("ready", .bool false), ("state", .string "not_serving"),
        ("broker", .string broker), ("reason", .string (reasonName reason))]
      match reason with
      | .reported state => objectOf (held ++ [("broker_state", .string state)])
      | _ => objectOf held
  | .deadlineSpent unreached asked =>
      let spent := [("ready", .bool false), ("state", .string "deadline_spent"),
        ("unreached", .string unreached)]
      if asked.isEmpty then objectOf spent
      else objectOf (spent ++ [("asked", .array (asked.map Value.string))])
  | .empty => objectOf [("ready", .bool false), ("state", .string "empty")]

def member (value : Value) (key : String) : Option Value :=
  match value with
  | .object members => members.lookup key
  | _ => none

/-- A line that is refused, with the reply that says so, or the id of a line that asks for the
status. -/
def judgeLine (library : Library) (line : List Char) : Except Value Value :=
  match library.fromStr (Utf8.encode line) with
  | none => .error (failure .null parseError "request line is not JSON")
  | some envelope =>
      let id := (member envelope "id").getD .null
      match envelope with
      | .object fields =>
          match (fields.lookup "method").bind Value.asStr with
          | none =>
              .error (failure id invalidRequest "request carries no string \x60method\x60")
          | some method =>
              match fields.lookup "params" with
              | some (.object _) =>
                  if method = statusMethod then .ok id
                  else .error (failure id methodNotFound "no such method")
              | _ =>
                  .error (failure id invalidRequest "request carries no object \x60params\x60")
      | _ => .error (failure id invalidRequest "request is not an object")

def success (id : Value) (status : SetStatus) : Value :=
  objectOf [("id", id), ("result", wireStatus status)]

def notUtf8 : Value := failure .null parseError "request line is not UTF-8"

def tooLong : Value := failure .null invalidRequest "request line is too long"

/-! ## The world -/

inductive ReadError where
  | wouldBlock
  | timedOut
  | interrupted
  | other
deriving DecidableEq

def ReadError.waiting : ReadError → Bool
  | .wouldBlock | .timedOut | .interrupted => true
  | .other => false

/-- The most bytes one read of a buffered stream takes. -/
def bufferBytes : Nat := 8192

inductive Ask where
  | setUp
  | shutdown
  | read
  | status
  | write (bytes : List UInt8)
  | flush

/-- A stream is set up and a line written wholly, or not. -/
def Ask.Answer : Ask → Type
  | .setUp => Bool
  | .shutdown => Bool
  | .read => Except ReadError { bytes : List UInt8 // bytes.length ≤ bufferBytes }
  | .status => Except Cancelled SetStatus
  | .write _ => Bool
  | .flush => Bool

abbrev world : Interface := ⟨Ask, Ask.Answer⟩

abbrev Event : Type := world.Event

/-- What was read and not consumed is remembered. -/
abbrev Step (ε α : Type) : Type := Program world (List UInt8) ε α

def ask {ε : Type} (question : Ask) : Step ε question.Answer :=
  @Program.ask world (List UInt8) ε question

/-! ## A conversation -/

inductive Request where
  | line (text : List Char)
  | notUtf8
  | tooLong
  | ended

/-- What is held of the stream, read anew only when nothing is. -/
def fillBuf : Step ReadError (List UInt8) := do
  let held ← Program.get
  if held.isEmpty then
    match (← ask .read : Except ReadError { bytes : List UInt8 // bytes.length ≤ bufferBytes }) with
    | .ok bytes => do
        Program.set bytes.1
        return bytes.1
    | .error error => Program.throw error
  else return held

def requestOf (line : List UInt8) : Request :=
  match Utf8.decode line 0 with
  | .ok text => .line text
  | .error _ => .notUtf8

/-- Takes what is held onto a line, up to its newline if it has come. -/
def takeAvailable {ε : Type} (line available : List UInt8) : Step ε (List UInt8 ⊕ Request) :=
  match available.idxOf? newline with
  | some position => do
      let line := line ++ available.take position
      Program.set (available.drop (position + 1))
      if maxRequestBytes < line.length then return .inr .tooLong
      else return .inr (requestOf line)
  | none => do
      let line := line ++ available
      Program.set []
      if maxRequestBytes < line.length then return .inr .tooLong
      else return .inl line

def readRequest {ε : Type} (rounds : Nat) : Step ε Request :=
  Program.rounds (fun line => do
    match (← ask .shutdown : Bool) with
    | true => return .inr .ended
    | false =>
        match ← fillBuf.attempt with
        | .error error => if error.waiting then return .inl line else return .inr .ended
        | .ok [] => return .inr .ended
        | .ok (first :: others) => takeAvailable line (first :: others))
    rounds []

section Converse

variable (library : Library)

def written (reply : Value) : List UInt8 := library.write reply ++ [newline]

/-- Sends a reply, and says whether the conversation goes on. -/
def deliver {ε : Type} (reply : Value) : Step ε (Unit ⊕ Unit) := do
  match (← ask .shutdown : Bool) with
  | true => return .inr ()
  | false =>
      match (← ask (.write (written library reply)) : Bool) with
      | false => return .inr ()
      | true =>
          match (← ask .flush : Bool) with
          | false => return .inr ()
          | true => return .inl ()

/-- One request, and whether the conversation goes on. -/
def turn {ε : Type} (rounds : Nat) : Step ε (Unit ⊕ Unit) := do
  match ← readRequest rounds with
  | .line text =>
      match judgeLine library text with
      | .error refusal => deliver library refusal
      | .ok id =>
          match (← ask .status : Except Cancelled SetStatus) with
          | .ok status => deliver library (success id status)
          | .error _ => return .inr ()
  | .notUtf8 => deliver library notUtf8
  | .tooLong => do
      let _ ← ask (.write (written library tooLong))
      let _ ← ask .flush
      return .inr ()
  | .ended => return .inr ()

def converse {ε : Type} (rounds : Nat) : Step ε Unit := do
  match (← ask .setUp : Bool) with
  | false => return ()
  | true => Program.rounds (fun _ => turn library rounds) rounds ()

end Converse

end Plasmosome.Membrane.Control
