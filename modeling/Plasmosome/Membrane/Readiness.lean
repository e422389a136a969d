import Plasmosome.Membrane.Handshake
import Plasmosome.Serde.Held

/-!
# The readiness probe

One broker socket is asked whether it is serving, inside one allowance of time.
The connection, the stream, the clock with the shutdown flag, and the waits are a
world that answers anything.
-/

namespace Plasmosome.Membrane.Probe

open Foundation
open Serde

/-! ## Judging a reply -/

inductive NotReady where
  | unreachable (path : List UInt8)
  | timedOut
  | malformed (line : String)
  | reported (state : String)
deriving DecidableEq

inductive Readiness where
  | ready (state : String)
  | notReady (why : NotReady)
deriving DecidableEq

def spent : Readiness := .notReady .timedOut

def diagnosticBytes : Nat := 1024

/-- How many bytes an ill-formed sequence takes: the longest that begin some character. -/
def illFormed : List UInt8 → Nat
  | [] => 0
  | first :: rest =>
      let follows (low high : UInt8) (byte : UInt8) : Bool := low ≤ byte && byte ≤ high
      let second : UInt8 → Bool :=
        if 0xC2 ≤ first && first ≤ 0xDF then follows 0x80 0xBF
        else if first = 0xE0 then follows 0xA0 0xBF
        else if first = 0xED then follows 0x80 0x9F
        else if 0xE1 ≤ first && first ≤ 0xEF then follows 0x80 0xBF
        else if first = 0xF0 then follows 0x90 0xBF
        else if 0xF1 ≤ first && first ≤ 0xF3 then follows 0x80 0xBF
        else if first = 0xF4 then follows 0x80 0x8F
        else fun _ => false
      match rest with
      | next :: third :: _ =>
          if !second next then 1
          else if 0xF0 ≤ first && follows 0x80 0xBF third then 3
          else 2
      | [next] => if second next then 2 else 1
      | [] => 1

/-- The text of some bytes, with one replacement character for each ill-formed sequence. -/
def lossy : Nat → List UInt8 → List Char
  | 0, _ => []
  | _ + 1, [] => []
  | fuel + 1, byte :: rest =>
      match Utf8.decodeChar? (byte :: rest) with
      | some char => char :: lossy fuel ((byte :: rest).drop char.utf8Size)
      | none => '\uFFFD' :: lossy fuel ((byte :: rest).drop (illFormed (byte :: rest)))

def diagnostic (bytes : List UInt8) : String :=
  String.ofList (lossy diagnosticBytes (bytes.take diagnosticBytes))

/-- The characters Unicode calls white space. -/
def isWhiteSpace (char : Char) : Bool :=
  let code := char.toNat
  (9 ≤ code && code ≤ 13) || code = 0x20 || code = 0x85 || code = 0xA0 || code = 0x1680 ||
    (0x2000 ≤ code && code ≤ 0x200A) || code = 0x2028 || code = 0x2029 || code = 0x202F ||
    code = 0x205F || code = 0x3000

def trim (text : List Char) : List Char :=
  ((text.dropWhile isWhiteSpace).reverse.dropWhile isWhiteSpace).reverse

/-- Judges one broker reply line. -/
def classify (library : Library) (frame : List UInt8) : Readiness :=
  match Utf8.decode frame 0 with
  | .error _ => .notReady (.malformed (diagnostic frame))
  | .ok text =>
      let trimmed := Utf8.encode (trim text)
      match library.fromStr trimmed with
      | none => .notReady (.malformed (diagnostic trimmed))
      | some value =>
          let member (value : Value) (key : String) : Option Value :=
            match value with
            | .object members => members.lookup key
            | _ => none
          let result := (member value "result").getD .null
          let state :=
            match member result "state" with
            | some (.string state) => state
            | _ => ""
          match member result "ready" with
          | some (.bool true) => .ready state
          | some (.bool false) => .notReady (.reported state)
          | _ => .notReady (.malformed (diagnostic trimmed))

/-! ## The world -/

inductive Connected where
  | yes
  | unreachable
  | stopped (stop : ProbeStopped)

inductive Ask where
  | clock
  | connect (path : List UInt8)
  | wait (interest : Interest) (limit : Nat)
  | write (bytes : List UInt8)
  | read (room : Nat)

/-- A write takes no more than it was given, and a read gives no more than there is room for. -/
def Ask.Answer : Ask → Type
  | .clock => Reading
  | .connect _ => Connected
  | .wait _ _ => Except SystemError Bool
  | .write bytes => Except SystemError { sent : Nat // sent ≤ bytes.length }
  | .read room => Except SystemError { bytes : List UInt8 // bytes.length ≤ room }

abbrev world : Interface := ⟨Ask, Ask.Answer⟩

abbrev Event : Type := world.Event

abbrev Step (ε α : Type) : Type := Program world Unit ε α

def ask {ε : Type} (question : Ask) : Step ε question.Answer := @Program.ask world Unit ε question

section Steps

variable (budget : ProbeBudget) (rounds : Nat)

def remaining : Step ProbeStopped Nat := do
  let reading ← ask .clock
  Program.ofExcept (budget.remainingAt reading)

def waitReady (interest : Interest) : Step Halted Unit :=
  Program.rounds (fun _ => do
    let left ← (remaining budget).mapError Halted.stopped
    match (← ask (.wait interest (min left maxWait)) : Except SystemError Bool) with
    | .ok true => return .inr ()
    | .ok false => return .inl ()
    | .error error =>
        if error.kind = .interrupted then return .inl () else Program.throw (.failed error))
    rounds ()

def sendWithin (request : List UInt8) : Step Halted Unit :=
  Program.rounds (fun written =>
    if request.length ≤ written then return .inr ()
    else do
      let _ ← (remaining budget).mapError Halted.stopped
      match (← ask (.write (request.drop written)) :
        Except SystemError { sent : Nat // sent ≤ (request.drop written).length }) with
      | .ok sent =>
          if sent.1 = 0 then Program.throw .ended else return .inl (written + sent.1)
      | .error error =>
          match error.kind with
          | .wouldBlock => do
              waitReady budget rounds .writable
              return .inl written
          | .interrupted => return .inl written
          | _ => Program.throw (.failed error))
    rounds 0

def readFrameWithin : Step Halted Frame :=
  Program.rounds (fun frame => do
    let _ ← (remaining budget).mapError Halted.stopped
    let room := maxResponseBytes + 1 - frame.length
    match (← ask (.read (min readChunk room)) :
      Except SystemError { bytes : List UInt8 // bytes.length ≤ min readChunk room }) with
    | .ok ⟨[], _⟩ => Program.throw .ended
    | .ok ⟨first :: others, _⟩ => do
        let _ ← (remaining budget).mapError Halted.stopped
        let bytes := first :: others
        match bytes.idxOf? newline with
        | some position =>
            return .inr (.line (frame ++ bytes.take position) (position + 1 < bytes.length))
        | none =>
            let frame := frame ++ bytes
            if maxResponseBytes < frame.length then return .inr (.tooLarge frame)
            else return .inl frame
    | .error error =>
        match error.kind with
        | .wouldBlock => do
            waitReady budget rounds .readable
            return .inl frame
        | .interrupted => return .inl frame
        | _ => Program.throw (.failed error))
    rounds []

structure Cancelled where
deriving DecidableEq

def verdictOf : Halted → Step Cancelled Readiness
  | .stopped .cancelled => Program.throw ⟨⟩
  | .stopped .timedOut | .ended | .failed _ => return spent

def statusRequest : List UInt8 :=
  Utf8.encode "\x7b\"id\":0,\"method\":\"membrane.status\",\"params\":\x7b\x7d\x7d\n".toList

variable (library : Library)

def exchange (request : List UInt8) : Step Cancelled Readiness := do
  match ← (sendWithin budget rounds request).attempt with
  | .error halted => verdictOf halted
  | .ok () =>
      match ← (readFrameWithin budget rounds).attempt with
      | .ok (.line bytes _) => return classify library bytes
      | .ok (.tooLarge bytes) => return .notReady (.malformed (diagnostic bytes))
      | .error halted => verdictOf halted

/-- Checks the budget, and goes on when something is left. -/
def checked (next : Step Cancelled Readiness) : Step Cancelled Readiness := do
  match ← (remaining budget).attempt with
  | .ok _ => next
  | .error .cancelled => Program.throw ⟨⟩
  | .error .timedOut => return spent

def probeWith (socket : List UInt8) : Step Cancelled Readiness :=
  checked budget do
    match (← ask (.connect socket) : Connected) with
    | .unreachable => return .notReady (.unreachable socket)
    | .stopped .cancelled => Program.throw ⟨⟩
    | .stopped .timedOut => return spent
    | .yes =>
        checked budget do
          let verdict ← (exchange budget rounds library statusRequest).attempt
          checked budget (Program.ofExcept verdict)

end Steps

end Plasmosome.Membrane.Probe
