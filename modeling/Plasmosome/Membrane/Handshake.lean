import Plasmosome.Foundation.Interaction
import Plasmosome.Membrane.Hello

/-!
# The boot handshake

Two control connections and a data connection are accepted in turn, and each
control connection's hello is answered before the next step. The listeners, the
peers, the clock, the liveness check and the waits are a world that answers
anything. A stream is named by the stage that accepted it.
-/

namespace Plasmosome.Membrane

open Foundation
open Serde

inductive Stage where
  | normalAccept
  | normalReply
  | withdrawalAccept
  | withdrawalReply
  | dataAccept
deriving DecidableEq

inductive VmmState where
  | running
  | exited (code : Int32)
  | signaled (signal : Int32)
  | lost
deriving DecidableEq

inductive SupervisionOperation where
  | observe
  | signalLeader
  | signalGroup
  | reap
deriving DecidableEq

structure SupervisionError where
  operation : SupervisionOperation
  errno : Int32
  observed : Option VmmState
deriving DecidableEq

inductive Liveness where
  | running
  | ended (state : VmmState)
  | unknown (error : SupervisionError)
deriving DecidableEq

/-- The refusals that an accept or a read of a peer's process id can give. -/
inductive PrivateSocketError where
  | peerMismatch (trusted found : UInt32)
  | peerCredentials (errno : Int32)
  | io (op path : String) (errno : Int32)
deriving DecidableEq

inductive ErrorKind where
  | interrupted
  | wouldBlock
  | brokenPipe
  | connectionReset
  | other
deriving DecidableEq

structure SystemError where
  kind : ErrorKind
  rawOsError : Option Int32
deriving DecidableEq

inductive HandshakeFailure where
  | cancelled (stage : Stage)
  | timedOut (stage : Stage)
  | helperEnded (stage : Stage) (state : VmmState)
  | livenessUnknown (stage : Stage) (error : SupervisionError)
  | foreignPeer (stage : Stage) (expected found : Int32)
  | peerRefused (stage : Stage) (refusal : PrivateSocketError)
  | refused (stage : Stage) (refusal : HelloRefusal)
  | frameTooLarge (stage : Stage)
  | unexpectedBytes (stage : Stage)
  | closed (stage : Stage)
  | io (stage : Stage) (errno : Int32)
deriving DecidableEq

/-! ## The world -/

inductive Listener where
  | control
  | data
deriving DecidableEq

inductive Fd where
  | listener (listener : Listener)
  | stream (stream : Stage)
deriving DecidableEq

inductive Interest where
  | readable
  | writable
deriving DecidableEq

inductive Connection where
  | identified (pid : Int32)
  | refused (refusal : PrivateSocketError)

/-- The clock reading of a budget check, with the shutdown flag it saw. -/
structure Reading where
  now : Nat
  shutdown : Bool

inductive Ask where
  | clock
  | acceptReady (listener : Listener)
  | alive
  | wait (fd : Fd) (interest : Interest) (limit : Nat)
  | write (stream : Stage) (bytes : List UInt8)
  | read (stream : Stage) (room : Nat)
  | peerPid (stream : Stage)

/-- A write takes no more than it was given, and a read gives no more than there is room for. -/
def Ask.Answer : Ask → Type
  | .clock => Reading
  | .acceptReady _ => Except SystemError (Option Connection)
  | .alive => Liveness
  | .wait _ _ _ => Except SystemError Bool
  | .write _ bytes => Except SystemError { sent : Nat // sent ≤ bytes.length }
  | .read _ room => Except SystemError { bytes : List UInt8 // bytes.length ≤ room }
  | .peerPid _ => Except SystemError Int32

abbrev world : Interface := ⟨Ask, Ask.Answer⟩

abbrev Event : Type := world.Event

/-- A step of the handshake. It remembers why the liveness check stopped a wait. -/
abbrev Step (ε α : Type) : Type := Program world (Option Liveness) ε α

def ask {ε : Type} (question : Ask) : Step ε question.Answer :=
  @Program.ask world (Option Liveness) ε question

/-! ## Budgets -/

inductive ProbeStopped where
  | timedOut
  | cancelled
deriving DecidableEq

/-- Times are in nanoseconds. -/
structure ProbeBudget where
  start : Nat
  allowance : Nat

def ProbeBudget.remainingAt (budget : ProbeBudget) (reading : Reading) : Except ProbeStopped Nat :=
  if reading.shutdown then .error .cancelled
  else if reading.now - budget.start < budget.allowance then
    .ok (budget.allowance - (reading.now - budget.start))
  else .error .timedOut

inductive Halted where
  | stopped (stop : ProbeStopped)
  | ended
  | failed (error : SystemError)

/-- `MAX_WAIT`, 25 ms. -/
def maxWait : Nat := 25000000

def maxResponseBytes : Nat := 1048576

def readChunk : Nat := 8 * 1024

/-- `EIO` -/
def errnoIo : Int32 := 5

inductive Frame where
  | line (bytes : List UInt8) (trailing : Bool)
  | tooLarge (bytes : List UInt8)

section Steps

variable (budget : ProbeBudget) (rounds : Nat)

def remaining : Step ProbeStopped Nat := do
  let reading ← ask .clock
  Program.ofExcept (budget.remainingAt reading)

/-- A wait that is asked only while the helper runs. -/
def guarded (fd : Fd) (interest : Interest) (limit : Nat) : Step SystemError Bool := do
  match (← ask .alive : Liveness) with
  | .running => do
      let answer ← ask (.wait fd interest limit)
      Program.ofExcept answer
  | stopped => do
      Program.set (some stopped)
      Program.throw ⟨.other, none⟩

def waitReady (fd : Fd) (interest : Interest) : Step Halted Unit :=
  Program.rounds (fun _ => do
    let left ← (remaining budget).mapError Halted.stopped
    match ← (guarded fd interest (min left maxWait)).attempt with
    | .ok true => return .inr ()
    | .ok false => return .inl ()
    | .error error =>
        if error.kind = .interrupted then return .inl () else Program.throw (.failed error))
    rounds ()

def sendWithin (stream : Stage) (request : List UInt8) : Step Halted Unit :=
  Program.rounds (fun written =>
    if request.length ≤ written then return .inr ()
    else do
      let _ ← (remaining budget).mapError Halted.stopped
      match (← ask (.write stream (request.drop written)) :
        Except SystemError { sent : Nat // sent ≤ (request.drop written).length }) with
      | .ok sent =>
          if sent.1 = 0 then Program.throw .ended else return .inl (written + sent.1)
      | .error error =>
          match error.kind with
          | .wouldBlock => do
              waitReady budget rounds (.stream stream) .writable
              return .inl written
          | .interrupted => return .inl written
          | _ => Program.throw (.failed error))
    rounds 0

def readFrameWithin (stream : Stage) : Step Halted Frame :=
  Program.rounds (fun frame => do
    let _ ← (remaining budget).mapError Halted.stopped
    let room := maxResponseBytes + 1 - frame.length
    match (← ask (.read stream (min readChunk room)) :
      Except SystemError { bytes : List UInt8 // bytes.length ≤ min readChunk room }) with
    | .ok ⟨[], _⟩ => Program.throw .ended
    | .ok ⟨first :: others, _⟩ => do
        let _ ← (remaining budget).mapError Halted.stopped
        let bytes := first :: others
        match bytes.idxOf? newline with
        | some position =>
            return .inr (.line (frame ++ bytes.take position) (position + 1 < bytes.length))
        | none =>
            let frame := frame ++ bytes
            if maxResponseBytes < frame.length then return .inr (.tooLarge frame)
            else return .inl frame
    | .error error =>
        match error.kind with
        | .wouldBlock => do
            waitReady budget rounds (.stream stream) .readable
            return .inl frame
        | .interrupted => return .inl frame
        | _ => Program.throw (.failed error))
    rounds []

def stopped (stage : Stage) : ProbeStopped → HandshakeFailure
  | .cancelled => .cancelled stage
  | .timedOut => .timedOut stage

def ioFailure (stage : Stage) (error : SystemError) : HandshakeFailure :=
  match error.kind with
  | .brokenPipe | .connectionReset => .closed stage
  | _ => .io stage (error.rawOsError.getD errnoIo)

def authentic (expected found : Int32) : Bool := 0 < found && found = expected

structure Expected where
  peer : Int32
  policy : Digest

variable (expected : Expected)

def gate (stage : Stage) : Step HandshakeFailure Nat :=
  (remaining budget).mapError (stopped stage)

def authenticate (stage : Stage) (found : Int32) : Step HandshakeFailure Unit :=
  if authentic expected.peer found then return ()
  else Program.throw (.foreignPeer stage expected.peer found)

/-- The failure of a step: that of the liveness check, if it stopped a wait. -/
def failed {α : Type} (stage : Stage) (halted : Halted) : Step HandshakeFailure α := do
  match ← Program.replace none with
  | some (.ended state) => Program.throw (.helperEnded stage state)
  | some (.unknown error) => Program.throw (.livenessUnknown stage error)
  | some .running | none =>
      match halted with
      | .stopped stop => Program.throw (stopped stage stop)
      | .ended => Program.throw (.closed stage)
      | .failed error => Program.throw (ioFailure stage error)

def accept (listener : Listener) (stage : Stage) : Step HandshakeFailure Stage :=
  Program.rounds (fun _ => do
    match (← ask (.acceptReady listener) : Except SystemError (Option Connection)) with
    | .ok (some (.identified pid)) => do
        authenticate expected stage pid
        let _ ← gate budget stage
        return .inr stage
    | .ok (some (.refused refusal)) => Program.throw (.peerRefused stage refusal)
    | .error error => Program.throw (ioFailure stage error)
    | .ok none => do
        let left ← gate budget stage
        match ← (guarded (.listener listener) .readable (min left maxWait)).attempt with
        | .ok _ => return .inl ()
        | .error error =>
            if error.kind = .interrupted then return .inl ()
            else failed stage (.failed error))
    rounds ()

def hello {α : Type} (stream : Stage) (lane : ControlLane) (stage : Stage)
    (judge : List UInt8 → Except HelloRefusal α) : Step HandshakeFailure α := do
  match ← (sendWithin budget rounds stream (helloRequest lane)).attempt with
  | .error halted => failed stage halted
  | .ok () =>
      match ← (readFrameWithin budget rounds stream).attempt with
      | .error halted => failed stage halted
      | .ok (.tooLarge _) => Program.throw (.frameTooLarge stage)
      | .ok (.line bytes trailing) =>
          match (← ask (.peerPid stream) : Except SystemError Int32) with
          | .error error =>
              Program.throw (.peerRefused stage (.peerCredentials (error.rawOsError.getD errnoIo)))
          | .ok sender => do
              authenticate expected stage sender
              if trailing then Program.throw (.unexpectedBytes stage)
              else
                match judge bytes with
                | .error refusal => Program.throw (.refused stage refusal)
                | .ok judged => do
                    let _ ← gate budget stage
                    return judged

/-- The three streams, the boot token of both hellos, their policy and the peer of each stream. -/
structure Association where
  boot : BootToken
  policy : Digest
  peer : Int32
  normal : Stage
  withdrawal : Stage
  data : Stage

/-- `rounds` bounds every loop: a run that needs more is still running. -/
def handshakeWith (library : Library) : Step HandshakeFailure Association := do
  let _ ← gate budget .normalAccept
  let normal ← accept budget rounds expected .control .normalAccept
  let boot ← hello budget rounds expected normal .normal .normalReply fun frame =>
    judgeNormal library frame expected.policy
  let withdrawal ← accept budget rounds expected .control .withdrawalAccept
  hello budget rounds expected withdrawal .withdrawal .withdrawalReply fun frame =>
    judgeWithdrawal library frame expected.policy boot
  let data ← accept budget rounds expected .data .dataAccept
  return ⟨boot, expected.policy, expected.peer, normal, withdrawal, data⟩

end Steps

end Plasmosome.Membrane
