import Plasmosome.Foundation.Histories
import Plasmosome.Membrane.Handshake

/-!
# Supervising the VMM child

A handle waits for its direct child, signals the child and its group, and reaps it.
The kernel and the clock are a world that answers every call, and any wait or kill
may fail. A handle remembers how far it came.
-/

namespace Plasmosome.Membrane.Vmm

open Foundation

inductive Platform where
  | linux
  | macos
deriving DecidableEq

def EPERM : Int32 := 1

def ESRCH : Int32 := 3

def EINTR : Int32 := 4

def ECHILD : Int32 := 10

def Platform.EPROTO : Platform → Int32
  | .linux => 71
  | .macos => 100

def CLD_EXITED : Int32 := 1

def CLD_KILLED : Int32 := 2

def CLD_DUMPED : Int32 := 3

/-- `POLL_INTERVAL`, 10 ms. Times are in nanoseconds. -/
def POLL_INTERVAL : Nat := 10000000

/-- The process id that a fork gave its parent. -/
structure ChildPid where
  value : Int32
  positive : 0 < value

/-- What `waitid` fills in. -/
structure SigInfo where
  pid : Int32
  code : Int32
  status : Int32
deriving DecidableEq

/-- `WNOHANG` and `WNOWAIT`. Every wait has `WEXITED`. -/
structure WaitOptions where
  nohang : Bool
  nowait : Bool
deriving DecidableEq

inductive Ask where
  | waitid (options : WaitOptions)
  | killLeader
  | killGroup
  | groupAllZombies
  | lastErrno
  | elapsed
  | sleep (length : Nat)

def Ask.Answer : Ask → Type
  | .waitid _ => Except Int32 SigInfo
  | .killLeader | .killGroup => Except Int32 Unit
  | .groupAllZombies => Bool
  | .lastErrno => Int32
  | .elapsed => Nat
  | .sleep _ => Unit

abbrev kernel : Interface := ⟨Ask, Ask.Answer⟩

abbrev Event : Type := kernel.Event

inductive Lifecycle where
  | owned
  | exitObserved (state : VmmState)
  | groupSignaled (state : VmmState)
  | finished (state : VmmState) (failure : Option SupervisionError)
deriving DecidableEq

abbrev Step (α : Type) : Type := Program kernel Lifecycle SupervisionError α

def ask (question : Ask) : Step question.Answer :=
  @Program.ask kernel Lifecycle SupervisionError question

def decodeInfo (info : SigInfo) : Option VmmState :=
  if info.code = CLD_EXITED then some (.exited (info.status &&& 0xff))
  else if info.code = CLD_KILLED ∨ info.code = CLD_DUMPED then some (.signaled info.status)
  else none

def Lifecycle.cachedState : Lifecycle → Option (Except SupervisionError VmmState)
  | .finished state failure => some (match failure with
      | some error => if error.observed.isSome then .error error else .ok state
      | none => .ok state)
  | _ => none

def Lifecycle.observedExit : Lifecycle → Option VmmState
  | .exitObserved state | .groupSignaled state => some state
  | .finished _ failure => failure.bind SupervisionError.observed
  | .owned => none

section Handle

variable (platform : Platform) (child : ChildPid) (rounds : Nat)

def protocolError (operation : SupervisionOperation) (observed : Option VmmState) :
    SupervisionError :=
  ⟨operation, platform.EPROTO, observed⟩

def waitOnce (operation : SupervisionOperation) (options : WaitOptions) :
    Step (Option VmmState) := do
  match (← ask (.waitid options) : Except Int32 SigInfo) with
  | .error errno => Program.throw ⟨operation, errno, none⟩
  | .ok info =>
      if info.pid = 0 then return none
      else if info.pid ≠ child.value then Program.throw (protocolError platform operation none)
      else
        match decodeInfo info with
        | none => Program.throw (protocolError platform operation none)
        | some state => return some state

def observe : Step VmmState := do
  let lifecycle ← Program.get
  let known := lifecycle.observedExit
  match ← (waitOnce platform child .observe ⟨true, true⟩).attempt with
  | .ok (some state) => do
      Program.set (.exitObserved state)
      return state
  | .ok none =>
      if known = none then return .running
      else Program.throw (protocolError platform .observe known)
  | .error error =>
      if error.errno = ECHILD then do
        let lost := { error with observed := known }
        Program.set (.finished .lost (some lost))
        if known = none then return .lost else Program.throw lost
      else Program.throw { error with observed := known }

def waitForLeader : Step VmmState :=
  Program.rounds (fun _ => do
    match ← (waitOnce platform child .observe ⟨false, true⟩).attempt with
    | .ok (some state) => do
        Program.set (.exitObserved state)
        return .inr state
    | .ok none => Program.throw (protocolError platform .observe none)
    | .error error =>
        if error.errno = EINTR then return .inl ()
        else if error.errno = ECHILD then do
          Program.set (.finished .lost (some error))
          Program.throw error
        else Program.throw error)
    rounds ()

def reap (blocking : Bool) : Step VmmState := do
  let lifecycle ← Program.get
  let observed := lifecycle.observedExit
  Program.rounds (fun _ => do
    match ← (waitOnce platform child .reap ⟨!blocking, false⟩).attempt with
    | .ok (some state) => do
        Program.set (.finished state none)
        return .inr state
    | .ok none => Program.throw (protocolError platform .reap observed)
    | .error error =>
        if blocking ∧ error.errno = EINTR then return .inl ()
        else if error.errno = ECHILD then do
          let lost := { error with observed }
          Program.set (.finished .lost (some lost))
          Program.throw lost
        else Program.throw { error with observed })
    rounds ()

/-- Only macOS can say that every member of a group is a zombie. -/
def groupAllZombies : Step Bool :=
  match platform with
  | .linux => return false
  | .macos => ask .groupAllZombies

def signalGroupAndReap (terminal : VmmState) (blocking : Bool) : Step VmmState := do
  match (← ask .killGroup : Except Int32 Unit) with
  | .ok () => do
      Program.set (.groupSignaled terminal)
      reap platform child rounds blocking
  | .error errno => do
      let zombies ← if errno = EPERM then groupAllZombies platform else pure false
      if errno = ESRCH ∨ zombies then do
        Program.set (.groupSignaled terminal)
        reap platform child rounds blocking
      else do
        Program.set (.exitObserved terminal)
        Program.throw ⟨.signalGroup, errno, some terminal⟩

def cachedOrRunning : Step VmmState := do
  let lifecycle ← Program.get
  Program.ofExcept (lifecycle.cachedState.getD (.ok .running))

def finishedFailure : Step SupervisionError := do
  match ← Program.get with
  | .finished _ (some error) => return error
  | _ => do
      let errno ← ask .lastErrno
      return ⟨.observe, errno, none⟩

def signalLeader : Step Unit := do
  match (← ask .killLeader : Except Int32 Unit) with
  | .ok () => return ()
  | .error errno => Program.throw ⟨.signalLeader, errno, none⟩

/-! ## The calls of a handle -/

def state : Step VmmState := do
  let lifecycle ← Program.get
  match lifecycle.cachedState with
  | some result => Program.ofExcept result
  | none =>
      match lifecycle with
      | .groupSignaled _ => reap platform child rounds false
      | _ => do
          match ← observe platform child with
          | .running | .lost => cachedOrRunning
          | terminal => signalGroupAndReap platform child rounds terminal false

/-- Whether the result of a poll lets `waitTerminal` poll again. -/
def polls (deadline : Nat) : Except SupervisionError VmmState → Step Bool
  | .ok .running => return true
  | .error error =>
      if error.errno = EINTR then do
        let elapsed : Nat ← ask .elapsed
        return elapsed < deadline
      else return false
  | _ => return false

def waitTerminal (deadline : Nat) : Step VmmState := do
  let result ← Program.rounds (fun _ => do
    let result ← (state platform child rounds).attempt
    if ← polls deadline result then do
      let elapsed : Nat ← ask .elapsed
      if deadline ≤ elapsed then return .inr result
      else do
        let _ ← ask (.sleep (min POLL_INTERVAL (deadline - elapsed)))
        return .inl ()
    else return .inr result)
    rounds ()
  Program.ofExcept result

def kill : Step Unit := do
  match ← Program.get with
  | .finished _ none => return ()
  | .finished _ (some error) => Program.throw error
  | .groupSignaled _ => do
      let _ ← reap platform child rounds true
      return ()
  | _ => do
      match ← observe platform child with
      | .lost => do
          let error ← finishedFailure
          Program.throw error
      | .running => do
          signalLeader
          let terminal ← waitForLeader platform child rounds
          let _ ← signalGroupAndReap platform child rounds terminal true
          return ()
      | terminal => do
          let _ ← signalGroupAndReap platform child rounds terminal true
          return ()

/-! ## Dropping a handle -/

/-- The errors that a drop writes to the standard error. -/
abbrev Report : Type := Option (SupervisionError × Option SupervisionError)

def reapAfterGroupFailure (terminal : VmmState) (groupError : SupervisionError) :
    Step (Option SupervisionError) := do
  let reaped ← Program.rounds (fun _ => do
    match ← (waitOnce platform child .reap ⟨true, false⟩).attempt with
    | .error error => if error.errno = EINTR then return .inl () else return .inr (.error error)
    | .ok reaped => return .inr (.ok reaped))
    rounds ()
  match (reaped : Except SupervisionError (Option VmmState)) with
  | .ok (some state) => do
      Program.set (.finished state (some groupError))
      return none
  | .ok none => return some (protocolError platform .reap (some terminal))
  | .error error =>
      let lost := { error with observed := some terminal }
      if error.errno = ECHILD then do
        Program.set (.finished .lost (some lost))
        return some lost
      else return some lost

def dropTerminal (terminal : VmmState) (blockingReap : Bool) (original : Option SupervisionError) :
    Step Report := do
  match ← (signalGroupAndReap platform child rounds terminal blockingReap).attempt with
  | .ok _ => return original.map fun error => (error, none)
  | .error error =>
      if error.operation = .signalGroup then do
        let later ← reapAfterGroupFailure platform child rounds terminal error
        return some (original.getD error, later)
      else return some (original.getD error, some error)

def dropAfterLeaderSignalFailure (original : SupervisionError) : Step Report := do
  match ← (observe platform child).attempt with
  | .ok .running => return some (original, none)
  | .ok .lost => do
      let failure ← finishedFailure
      return some (original, some failure)
  | .ok terminal => dropTerminal platform child rounds terminal false (some original)
  | .error later => return some (original, some later)

def dropUnfinished : Step Report := do
  let observed ← Program.rounds (fun _ => do
    match ← (observe platform child).attempt with
    | .error error => if error.errno = EINTR then return .inl () else return .inr (.error error)
    | .ok observed => return .inr (.ok observed))
    rounds ()
  match (observed : Except SupervisionError VmmState) with
  | .ok .lost => do
      let failure ← finishedFailure
      return some (failure, none)
  | .ok .running => do
      match ← signalLeader.attempt with
      | .error original => dropAfterLeaderSignalFailure platform child rounds original
      | .ok () => do
          match ← (waitForLeader platform child rounds).attempt with
          | .ok terminal => dropTerminal platform child rounds terminal true none
          | .error error => return some (error, none)
  | .ok terminal => dropTerminal platform child rounds terminal true none
  | .error error => return some (error, none)

def dropTeardown : Step Report := do
  match ← Program.get with
  | .finished _ failure => return failure.map fun error => (error, none)
  | .groupSignaled _ => do
      match ← (reap platform child rounds true).attempt with
      | .ok _ => return none
      | .error error => return some (error, none)
  | _ => dropUnfinished platform child rounds

/-! ## The life of a handle -/

inductive Call where
  | state
  | waitTerminal (deadline : Nat)
  | kill

inductive Reply where
  | state (state : VmmState)
  | killed

def perform : Call → Step Reply
  | .state => do
      let state ← state platform child rounds
      return .state state
  | .waitTerminal deadline => do
      let state ← waitTerminal platform child rounds deadline
      return .state state
  | .kill => do
      kill platform child rounds
      return .killed

/-- Calls one after the other, whatever they return. -/
def session : List Call → Step Unit
  | [] => return ()
  | call :: rest => do
      let _ ← (perform platform child rounds call).attempt
      session rest

/-- Any calls, and a drop. -/
def lifetime (calls : List Call) : Step Report := do
  session platform child rounds calls
  dropTeardown platform child rounds

end Handle

end Plasmosome.Membrane.Vmm
