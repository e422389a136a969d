import Plasmosome.Foundation.Machine
import Plasmosome.Foundation.Checks

/-!
# The supervisor lock

One cell directory with the names `supervisor.lock.tmp` and `supervisor.lock`,
and any number of calls that create, probe or test the lock. Each call moves by
one filesystem operation at a time, and any operation may fail. A `flock` belongs
to the open file of one call, or to a copy of it outside all calls.
-/

namespace Plasmosome.Instance.SupervisorLock

open Foundation

abbrev Inode := Nat

abbrev CallId := Nat

inductive Errno where
  | noEntry
  | exists
  | wouldBlock
  | isDirectory
  | loop
  | other (code : Nat)
deriving DecidableEq

inductive Kind where
  | regular
  | symlink
  | directory
  | other
deriving DecidableEq

structure Entry where
  kind : Kind
  inode : Inode
deriving DecidableEq

/-- The open file a `flock` belongs to. -/
inductive Holder where
  | call (id : CallId)
  | outside
deriving DecidableEq

/-- The path an error names. -/
inductive Place where
  | supervisorLockTemporary
  | supervisorLock
  | directory
deriving DecidableEq

inductive CellDirError where
  | symlink (path : Place)
  | notARegularFile (path : Place)
  | alreadyExists (path : Place)
  | acl (path : Place)
  | lockNotNamed (path : Place)
  | io (path : Place) (errno : Errno)
deriving DecidableEq

/-- A cell directory. A new file takes the inode `next`, and every later file a later one. -/
structure CellDir where
  temporary : Option Entry
  lock : Option Entry
  next : Inode
  flocks : Inode → Option Holder
  acls : Inode → Bool

/-- An operation that fails when the system injects an error, and otherwise answers. -/
def attempt {α : Type} (fault : Option Errno) (answer : Except Errno α) : Except Errno α :=
  match fault with
  | some errno => .error errno
  | none => answer

theorem attempt_eq_ok {α : Type} {fault : Option Errno} {answer : Except Errno α} {value : α} :
    attempt fault answer = .ok value ↔ fault = none ∧ answer = .ok value := by
  cases fault <;> simp [attempt]

namespace CellDir

variable (dir : CellDir)

def removeTemporary : Except Errno CellDir :=
  match dir.temporary with
  | none => .error .noEntry
  | some entry =>
      if entry.kind = .directory then .error .isDirectory
      else .ok { dir with temporary := none }

def removeIfPresent (fault : Option Errno) : Except Errno CellDir :=
  match attempt fault dir.removeTemporary with
  | .error .noEntry => .ok dir
  | removed => removed

def createTemporary : Except Errno CellDir :=
  match dir.temporary with
  | some _ => .error .exists
  | none => .ok { dir with temporary := some ⟨.regular, dir.next⟩, next := dir.next + 1 }

def renameNoReplace : Except Errno CellDir :=
  match dir.temporary, dir.lock with
  | none, _ => .error .noEntry
  | some _, some _ => .error .exists
  | some entry, none => .ok { dir with temporary := none, lock := some entry }

def statLock : Except Errno Entry :=
  match dir.lock with
  | none => .error .noEntry
  | some entry => .ok entry

/-- `O_NOFOLLOW | O_NONBLOCK`: only a symlink is not opened. -/
def openLock : Except Errno Entry :=
  match dir.lock with
  | none => .error .noEntry
  | some entry => if entry.kind = .symlink then .error .loop else .ok entry

def setFlock (file : Inode) (holder : Option Holder) : CellDir :=
  { dir with flocks := Function.update dir.flocks file holder }

/-- `flock(LOCK_EX | LOCK_NB)` on a file just opened. -/
def lockExclusiveNonblocking (id : CallId) (file : Inode) : Except Errno CellDir :=
  match dir.flocks file with
  | none => .ok (dir.setFlock file (some (.call id)))
  | some _ => .error .wouldBlock

def lockInode : Option Inode := dir.lock.map Entry.inode

end CellDir

inductive Call where
  | create
  | probe
  | test
deriving DecidableEq

/-- What a call is about to do. The stages down to `releasing` belong to a create,
the others to a probe. -/
inductive Stage where
  | removingLeftover
  | creatingTemporary
  | checkingAcl (file : Inode)
  | changingMode (file : Inode)
  | lockingTemporary (file : Inode)
  | abandoning (error : CellDirError)
  | naming (file : Inode)
  | readingKind (file : Inode)
  | clearing (file : Inode) (error : CellDirError)
  | statingName (file : Inode)
  | statingHeld (file named : Inode)
  | syncing (file : Inode)
  | releasing (file : Inode) (error : CellDirError)
  | opening
  | refusing (errno : Errno)
  | readingMetadata (entry : Entry)
  | checkingNamedAcl (file : Inode)
  | lockingNamed (file : Inode)
deriving DecidableEq

/-- What a call returned. `created` and `free` carry a `SupervisorLock`; a test turns both into
`Free` and every failure into `Untestable`. -/
inductive Reply where
  | created (file : Inode)
  | free (file : Inode)
  | held
  | missing
  | failed (error : CellDirError)
deriving DecidableEq

inductive Phase where
  | idle
  | running (call : Call) (stage : Stage)
  | returned (call : Call) (reply : Reply)
  | dropped (call : Call) (reply : Reply)
deriving DecidableEq

def Call.firstStage : Call → Stage
  | .create => .removingLeftover
  | .probe => .opening
  | .test => .opening

/-- `test_supervisor_lock` creates the lock its probe did not find. -/
def Call.onMissing : Call → Phase
  | .create => .returned .create .missing
  | .probe => .returned .probe .missing
  | .test => .running .test .removingLeftover

/-- One operation of a call, which `fault` makes fail. -/
def CellDir.advance (dir : CellDir) (id : CallId) (call : Call) (fault : Option Errno) :
    Stage → CellDir × Phase
  | .removingLeftover =>
      match dir.removeIfPresent fault with
      | .ok removed => (removed, .running call .creatingTemporary)
      | .error errno => (dir, .returned call (.failed (.io .supervisorLockTemporary errno)))
  | .creatingTemporary =>
      match attempt fault dir.createTemporary with
      | .ok created => (created, .running call (.checkingAcl dir.next))
      | .error .exists =>
          (dir, .running call (.abandoning (.alreadyExists .supervisorLockTemporary)))
      | .error errno => (dir, .running call (.abandoning (.io .supervisorLockTemporary errno)))
  | .checkingAcl file =>
      match attempt fault (.ok (dir.acls file)) with
      | .ok true => (dir, .running call (.abandoning (.acl .supervisorLockTemporary)))
      | .ok false => (dir, .running call (.changingMode file))
      | .error errno => (dir, .running call (.abandoning (.io .supervisorLockTemporary errno)))
  | .changingMode file =>
      match fault with
      | none => (dir, .running call (.lockingTemporary file))
      | some errno => (dir, .running call (.abandoning (.io .supervisorLockTemporary errno)))
  | .lockingTemporary file =>
      match attempt fault (dir.lockExclusiveNonblocking id file) with
      | .ok locked => (locked, .running call (.naming file))
      | .error errno => (dir, .running call (.abandoning (.io .supervisorLockTemporary errno)))
  -- the file is already closed here, and it was never locked
  | .abandoning error =>
      match dir.removeIfPresent fault with
      | .ok removed => (removed, .returned call (.failed error))
      | .error errno => (dir, .returned call (.failed (.io .supervisorLockTemporary errno)))
  | .naming file =>
      match attempt fault dir.renameNoReplace with
      | .ok renamed => (renamed, .running call (.statingName file))
      | .error .exists => (dir, .running call (.readingKind file))
      | .error errno => (dir, .running call (.clearing file (.io .supervisorLock errno)))
  | .readingKind file =>
      match attempt fault dir.statLock with
      | .ok ⟨.symlink, _⟩ => (dir, .running call (.clearing file (.symlink .supervisorLock)))
      | .ok ⟨.directory, _⟩ | .ok ⟨.other, _⟩ =>
          (dir, .running call (.clearing file (.notARegularFile .supervisorLock)))
      | .ok ⟨.regular, _⟩ | .error _ =>
          (dir, .running call (.clearing file (.alreadyExists .supervisorLock)))
  | .clearing file error =>
      match dir.removeIfPresent fault with
      | .ok removed => (removed, .running call (.releasing file error))
      | .error errno =>
          (dir, .running call (.releasing file (.io .supervisorLockTemporary errno)))
  | .statingName file =>
      match attempt fault dir.statLock with
      | .ok named => (dir, .running call (.statingHeld file named.inode))
      | .error errno => (dir, .running call (.releasing file (.io .supervisorLock errno)))
  | .statingHeld file named =>
      match fault with
      | none =>
          if named = file then (dir, .running call (.syncing file))
          else (dir, .running call (.releasing file (.lockNotNamed .supervisorLock)))
      | some errno => (dir, .running call (.releasing file (.io .supervisorLock errno)))
  | .syncing file =>
      match fault with
      | none => (dir, .returned call (.created file))
      | some errno => (dir, .running call (.releasing file (.io .directory errno)))
  -- `LOCK_UN`, then the close on return: the second releases even when the first fails
  | .releasing file error => (dir.setFlock file none, .returned call (.failed error))
  | .opening =>
      match attempt fault dir.openLock with
      | .ok entry => (dir, .running call (.readingMetadata entry))
      | .error .loop => (dir, .returned call (.failed (.symlink .supervisorLock)))
      | .error errno => (dir, .running call (.refusing errno))
  | .refusing errno =>
      match attempt fault dir.statLock with
      | .ok ⟨.symlink, _⟩ => (dir, .returned call (.failed (.symlink .supervisorLock)))
      | .ok ⟨.directory, _⟩ | .ok ⟨.other, _⟩ =>
          (dir, .returned call (.failed (.notARegularFile .supervisorLock)))
      | .ok ⟨.regular, _⟩ | .error _ =>
          if errno = .noEntry then (dir, call.onMissing)
          else (dir, .returned call (.failed (.io .supervisorLock errno)))
  | .readingMetadata entry =>
      match fault with
      | none =>
          if entry.kind = .regular then (dir, .running call (.checkingNamedAcl entry.inode))
          else (dir, .returned call (.failed (.notARegularFile .supervisorLock)))
      | some errno => (dir, .returned call (.failed (.io .supervisorLock errno)))
  | .checkingNamedAcl file =>
      match attempt fault (.ok (dir.acls file)) with
      | .ok true => (dir, .returned call (.failed (.acl .supervisorLock)))
      | .ok false => (dir, .running call (.lockingNamed file))
      | .error errno => (dir, .returned call (.failed (.io .supervisorLock errno)))
  | .lockingNamed file =>
      match attempt fault (dir.lockExclusiveNonblocking id file) with
      | .ok locked => (locked, .returned call (.free file))
      | .error .wouldBlock => (dir, .returned call .held)
      | .error errno => (dir, .returned call (.failed (.io .supervisorLock errno)))

/-- The directory and every call on it. -/
structure World where
  dir : CellDir
  calls : CallId → Phase

/-- `drop` closes the descriptor of a returned lock. When it was `copied` before, the copy keeps
the `flock` until it is closed itself. -/
inductive Event where
  | begin (id : CallId) (call : Call)
  | advance (id : CallId) (fault : Option Errno)
  | drop (id : CallId) (copied : Bool)
  | closeOutside (file : Inode)
deriving DecidableEq

namespace World

def setPhase (world : World) (id : CallId) (dir : CellDir) (phase : Phase) : World :=
  ⟨dir, Function.update world.calls id phase⟩

def dropLock (world : World) (id : CallId) (copied : Bool) (file : Inode) (phase : Phase) :
    World :=
  world.setPhase id (world.dir.setFlock file (if copied then some .outside else none)) phase

/-- One event; one that is not possible here changes nothing. -/
def step (world : World) : Event → World
  | .begin id call =>
      match world.calls id with
      | .idle => world.setPhase id world.dir (.running call call.firstStage)
      | _ => world
  | .advance id fault =>
      match world.calls id with
      | .running call stage =>
          world.setPhase id (world.dir.advance id call fault stage).1
            (world.dir.advance id call fault stage).2
      | _ => world
  | .drop id copied =>
      match world.calls id with
      | .returned call (.created file) =>
          world.dropLock id copied file (.dropped call (.created file))
      | .returned call (.free file) => world.dropLock id copied file (.dropped call (.free file))
      | _ => world
  | .closeOutside file =>
      match world.dir.flocks file with
      | some .outside => { world with dir := world.dir.setFlock file none }
      | _ => world

/-- Any directory, with locks that only open files outside every call hold. -/
def start (temporary lock : Option Entry) (next : Inode) (heldOutside acls : Inode → Bool) :
    World :=
  { dir :=
      { temporary, lock, next, acls
        flocks := fun file => if heldOutside file then some .outside else none }
    calls := fun _ => .idle }

def machine : Machine World Event Unit := ⟨fun world event => ((), world.step event)⟩

/-- The world after the first `time` events. -/
def after (world : World) (events : List Event) (time : Nat) : World :=
  machine.final world (events.take time)

end World

end Plasmosome.Instance.SupervisorLock
