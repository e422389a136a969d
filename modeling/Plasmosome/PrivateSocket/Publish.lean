import Plasmosome.Foundation.Machine

/-!
# Publishing a private socket

One held directory and any number of calls that bind, close and drop listeners in
it. Each call moves by one system call at a time, and any of them may fail. A
socket is bound at a temporary name, restricted, made listening there, and renamed.
-/

namespace Plasmosome.PrivateSocket

open Foundation

abbrev Name := String

abbrev CallId := Nat

inductive Errno where
  | noEntry
  | exists
  | addressInUse
  | notSupported
  | other (code : Nat)
deriving DecidableEq

inductive Kind where
  | socket
  | directory
  | other
deriving DecidableEq

/-- An entry of the directory. No call reads `maker`, the call whose `bind` made it, `listened`,
whether `listen` was called on its socket, or `published`, whether a rename put it there. -/
structure Entry where
  kind : Kind
  uid : Nat
  mode : Nat
  inode : Nat
  maker : Option CallId
  listened : Bool
  published : Bool
deriving DecidableEq

abbrev Directory := Name → Option Entry

/-- A system call that fails when the kernel injects an error, and otherwise answers. -/
def attempt {α : Type} (fault : Option Errno) (answer : Except Errno α) : Except Errno α :=
  match fault with
  | some errno => .error errno
  | none => answer

namespace Directory

variable (dir : Directory)

def set (name : Name) (entry : Option Entry) : Directory := Function.update dir name entry

def stat (name : Name) : Except Errno Entry :=
  match dir name with
  | none => .error .noEntry
  | some entry => .ok entry

/-- `bind` creates the entry, and finds the directory itself at the empty name. -/
def bindAt (name : Name) (entry : Entry) : Except Errno Directory :=
  if name = "" then .error .addressInUse
  else
    match dir name with
    | some _ => .error .addressInUse
    | none => .ok (dir.set name (some entry))

def chmod (name : Name) (mode : Nat) : Except Errno Directory :=
  match dir name with
  | none => .error .noEntry
  | some entry => .ok (dir.set name (some { entry with mode }))

/-- `listen` on the socket that a call bound. -/
def listen (id : CallId) : Directory := fun name =>
  (dir name).map fun entry => if entry.maker = some id then { entry with listened := true } else entry

def renameNoReplace (source target : Name) : Except Errno Directory :=
  match dir source, dir target with
  | none, _ => .error .noEntry
  | some _, some _ => .error .exists
  | some entry, none =>
      .ok ((dir.set source none).set target (some { entry with published := true }))

def unlink (name : Name) : Except Errno Directory :=
  match dir name with
  | none => .error .noEntry
  | some entry => if entry.kind = .directory then .error (.other 1) else .ok (dir.set name none)

end Directory

/-- The operation an `Io` error names. -/
inductive Op where
  | fstatat
  | socket
  | bind
  | fchmodat
  | listen
  | fcntl
  | rename
deriving DecidableEq

/-- The path an error names is that of a name in the directory, or of the directory itself. -/
inductive PrivateSocketError where
  | badName (name : Name)
  | pathTooLong (path : Name)
  | directory (errno : Errno)
  | addressInUse (path : Name)
  | bindEscaped (path : Name)
  | notASocket (path : Name)
  | socketOwner (path : Name) (uid : Nat)
  | socketMode (path : Name) (mode : Nat)
  | io (op : Op) (path : Option Name) (errno : Errno)
deriving DecidableEq

inductive RemoveOutcome where
  | removed
  | alreadyGone
  | leftReplacement
  | failed (errno : Errno)
deriving DecidableEq

structure BoundEntry where
  name : Name
  inode : Nat
deriving DecidableEq

def TEMPORARY_LENGTH : Nat := 16

def TEMPORARY_DRAWS : Nat := 8

def TEMPORARY_CHARACTERS : List Char := "0123456789abcdefghijklmnopqrstuvwxyz".toList

/-- The temporary name of some picks among the characters, as long as there is room for. -/
def randomTemporary (room : Nat) (picks : Nat → Fin 36) : Name :=
  let length := min room TEMPORARY_LENGTH
  let pick := fun index => TEMPORARY_CHARACTERS.getD (picks index).val '0'
  if 2 ≤ length then String.ofList ('.' :: (List.range (length - 1)).map pick)
  else String.ofList ((List.range length).map pick)

def isEntryName (name : Name) : Bool :=
  !(name == "" || name == "." || name == ".." || name.toList.contains '/' ||
    name.toList.contains '\x00')

def eqIgnoreAsciiCase (first second : Name) : Bool :=
  first.toList.map Char.toLower == second.toList.map Char.toLower

def judgeSocket (entry : Entry) (trusted : Nat) (path : Name) : Except PrivateSocketError Unit :=
  if entry.kind ≠ .socket then .error (.notASocket path)
  else if entry.uid ≠ trusted then .error (.socketOwner path entry.uid)
  else if entry.mode &&& 0o777 ≠ 0o600 then .error (.socketMode path entry.mode)
  else .ok ()

/-- What a `publish` is about to do. -/
inductive Stage where
  | reconfirming
  | statingName
  | openingSocket
  | drawing (left : Nat) (taken : Option Name)
  | rechecking (temporary : Name)
  | statingCreated (temporary : Name) (recheck : Option Errno)
  | restricting (bound : BoundEntry)
  | restatingRestricting (bound : BoundEntry)
  | restrictingFollowed (bound : BoundEntry)
  | statingRestricted (bound : BoundEntry)
  | listening (bound : BoundEntry)
  | settingNonblocking (bound : BoundEntry)
  | renaming (bound : BoundEntry)
deriving DecidableEq

/-- Why a bound entry is removed: a publish failed, or its listener is closed or dropped. -/
inductive Reason where
  | failed (error : PrivateSocketError)
  | closed
  | dropped
deriving DecidableEq

/-- Where a call stands. A failed one says also whether a look at its own temporary or the
removal of it failed on the way out. -/
inductive Phase where
  | idle
  | publishing (name : Name) (stage : Stage)
  | listener (bound : BoundEntry)
  | removing (bound : BoundEntry) (reason : Reason)
  | unlinking (bound : BoundEntry) (reason : Reason)
  | failed (error : PrivateSocketError) (stranded : Bool)
  | closed (outcome : RemoveOutcome)
  | dropped (outcome : RemoveOutcome)
deriving DecidableEq

/-- What a removal returns to. -/
def Reason.done (reason : Reason) (fault : Option Errno) (outcome : RemoveOutcome) : Phase :=
  match reason with
  | .failed error => .failed error fault.isSome
  | .closed => .closed outcome
  | .dropped => .dropped outcome

def goneOrFailed : Errno → RemoveOutcome
  | .noEntry => .alreadyGone
  | errno => .failed errno

/-- What the kernel chooses for one system call: an error to inject, the picks of a temporary,
and the mode and inode of a socket it creates. -/
structure Choice where
  fault : Option Errno
  picks : Nat → Fin 36
  mode : Nat
  inode : Nat

/-- What stays the same during all calls: the effective user, the room for a temporary name, and
which paths fit a socket address. -/
structure Setting where
  owner : Nat
  room : Nat
  fits : Name → Bool

section Advance

variable (setting : Setting) (dir : Directory) (id : CallId) (choice : Choice)

/-- The entry that `bind` makes. -/
def created : Entry :=
  { kind := .socket, uid := setting.owner, mode := choice.mode, inode := choice.inode,
    maker := some id, listened := false, published := false }

/-- One draw of a temporary, and the `bind` at it. -/
def drawOnce (name : Name) (left : Nat) (taken : Option Name) : Directory × Phase :=
  match left with
  | 0 => (dir, .failed (.io .bind taken .addressInUse) false)
  | left + 1 =>
      let candidate := randomTemporary setting.room choice.picks
      if eqIgnoreAsciiCase candidate name then (dir, .publishing name (.drawing left taken))
      else if !setting.fits candidate then (dir, .failed (.pathTooLong candidate) false)
      else
        match attempt choice.fault (dir.bindAt candidate (created setting id choice)) with
        | .ok bound =>
            if isEntryName candidate then (bound, .publishing name (.rechecking candidate))
            else (bound, .failed (.badName candidate) false)
        | .error .addressInUse => (dir, .publishing name (.drawing left (some candidate)))
        | .error errno => (dir, .failed (.io .bind (some candidate) errno) false)

/-- One system call of a `publish`. A failure after the socket is bound removes it. -/
def advance (name : Name) : Stage → Directory × Phase
  | .reconfirming =>
      match choice.fault with
      | none => (dir, .publishing name .statingName)
      | some errno => (dir, .failed (.directory errno) false)
  | .statingName =>
      match attempt choice.fault (dir.stat name) with
      | .ok _ => (dir, .failed (.addressInUse name) false)
      | .error .noEntry => (dir, .publishing name .openingSocket)
      | .error errno => (dir, .failed (.io .fstatat (some name) errno) false)
  | .openingSocket =>
      match choice.fault with
      | none => (dir, .publishing name (.drawing TEMPORARY_DRAWS none))
      | some errno => (dir, .failed (.io .socket (some name) errno) false)
  | .drawing left taken => drawOnce setting dir id choice name left taken
  | .rechecking temporary => (dir, .publishing name (.statingCreated temporary choice.fault))
  | .statingCreated temporary recheck =>
      match attempt choice.fault (dir.stat temporary) with
      | .ok facts =>
          if facts.kind = .socket ∧ facts.uid = setting.owner then
            match recheck with
            | none => (dir, .publishing name (.restricting ⟨temporary, facts.inode⟩))
            | some errno => (dir, .removing ⟨temporary, facts.inode⟩ (.failed (.directory errno)))
          else (dir, .failed (.bindEscaped temporary) false)
      | .error _ => (dir, .failed (.bindEscaped temporary) choice.fault.isSome)
  | .restricting bound =>
      match attempt choice.fault (dir.chmod bound.name 0o600) with
      | .ok restricted => (restricted, .publishing name (.statingRestricted bound))
      | .error .notSupported => (dir, .publishing name (.restatingRestricting bound))
      | .error errno => (dir, .removing bound (.failed (.io .fchmodat (some bound.name) errno)))
  | .restatingRestricting bound =>
      match attempt choice.fault (dir.stat bound.name) with
      | .ok facts =>
          if facts.kind = .socket ∧ facts.inode = bound.inode then
            (dir, .publishing name (.restrictingFollowed bound))
          else (dir, .removing bound (.failed (.bindEscaped bound.name)))
      | .error _ => (dir, .removing bound (.failed (.bindEscaped bound.name)))
  | .restrictingFollowed bound =>
      match attempt choice.fault (dir.chmod bound.name 0o600) with
      | .ok restricted => (restricted, .publishing name (.statingRestricted bound))
      | .error errno => (dir, .removing bound (.failed (.io .fchmodat (some bound.name) errno)))
  | .statingRestricted bound =>
      match attempt choice.fault (dir.stat bound.name) with
      | .ok facts =>
          if facts.inode = bound.inode then
            match judgeSocket facts setting.owner bound.name with
            | .ok () => (dir, .publishing name (.listening bound))
            | .error error => (dir, .removing bound (.failed error))
          else (dir, .removing bound (.failed (.bindEscaped bound.name)))
      | .error .noEntry => (dir, .removing bound (.failed (.bindEscaped bound.name)))
      | .error errno => (dir, .removing bound (.failed (.io .fstatat (some bound.name) errno)))
  | .listening bound =>
      match choice.fault with
      | none => (dir.listen id, .publishing name (.settingNonblocking bound))
      | some errno => (dir, .removing bound (.failed (.io .listen (some bound.name) errno)))
  | .settingNonblocking bound =>
      match choice.fault with
      | none => (dir, .publishing name (.renaming bound))
      | some errno => (dir, .removing bound (.failed (.io .fcntl (some bound.name) errno)))
  | .renaming bound =>
      match attempt choice.fault (dir.renameNoReplace bound.name name) with
      | .ok renamed => (renamed, .listener ⟨name, bound.inode⟩)
      | .error .exists => (dir, .removing bound (.failed (.addressInUse name)))
      | .error errno => (dir, .removing bound (.failed (.io .rename (some bound.name) errno)))

/-- The look that a removal begins with. -/
def statBound (bound : BoundEntry) (reason : Reason) : Phase :=
  match attempt choice.fault (dir.stat bound.name) with
  | .ok facts =>
      if facts.kind ≠ .socket ∨ facts.inode ≠ bound.inode then
        reason.done choice.fault .leftReplacement
      else .unlinking bound reason
  | .error errno => reason.done choice.fault (goneOrFailed errno)

def unlinkBound (bound : BoundEntry) (reason : Reason) : Directory × Phase :=
  match attempt choice.fault (dir.unlink bound.name) with
  | .ok unlinked => (unlinked, reason.done choice.fault .removed)
  | .error errno => (dir, reason.done choice.fault (goneOrFailed errno))

end Advance

/-! ## All calls -/

structure World where
  dir : Directory
  calls : CallId → Phase

inductive Event where
  | bind (id : CallId) (name : Name)
  | advance (id : CallId) (choice : Choice)
  | close (id : CallId)
  | drop (id : CallId)

/-- The call an event belongs to. -/
def Event.call : Event → CallId
  | .bind id _ | .advance id _ | .close id | .drop id => id

namespace World

def setPhase (world : World) (id : CallId) (dir : Directory) (phase : Phase) : World :=
  ⟨dir, Function.update world.calls id phase⟩

/-- The checks of a name that come before any system call. -/
def begun (setting : Setting) (name : Name) : Phase :=
  if !isEntryName name then .failed (.badName name) false
  else if !setting.fits name then .failed (.pathTooLong name) false
  else .publishing name .reconfirming

/-- One event; one that is not possible here changes nothing. -/
def step (setting : Setting) (world : World) : Event → World
  | .bind id name =>
      match world.calls id with
      | .idle => world.setPhase id world.dir (begun setting name)
      | _ => world
  | .advance id choice =>
      match world.calls id with
      | .publishing name stage =>
          let next := advance setting world.dir id choice name stage
          world.setPhase id next.1 next.2
      | .removing bound reason =>
          world.setPhase id world.dir (statBound world.dir choice bound reason)
      | .unlinking bound reason =>
          let next := unlinkBound world.dir choice bound reason
          world.setPhase id next.1 next.2
      | _ => world
  | .close id =>
      match world.calls id with
      | .listener bound => world.setPhase id world.dir (.removing bound .closed)
      | _ => world
  | .drop id =>
      match world.calls id with
      | .listener bound => world.setPhase id world.dir (.removing bound .dropped)
      | _ => world

/-- What an entry is that no call made. -/
structure Foreign where
  kind : Kind
  uid : Nat
  mode : Nat
  inode : Nat

/-- Any directory before the first call. -/
def start (foreign : Name → Option Foreign) : World where
  dir := fun name => (foreign name).map fun entry =>
    ⟨entry.kind, entry.uid, entry.mode, entry.inode, none, false, false⟩
  calls := fun _ => .idle

def machine (setting : Setting) : Machine World Event Unit :=
  ⟨fun world event => ((), world.step setting event)⟩

/-- The world after a list of events. -/
def after (setting : Setting) (world : World) (events : List Event) : World :=
  (machine setting).final world events

end World

end Plasmosome.PrivateSocket
