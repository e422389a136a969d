import Plasmosome.Foundation.Machine
import Plasmosome.Instance.LaunchedMarker

/-!
# The launched marker on disk

One writer creates, marks and removes a cell's marker, one filesystem operation at
a time, and any of them may fail. Readers open the marker and read it later. What
a file held at its last sync survives a crash; of the directory, each name survives
as it was at some moment since the last directory sync.
-/

namespace Plasmosome.Instance.Launched

open Foundation Serde
open SupervisorLock (Inode Errno Kind Entry attempt)

structure Contents where
  bytes : List UInt8
  synced : Bool
deriving DecidableEq

/-- A cell directory, with what each of the two names was since the last directory sync. -/
structure Disk where
  temporary : Option Entry
  launched : Option Entry
  pastTemporary : List (Option Entry)
  pastLaunched : List (Option Entry)
  files : Inode → Contents
  next : Inode
  acls : Inode → Bool

namespace Disk

variable (disk : Disk)

def setTemporary (entry : Option Entry) : Disk :=
  { disk with temporary := entry, pastTemporary := disk.temporary :: disk.pastTemporary }

def setLaunched (entry : Option Entry) : Disk :=
  { disk with launched := entry, pastLaunched := disk.launched :: disk.pastLaunched }

def setContents (file : Inode) (contents : Contents) : Disk :=
  { disk with files := Function.update disk.files file contents }

def removable : Option Entry → Except Errno Unit
  | none => .error .noEntry
  | some entry => if entry.kind = .directory then .error .isDirectory else .ok ()

def removeTemporary : Except Errno Disk :=
  (removable disk.temporary).map fun _ => disk.setTemporary none

def removeLaunched : Except Errno Disk :=
  (removable disk.launched).map fun _ => disk.setLaunched none

def createTemporary : Except Errno Disk :=
  match disk.temporary with
  | some _ => .error .exists
  | none =>
      .ok { (disk.setTemporary (some ⟨.regular, disk.next⟩)).setContents disk.next ⟨[], false⟩ with
        next := disk.next + 1 }

def renameNoReplace : Except Errno Disk :=
  match disk.temporary, disk.launched with
  | none, _ => .error .noEntry
  | some _, some _ => .error .exists
  | some entry, none => .ok ((disk.setLaunched (some entry)).setTemporary none)

def rename : Except Errno Disk :=
  match disk.temporary, disk.launched with
  | none, _ => .error .noEntry
  | some _, some ⟨.directory, _⟩ => .error .isDirectory
  | some entry, _ => .ok ((disk.setLaunched (some entry)).setTemporary none)

def syncFile (file : Inode) : Disk :=
  disk.setContents file { disk.files file with synced := true }

def syncDirectory : Disk := { disk with pastTemporary := [], pastLaunched := [] }

/-- What may be found under `launched` after a crash now. -/
def values : List (Option Entry) := disk.launched :: disk.pastLaunched

/-- Each name as it was at a moment since the last sync, and anything in files never synced. -/
def crash (temporary launched : Nat) (garbage : Inode → List UInt8) : Disk :=
  { disk with
    temporary := (disk.temporary :: disk.pastTemporary).getD temporary disk.temporary
    launched := disk.values.getD launched disk.launched
    pastTemporary := []
    pastLaunched := []
    files := fun file =>
      if (disk.files file).synced then disk.files file else ⟨garbage file, false⟩ }

end Disk

inductive MarkerRead (Session : Type) where
  | absent
  | present (marker : LaunchedMarker Session)
  | unreadable (fault : MarkerFault)
deriving DecidableEq

/-- The path an error names. -/
inductive Place where
  | launched
  | launchedTemporary
  | directory
deriving DecidableEq

inductive CellDirError where
  | invalidCell
  | missing (path : Place)
  | alreadyExists (path : Place)
  | markerUnreadable (path : Place) (fault : MarkerFault)
  | acl (path : Place)
  | io (path : Place) (errno : Errno)
deriving DecidableEq

inductive Operation where
  | create
  | mark
  | remove
deriving DecidableEq

/-- The record a writer puts in place: a new one, or the old one marked stopped. -/
inductive Job (Session : Type) where
  | create (marker : LaunchedMarker Session)
  | mark (marker : LaunchedMarker Session)

namespace Job

variable {Session : Type}

def marker : Job Session → LaunchedMarker Session
  | create marker => marker
  | mark marker => marker

def operation : Job Session → Operation
  | create _ => .create
  | mark _ => .mark

end Job

/-- What the writer is about to do. -/
inductive Stage (Session : Type) where
  | opening
  | reading (entry : Entry)
  | removingTemporary (job : Job Session)
  | creatingTemporary (job : Job Session)
  | checkingAcl (job : Job Session) (file : Inode)
  | changingMode (job : Job Session) (file : Inode)
  | writing (job : Job Session) (file : Inode)
  | syncingFile (job : Job Session) (file : Inode)
  | moving (job : Job Session)
  | clearingTemporary
  | syncingDirectory (operation : Operation)
  | unlinking

inductive Output (Session : Type) where
  | silent
  | called (operation : Operation)
  | returned (operation : Operation) (result : Except CellDirError Unit)
  | opened (entry : Entry)
  | read (result : MarkerRead Session)

structure World (Session : Type) where
  disk : Disk
  writer : Option (Stage Session)
  opened : List Entry

/-- A call of the writer, its next operation, a crash, or a step of a reader. -/
inductive Event (Session : Type) where
  | create (bootSession : Session)
  | mark
  | remove
  | advance (fault : Option Errno) (written : Nat)
  | crash (temporary launched : Nat) (garbage : Inode → List UInt8)
  | look
  | finish (entry : Entry)

def maxMarkerRead : Nat := maxMarkerBytes + 1

section Calls

variable {Session : Type} (library : Library) (uuid : UuidLibrary Session) (cell : String)

/-- What reading an opened entry gives. -/
def Disk.readEntry (disk : Disk) (entry : Entry) : MarkerRead Session :=
  match entry.kind with
  | .symlink => .unreadable .symlink
  | .directory | .other => .unreadable .notRegular
  | .regular =>
      if disk.acls entry.inode then .unreadable .acl
      else
        match LaunchedMarker.decode library uuid
            ((disk.files entry.inode).bytes.take maxMarkerRead) with
        | .ok marker =>
            if marker.cell = cell then .present marker
            else .unreadable (.wrongCell marker.cell)
        | .error fault => .unreadable fault

/-- Where a step of the writer leaves the disk and the call, and what it returns. -/
structure Moved (Session : Type) where
  disk : Disk
  writer : Option (Stage Session)
  output : Output Session

def Moved.to (disk : Disk) (stage : Stage Session) : Moved Session := ⟨disk, some stage, .silent⟩

def Moved.fail (disk : Disk) (operation : Operation) (error : CellDirError) : Moved Session :=
  ⟨disk, none, .returned operation (.error error)⟩

/-- One operation of the writer, which `fault` makes fail. A write that fails may have put
`written` bytes in the file. -/
def Disk.advance (disk : Disk) (fault : Option Errno) (written : Nat) :
    Stage Session → Moved Session
  | .opening =>
      match fault, disk.launched with
      | some .noEntry, _ | none, none => .fail disk .mark (.missing .launched)
      | some errno, _ => .fail disk .mark (.markerUnreadable .launched (.io errno))
      | none, some entry => .to disk (.reading entry)
  | .reading entry =>
      match fault, disk.readEntry library uuid cell entry with
      | some errno, _ => .fail disk .mark (.markerUnreadable .launched (.io errno))
      | none, .present marker =>
          .to disk (.removingTemporary (.mark { marker with stopped := true }))
      | none, .unreadable fault => .fail disk .mark (.markerUnreadable .launched fault)
      | none, .absent => .fail disk .mark (.missing .launched)
  | .removingTemporary job =>
      match attempt fault disk.removeTemporary with
      | .ok removed => .to removed (.creatingTemporary job)
      | .error .noEntry => .to disk (.creatingTemporary job)
      | .error errno => .fail disk job.operation (.io .launchedTemporary errno)
  | .creatingTemporary job =>
      match attempt fault disk.createTemporary with
      | .ok created => .to created (.checkingAcl job disk.next)
      | .error .exists => .fail disk job.operation (.alreadyExists .launchedTemporary)
      | .error errno => .fail disk job.operation (.io .launchedTemporary errno)
  | .checkingAcl job file =>
      match fault with
      | some errno => .fail disk job.operation (.io .launchedTemporary errno)
      | none =>
          if disk.acls file then .fail disk job.operation (.acl .launchedTemporary)
          else .to disk (.changingMode job file)
  | .changingMode job file =>
      match fault with
      | some errno => .fail disk job.operation (.io .launchedTemporary errno)
      | none => .to disk (.writing job file)
  | .writing job file =>
      match fault with
      | some errno =>
          .fail (disk.setContents file ⟨(job.marker.encode uuid).take written, false⟩) job.operation
            (.io .launchedTemporary errno)
      | none =>
          .to (disk.setContents file ⟨job.marker.encode uuid, false⟩) (.syncingFile job file)
  | .syncingFile job file =>
      match fault with
      | some errno => .fail disk job.operation (.io .launchedTemporary errno)
      | none => .to (disk.syncFile file) (.moving job)
  | .moving (.create _) =>
      match attempt fault disk.renameNoReplace with
      | .ok renamed => .to renamed (.syncingDirectory .create)
      | .error .exists => .to disk .clearingTemporary
      | .error errno => .fail disk .create (.io .launched errno)
  | .moving (.mark _) =>
      match attempt fault disk.rename with
      | .ok renamed => .to renamed (.syncingDirectory .mark)
      | .error errno => .fail disk .mark (.io .launched errno)
  | .clearingTemporary =>
      match attempt fault disk.removeTemporary with
      | .ok removed => .fail removed .create (.alreadyExists .launched)
      | .error errno => .fail disk .create (.io .launchedTemporary errno)
  | .syncingDirectory operation =>
      match fault with
      | some errno => .fail disk operation (.io .directory errno)
      | none => ⟨disk.syncDirectory, none, .returned operation (.ok ())⟩
  | .unlinking =>
      match attempt fault disk.removeLaunched with
      | .ok removed => .to removed (.syncingDirectory .remove)
      | .error .noEntry => .to disk (.syncingDirectory .remove)
      | .error errno => .fail disk .remove (.io .launched errno)

namespace World

/-- One event, and what it gives back; one that is not possible here changes nothing. A crash
ends every call and every read. -/
def step (world : World Session) : Event Session → Output Session × World Session
  | .create bootSession =>
      if world.writer.isSome then (.silent, world)
      else if (parseCellId cell.toList).isNone then
        (.returned .create (.error .invalidCell), world)
      else
        (.called .create,
          { world with writer := some (.removingTemporary (.create ⟨cell, bootSession, false⟩)) })
  | .mark =>
      if world.writer.isSome then (.silent, world)
      else (.called .mark, { world with writer := some .opening })
  | .remove =>
      if world.writer.isSome then (.silent, world)
      else (.called .remove, { world with writer := some .unlinking })
  | .advance fault written =>
      match world.writer with
      | none => (.silent, world)
      | some stage =>
          let moved := world.disk.advance library uuid cell fault written stage
          (moved.output, { world with disk := moved.disk, writer := moved.writer })
  | .crash temporary launched garbage =>
      (.silent, ⟨world.disk.crash temporary launched garbage, none, []⟩)
  | .look =>
      match world.disk.launched with
      | none => (.read .absent, world)
      | some entry => (.opened entry, { world with opened := entry :: world.opened })
  | .finish entry =>
      if entry ∈ world.opened then (.read (world.disk.readEntry library uuid cell entry), world)
      else (.silent, world)

def machine : Machine (World Session) (Event Session) (Output Session) :=
  ⟨World.step library uuid cell⟩

/-- A directory without a marker. A leftover of any kind may stand under the temporary name. -/
def start (temporary : Option Entry) (files : Inode → Contents) (next : Inode)
    (acls : Inode → Bool) : World Session :=
  ⟨⟨temporary, none, [], [], files, next, acls⟩, none, []⟩

end World

end Calls

end Plasmosome.Instance.Launched
