import Plasmosome.Instance.Launched
import Plasmosome.Serde.Scanned

/-!
# The launched marker is never torn

Every entry that was `launched` since the last directory sync is a file that was
written whole and synced before it took the name. So neither a failed operation
nor a crash shows part of a record, or takes back a call that returned.
-/

namespace Plasmosome.Instance.Launched

open Foundation Serde
open SupervisorLock (Inode Errno Kind Entry attempt attempt_eq_ok)

section Invariant

variable {Session : Type} {library : Library} {uuid : UuidLibrary Session} {cell : String}

/-- The outputs of a run so far. -/
abbrev Past (Session : Type) := List (Event Session × Output Session)

/-- A record of this cell from a create of the run, stopped only by a mark of the run. -/
structure Written (cell : String) (past : Past Session) (marker : LaunchedMarker Session) :
    Prop where
  ours : marker.cell = cell
  valid : (parseCellId cell.toList).isSome
  created : (.create marker.bootSession, .called .create) ∈ past
  marked : marker.stopped → (.mark, .called .mark) ∈ past

/-- The call has returned `Ok`, and no remove has been called since. -/
def Since (operation : Operation) (past : Past Session) : Prop :=
  ∃ before after, past.map Prod.snd = before ++ .returned operation (.ok ()) :: after ∧
    Output.called .remove ∉ after

/-- The file holds the whole record of a marker, synced. -/
def Holds (uuid : UuidLibrary Session) (disk : Disk) (entry : Entry)
    (marker : LaunchedMarker Session) : Prop :=
  disk.files entry.inode = ⟨marker.encode uuid, true⟩

/-- A file fit to be `launched`. -/
structure Good (uuid : UuidLibrary Session) (cell : String) (past : Past Session) (disk : Disk)
    (entry : Entry) : Prop where
  kind : entry.kind = .regular
  old : entry.inode < disk.next
  plain : disk.acls entry.inode = false
  holds : ∃ marker, Written cell past marker ∧ Holds uuid disk entry marker

/-- A file that holds a stopped record. -/
def Stopped (uuid : UuidLibrary Session) (disk : Disk) (value : Option Entry) : Prop :=
  ∃ entry marker, value = some entry ∧ Holds uuid disk entry marker ∧ marker.stopped ∧
    (parseCellId marker.cell.toList).isSome

def Job.Fit (cell : String) (past : Past Session) : Job Session → Prop
  | .create marker => Written cell past marker
  | .mark marker => Written cell past marker ∧ marker.stopped

theorem Job.Fit.written {past : Past Session} {job : Job Session} (hfit : job.Fit cell past) :
    Written cell past job.marker := by
  cases job with
  | create marker => exact hfit
  | mark marker => exact hfit.1

/-- The temporary file of the call, as far as it is written. -/
structure Fresh (disk : Disk) (file : Inode) (contents : Contents) : Prop where
  temporary : disk.temporary = some ⟨.regular, file⟩
  old : file < disk.next
  contents : disk.files file = contents

/-- What the writer knows at each of its stages. -/
def Stage.Fits (uuid : UuidLibrary Session) (cell : String) (past : Past Session) (disk : Disk) :
    Stage Session → Prop
  | .clearingTemporary => True
  | .opening => (.mark, .called .mark) ∈ past
  | .reading entry => (.mark, .called .mark) ∈ past ∧ Good uuid cell past disk entry
  | .removingTemporary job | .creatingTemporary job => job.Fit cell past
  | .checkingAcl job file => job.Fit cell past ∧ Fresh disk file ⟨[], false⟩
  | .changingMode job file | .writing job file =>
      job.Fit cell past ∧ Fresh disk file ⟨[], false⟩ ∧ disk.acls file = false
  | .syncingFile job file =>
      job.Fit cell past ∧ Fresh disk file ⟨job.marker.encode uuid, false⟩ ∧ disk.acls file = false
  | .moving job =>
      job.Fit cell past ∧ ∃ file, Fresh disk file ⟨job.marker.encode uuid, true⟩ ∧
        disk.acls file = false
  | .syncingDirectory .create => disk.launched.isSome
  | .syncingDirectory .mark => Stopped uuid disk disk.launched
  | .syncingDirectory .remove | .unlinking => ¬Since .create past ∧ ¬Since .mark past

structure Sound (uuid : UuidLibrary Session) (cell : String) (world : World Session)
    (past : Past Session) : Prop where
  good : ∀ value ∈ world.disk.values, ∀ entry ∈ value, Good uuid cell past world.disk entry
  opened : ∀ entry ∈ world.opened, Good uuid cell past world.disk entry
  fits : ∀ stage ∈ world.writer, stage.Fits uuid cell past world.disk
  created : Since .create past → ∀ value ∈ world.disk.values, value.isSome
  stopped : Since .mark past → ∀ value ∈ world.disk.values, Stopped uuid world.disk value

/-! ## The run so far -/

/-- What was written stays written. -/
theorem Written.append {past : Past Session} {marker : LaunchedMarker Session}
    (hwritten : Written cell past marker) (more : Past Session) :
    Written cell (past ++ more) marker :=
  ⟨hwritten.ours, hwritten.valid, List.mem_append_left _ hwritten.created,
    fun hstopped => List.mem_append_left _ (hwritten.marked hstopped)⟩

theorem Written.cellId {past : Past Session} {marker : LaunchedMarker Session}
    (hwritten : Written cell past marker) : (parseCellId marker.cell.toList).isSome := by
  rw [hwritten.ours]
  exact hwritten.valid

/-- A job still fits when more has happened. -/
theorem Job.Fit.append {past : Past Session} {job : Job Session} (hfit : job.Fit cell past)
    (more : Past Session) : job.Fit cell (past ++ more) := by
  cases job with
  | create marker => exact Written.append hfit more
  | mark marker => exact ⟨hfit.1.append more, hfit.2⟩

/-- What one more output makes of a call that has returned `Ok`. -/
theorem since_concat {operation : Operation} {past : Past Session} {event : Event Session}
    {output : Output Session} (hsince : Since operation (past ++ [(event, output)])) :
    output = .returned operation (.ok ()) ∨
      Since operation past ∧ output ≠ .called .remove := by
  obtain ⟨before, after, hpast, hremove⟩ := hsince
  rw [List.map_append, List.map_singleton] at hpast
  rcases List.eq_nil_or_concat after with rfl | ⟨rest, last, rfl⟩
  · obtain ⟨-, hlast⟩ := List.append_inj' hpast rfl
    exact .inl (List.singleton_inj.mp hlast)
  · right
    rw [List.concat_eq_append] at hpast hremove
    have hassoc : before ++ .returned operation (.ok ()) :: (rest ++ [last]) =
        (before ++ .returned operation (.ok ()) :: rest) ++ [last] := by simp
    rw [hassoc] at hpast
    obtain ⟨hinit, hlast⟩ := List.append_inj' hpast rfl
    have hsame : output = last := List.singleton_inj.mp hlast
    refine ⟨⟨before, rest, hinit, fun hmem => hremove (List.mem_append_left _ hmem)⟩, ?_⟩
    rintro rfl
    exact hremove (List.mem_append_right _ (hsame ▸ List.mem_singleton_self _))

/-! ## What an operation leaves of the files -/

/-- No synced file is touched, and new files are new. -/
structure Grows (disk next : Disk) : Prop where
  next_le : disk.next ≤ next.next
  acls : next.acls = disk.acls
  files : ∀ file, file < disk.next → (disk.files file).synced → next.files file = disk.files file

namespace Grows

variable {disk next : Disk} {past : Past Session}

theorem refl (disk : Disk) : Grows disk disk := ⟨le_rfl, rfl, fun _ _ _ => rfl⟩

/-- A marker on a disk stays good as the disk grows. -/
theorem good (hgrows : Grows disk next) {entry : Entry} (hgood : Good uuid cell past disk entry)
    (more : Past Session) : Good uuid cell (past ++ more) next entry where
  kind := hgood.kind
  old := hgood.old.trans_le hgrows.next_le
  plain := by
    rw [hgrows.acls]
    exact hgood.plain
  holds := by
    obtain ⟨marker, hwritten, hholds⟩ := hgood.holds
    refine ⟨marker, hwritten.append more, ?_⟩
    have hkept := hgrows.files entry.inode hgood.old (by rw [hholds])
    exact hkept.trans hholds

theorem stopped (hgrows : Grows disk next) {entry : Entry} {value : Option Entry}
    (hgood : Good uuid cell past disk entry) (hvalue : value = some entry)
    (hstopped : Stopped uuid disk value) : Stopped uuid next value := by
  obtain ⟨other, marker, hother, hholds, hmarker⟩ := hstopped
  rw [hvalue, Option.some_inj] at hother
  subst hother
  have hkept := hgrows.files entry.inode hgood.old (by rw [hholds])
  exact ⟨entry, marker, hvalue, hkept.trans hholds, hmarker⟩

end Grows

/-! ## One step of the writer -/

section Steps

variable {disk next : Disk} {past : Past Session} {event : Event Session} {output : Output Session}
  {writer : Option (Stage Session)} {opened : List Entry}

/-- An output that neither gives nor takes back a promise. -/
def Output.Neutral : Output Session → Prop
  | .returned .create (.ok ()) | .returned .mark (.ok ()) | .called .remove => False
  | _ => True

theorem Since.of_neutral {operation : Operation}
    (hoperation : operation = .create ∨ operation = .mark) (hneutral : output.Neutral)
    (hsince : Since operation (past ++ [(event, output)])) : Since operation past := by
  rcases since_concat hsince with hreturned | ⟨hold, -⟩
  · subst hreturned
    rcases hoperation with rfl | rfl
    · exact hneutral.elim
    · exact hneutral.elim
  · exact hold

/-- A step that gives no promise, touches no synced file, and puts no new value under `launched`. -/
theorem Sound.keep (hsound : Sound uuid cell ⟨disk, writer, opened⟩ past)
    (hgrows : Grows disk next) (hvalues : next.values ⊆ disk.values)
    (hneutral : output.Neutral) {writer' : Option (Stage Session)} {opened' : List Entry}
    (hopened : ∀ entry ∈ opened', entry ∈ opened ∨ some entry ∈ disk.values)
    (hfits : ∀ stage ∈ writer', stage.Fits uuid cell (past ++ [(event, output)]) next) :
    Sound uuid cell ⟨next, writer', opened'⟩ (past ++ [(event, output)]) where
  good value hvalue entry hentry :=
    hgrows.good (hsound.good value (hvalues hvalue) entry hentry) _
  opened entry hentry := by
    rcases hopened entry hentry with hold | hnew
    · exact hgrows.good (hsound.opened entry hold) _
    · exact hgrows.good (hsound.good _ hnew entry rfl) _
  fits := hfits
  created hsince value hvalue :=
    hsound.created (hsince.of_neutral (.inl rfl) hneutral) value (hvalues hvalue)
  stopped hsince value hvalue := by
    have hstopped := hsound.stopped (hsince.of_neutral (.inr rfl) hneutral) value (hvalues hvalue)
    obtain ⟨entry, marker, hentry, -, -⟩ := id hstopped
    exact hgrows.stopped (hsound.good value (hvalues hvalue) entry hentry) hentry hstopped

theorem Stage.Fits.append {stage : Stage Session} (hfits : stage.Fits uuid cell past disk)
    (hneutral : output.Neutral) : stage.Fits uuid cell (past ++ [(event, output)]) disk := by
  cases stage with
  | clearingTemporary => trivial
  | opening => exact List.mem_append_left _ hfits
  | reading entry => exact ⟨List.mem_append_left _ hfits.1, (Grows.refl disk).good hfits.2 _⟩
  | removingTemporary job => exact Job.Fit.append hfits _
  | creatingTemporary job => exact Job.Fit.append hfits _
  | checkingAcl job file => exact ⟨hfits.1.append _, hfits.2⟩
  | changingMode job file => exact ⟨hfits.1.append _, hfits.2⟩
  | writing job file => exact ⟨hfits.1.append _, hfits.2⟩
  | syncingFile job file => exact ⟨hfits.1.append _, hfits.2⟩
  | moving job => exact ⟨hfits.1.append _, hfits.2⟩
  | syncingDirectory operation =>
      cases operation with
      | create => exact hfits
      | mark => exact hfits
      | remove =>
          exact ⟨fun hsince => hfits.1 (hsince.of_neutral (.inl rfl) hneutral),
            fun hsince => hfits.2 (hsince.of_neutral (.inr rfl) hneutral)⟩
  | unlinking =>
      exact ⟨fun hsince => hfits.1 (hsince.of_neutral (.inl rfl) hneutral),
        fun hsince => hfits.2 (hsince.of_neutral (.inr rfl) hneutral)⟩

end Steps

/-! ## Every stage -/

section Advance

variable {disk : Disk} {past : Past Session} {event : Event Session} {opened : List Entry}
  {fault : Option Errno} {written : Nat}

/-- What `Sound.keep` asks of a step of the writer. -/
structure Keeps (uuid : UuidLibrary Session) (cell : String) (past : Past Session) (disk : Disk)
    (moved : Moved Session) : Prop where
  grows : Grows disk moved.disk
  values : moved.disk.values ⊆ disk.values
  neutral : moved.output.Neutral
  fits : ∀ stage ∈ moved.writer, stage.Fits uuid cell past moved.disk

/-- A step that keeps the invariant leaves a sound world. -/
theorem Keeps.sound {moved : Moved Session} {writer : Option (Stage Session)}
    (hkeeps : Keeps uuid cell past disk moved)
    (hsound : Sound uuid cell ⟨disk, writer, opened⟩ past) :
    Sound uuid cell ⟨moved.disk, moved.writer, opened⟩ (past ++ [(event, moved.output)]) ∧
      Grows disk moved.disk :=
  ⟨hsound.keep hkeeps.grows hkeeps.values hkeeps.neutral (fun _ hentry => .inl hentry)
    fun stage hstage => (hkeeps.fits stage hstage).append hkeeps.neutral, hkeeps.grows⟩

/-- A failing step keeps the invariant. -/
theorem Keeps.fail {next : Disk} {operation : Operation} {error : CellDirError}
    (hgrows : Grows disk next) (hvalues : next.values ⊆ disk.values) :
    Keeps uuid cell past disk (.fail next operation error) where
  grows := hgrows
  values := hvalues
  neutral := by cases operation <;> trivial
  fits stage hstage := by cases hstage

theorem Keeps.to {next : Disk} {stage : Stage Session} (hgrows : Grows disk next)
    (hvalues : next.values ⊆ disk.values) (hfits : stage.Fits uuid cell past next) :
    Keeps uuid cell past disk (.to next stage) where
  grows := hgrows
  values := hvalues
  neutral := trivial
  fits other hother := by
    cases hother
    exact hfits

theorem removeTemporary_ok {next : Disk} (hremoved : disk.removeTemporary = .ok next) :
    Grows disk next ∧ next.values = disk.values := by
  unfold Disk.removeTemporary at hremoved
  cases hremovable : Disk.removable disk.temporary with
  | error errno =>
      rw [hremovable] at hremoved
      cases hremoved
  | ok _ =>
      rw [hremovable] at hremoved
      cases hremoved
      exact ⟨⟨le_rfl, rfl, fun _ _ _ => rfl⟩, rfl⟩

/-- A new temporary file is empty and nobody else has it. -/
theorem createTemporary_ok {next : Disk} (hcreated : disk.createTemporary = .ok next) :
    Grows disk next ∧ next.values = disk.values ∧ Fresh next disk.next ⟨[], false⟩ := by
  unfold Disk.createTemporary at hcreated
  split at hcreated
  next => cases hcreated
  next =>
    cases hcreated
    refine ⟨⟨Nat.le_succ _, rfl, fun file hfile _ => ?_⟩, rfl, ⟨rfl, Nat.lt_succ_self _, ?_⟩⟩
    · exact Function.update_of_ne (Nat.ne_of_lt hfile) _ _
    · exact Function.update_self _ _ _

/-- Writing to a file that was never synced. -/
theorem setContents_grows {file : Inode} {contents held : Contents}
    (hheld : disk.files file = held) (hsynced : held.synced = false) :
    Grows disk (disk.setContents file contents) := by
  refine ⟨le_rfl, rfl, fun other _ hother => ?_⟩
  refine Function.update_of_ne ?_ _ _
  rintro rfl
  rw [hheld, hsynced] at hother
  cases hother

theorem Fresh.setContents {file : Inode} {held : Contents} (hfresh : Fresh disk file held)
    (contents : Contents) : Fresh (disk.setContents file contents) file contents :=
  ⟨hfresh.temporary, hfresh.old, Function.update_self _ _ _⟩

/-- Renaming the temporary file puts it under `launched` and keeps every file. -/
structure Renamed (disk next : Disk) (file : Inode) : Prop where
  launched : next.launched = some ⟨.regular, file⟩
  values : next.values = next.launched :: disk.values
  next_eq : next.next = disk.next
  acls : next.acls = disk.acls
  files : next.files = disk.files

theorem renamed_of_eq {file : Inode} {next : Disk}
    (htemporary : disk.temporary = some ⟨.regular, file⟩)
    (hnext : next = (disk.setLaunched disk.temporary).setTemporary none) :
    Renamed disk next file := by
  subst hnext
  exact ⟨htemporary, rfl, rfl, rfl, rfl⟩

/-- The first marker is put where there was none. -/
theorem renameNoReplace_ok {file : Inode} {next : Disk}
    (htemporary : disk.temporary = some ⟨.regular, file⟩)
    (hrenamed : disk.renameNoReplace = .ok next) :
    disk.launched = none ∧ Renamed disk next file := by
  unfold Disk.renameNoReplace at hrenamed
  split at hrenamed
  next => cases hrenamed
  next => cases hrenamed
  next entry hentry hnone =>
    cases hrenamed
    exact ⟨hnone, renamed_of_eq htemporary (by rw [hentry])⟩

/-- A later marker takes the place of the one before. -/
theorem rename_ok {file : Inode} {next : Disk}
    (htemporary : disk.temporary = some ⟨.regular, file⟩) (hrenamed : disk.rename = .ok next) :
    Renamed disk next file := by
  unfold Disk.rename at hrenamed
  split at hrenamed
  next => cases hrenamed
  next => cases hrenamed
  next entry hentry _ =>
    cases hrenamed
    exact renamed_of_eq htemporary (by rw [hentry])

theorem Renamed.grows {file : Inode} {next : Disk} (hrenamed : Renamed disk next file) :
    Grows disk next :=
  ⟨hrenamed.next_eq.ge, hrenamed.acls, fun _ _ _ => by rw [hrenamed.files]⟩

/-- The record just put in place is good, and stopped when it was marked. -/
theorem Renamed.good {file : Inode} {next : Disk} {job : Job Session}
    (hrenamed : Renamed disk next file) (hfit : job.Fit cell past)
    (hfresh : Fresh disk file ⟨job.marker.encode uuid, true⟩) (hplain : disk.acls file = false) :
    Good uuid cell past next ⟨.regular, file⟩ where
  kind := rfl
  old := by
    rw [hrenamed.next_eq]
    exact hfresh.old
  plain := by
    rw [hrenamed.acls]
    exact hplain
  holds := ⟨job.marker, hfit.written, by rw [Holds, hrenamed.files]; exact hfresh.contents⟩

/-- A rename that keeps the promises made so far. -/
theorem Sound.renamed {writer : Option (Stage Session)} {file : Inode} {next : Disk}
    {job : Job Session} {stage : Stage Session}
    (hsound : Sound uuid cell ⟨disk, writer, opened⟩ past) (hrenamed : Renamed disk next file)
    (hfit : job.Fit cell past) (hfresh : Fresh disk file ⟨job.marker.encode uuid, true⟩)
    (hplain : disk.acls file = false) (hstopped : Since .mark past → job.marker.stopped)
    (hfits : stage.Fits uuid cell past next) :
    Sound uuid cell ⟨next, some stage, opened⟩ (past ++ [(event, .silent)]) := by
  have hgood := hrenamed.good hfit hfresh hplain
  have hneutral : (Output.silent : Output Session).Neutral := trivial
  refine ⟨?_, ?_, ?_, ?_, ?_⟩
  · intro value hvalue entry hentry
    rw [show next.values = _ from hrenamed.values] at hvalue
    rcases List.mem_cons.mp hvalue with rfl | hold
    · rw [hrenamed.launched, Option.mem_some_iff] at hentry
      exact hentry ▸ (Grows.refl next).good hgood _
    · exact hrenamed.grows.good (hsound.good value hold entry hentry) _
  · intro entry hentry
    exact hrenamed.grows.good (hsound.opened entry hentry) _
  · intro other hother
    cases hother
    exact hfits.append hneutral
  · intro hsince value hvalue
    rw [show next.values = _ from hrenamed.values] at hvalue
    rcases List.mem_cons.mp hvalue with rfl | hold
    · rw [hrenamed.launched]
      rfl
    · exact hsound.created (hsince.of_neutral (.inl rfl) hneutral) value hold
  · intro hsince value hvalue
    have hold := hsince.of_neutral (.inr rfl) hneutral
    rw [show next.values = _ from hrenamed.values] at hvalue
    rcases List.mem_cons.mp hvalue with rfl | hmem
    · refine ⟨⟨.regular, file⟩, job.marker, hrenamed.launched, ?_, hstopped hold,
        hfit.written.cellId⟩
      rw [Holds, hrenamed.files]
      exact hfresh.contents
    · have hkept := hsound.stopped hold value hmem
      obtain ⟨entry, marker, hentry, -, -⟩ := id hkept
      exact hrenamed.grows.stopped (hsound.good value hmem entry hentry) hentry hkept

end Advance

/-! ## Reading -/

/-- A good file reads as the marker it holds. -/
theorem Good.readEntry (hlibrary : library.Documented) (huuid : uuid.Documented)
    {entry : Entry} {past : Past Session} {disk : Disk} (hgood : Good uuid cell past disk entry) :
    ∃ marker, disk.readEntry library uuid cell entry = .present marker ∧
      Written cell past marker ∧ Holds uuid disk entry marker := by
  obtain ⟨marker, hwritten, hholds⟩ := hgood.holds
  have hcell := hwritten.cellId
  have hwhole : (marker.encode uuid).take maxMarkerRead = marker.encode uuid := by
    have hsize := LaunchedMarker.text_size huuid hcell
    refine List.take_of_length_le ?_
    rw [LaunchedMarker.encode, Utf8.length_encode, maxMarkerRead, maxMarkerBytes]
    omega
  refine ⟨marker, ?_, hwritten, hholds⟩
  rw [Holds] at hholds
  simp only [Disk.readEntry, hgood.kind, hgood.plain, hholds, hwhole, Bool.false_eq_true, if_false,
    LaunchedMarker.decode_encode hlibrary huuid hcell, hwritten.ours, if_true]

/-! ## One step of a run -/

section Runs

variable {disk : Disk} {past : Past Session} {event : Event Session} {opened : List Entry}
  {fault : Option Errno} {written : Nat}

/-- One operation of the writer, by the stage it is in. -/
theorem Sound.advance (hlibrary : library.Documented) (huuid : uuid.Documented)
    {stage : Stage Session} (hsound : Sound uuid cell ⟨disk, some stage, opened⟩ past) :
    Sound uuid cell
      ⟨(disk.advance library uuid cell fault written stage).disk,
        (disk.advance library uuid cell fault written stage).writer, opened⟩
      (past ++ [(event, (disk.advance library uuid cell fault written stage).output)]) ∧
      Grows disk (disk.advance library uuid cell fault written stage).disk := by
  have hfits : stage.Fits uuid cell past disk := hsound.fits stage rfl
  have hrefl : Grows disk disk := .refl disk
  have hsame : disk.values ⊆ disk.values := fun _ hvalue => hvalue
  cases stage with
  | opening =>
      simp only [Disk.advance]
      split
      case h_4 entry hentry =>
        have hmem : disk.launched ∈ disk.values := List.mem_cons_self
        exact Keeps.sound (.to hrefl hsame ⟨hfits, hsound.good _ hmem entry hentry⟩) hsound
      all_goals exact Keeps.sound (.fail hrefl hsame) hsound
  | reading entry =>
      obtain ⟨marker, hread, hwritten, -⟩ := hfits.2.readEntry hlibrary huuid
      simp only [Disk.advance, hread]
      split
      next => exact Keeps.sound (.fail hrefl hsame) hsound
      next found hfound =>
        cases hfound
        have hfit : Job.Fit cell past (.mark { marker with stopped := true }) :=
          ⟨⟨hwritten.ours, hwritten.valid, hwritten.created, fun _ => hfits.1⟩, rfl⟩
        exact Keeps.sound (.to hrefl hsame hfit) hsound
      next hfound => cases hfound
      next hfound => cases hfound
  | removingTemporary job =>
      simp only [Disk.advance]
      split
      next hremoved =>
        obtain ⟨hgrows, hvalues⟩ := removeTemporary_ok (attempt_eq_ok.mp hremoved).2
        exact Keeps.sound (.to hgrows (hvalues ▸ hsame) hfits) hsound
      next => exact Keeps.sound (.to hrefl hsame hfits) hsound
      next => exact Keeps.sound (.fail hrefl hsame) hsound
  | creatingTemporary job =>
      simp only [Disk.advance]
      split
      next hcreated =>
        obtain ⟨hgrows, hvalues, hfresh⟩ := createTemporary_ok (attempt_eq_ok.mp hcreated).2
        exact Keeps.sound (.to hgrows (hvalues ▸ hsame) ⟨hfits, hfresh⟩) hsound
      all_goals exact Keeps.sound (.fail hrefl hsame) hsound
  | checkingAcl job file =>
      simp only [Disk.advance]
      split
      next => exact Keeps.sound (.fail hrefl hsame) hsound
      next =>
        split
        next => exact Keeps.sound (.fail hrefl hsame) hsound
        next hplain =>
          exact Keeps.sound (.to hrefl hsame ⟨hfits.1, hfits.2, by simpa using hplain⟩) hsound
  | changingMode job file =>
      simp only [Disk.advance]
      split
      next => exact Keeps.sound (.fail hrefl hsame) hsound
      next => exact Keeps.sound (.to hrefl hsame hfits) hsound
  | writing job file =>
      obtain ⟨hfit, hfresh, hplain⟩ := hfits
      have hgrows : ∀ contents, Grows disk (disk.setContents file contents) := fun contents =>
        setContents_grows hfresh.contents rfl
      simp only [Disk.advance]
      split
      next => exact Keeps.sound (.fail (hgrows _) hsame) hsound
      next => exact Keeps.sound (.to (hgrows _) hsame ⟨hfit, hfresh.setContents _, hplain⟩) hsound
  | syncingFile job file =>
      obtain ⟨hfit, hfresh, hplain⟩ := hfits
      simp only [Disk.advance]
      split
      next => exact Keeps.sound (.fail hrefl hsame) hsound
      next =>
        have hgrows : Grows disk (disk.syncFile file) := setContents_grows hfresh.contents rfl
        have hsynced : Fresh (disk.syncFile file) file ⟨job.marker.encode uuid, true⟩ := by
          rw [Disk.syncFile, hfresh.contents]
          exact hfresh.setContents _
        exact Keeps.sound (.to hgrows hsame ⟨hfit, file, hsynced, hplain⟩) hsound
  | moving job =>
      obtain ⟨hfit, file, hfresh, hplain⟩ := hfits
      have hnow : disk.launched ∈ disk.values := List.mem_cons_self
      cases job with
      | create marker =>
          simp only [Disk.advance]
          split
          next renamed hmoved =>
            obtain ⟨hnone, hrenamed⟩ :=
              renameNoReplace_ok hfresh.temporary (attempt_eq_ok.mp hmoved).2
            have hpromise : Since .mark past → marker.stopped := by
              intro hsince
              obtain ⟨entry, _, hentry, -, -⟩ := hsound.stopped hsince _ hnow
              rw [show disk.launched = none from hnone] at hentry
              cases hentry
            have hlaunched : renamed.launched.isSome := by
              rw [hrenamed.launched]
              rfl
            exact ⟨hsound.renamed hrenamed hfit hfresh hplain hpromise hlaunched, hrenamed.grows⟩
          next => exact Keeps.sound (.to hrefl hsame trivial) hsound
          next => exact Keeps.sound (.fail hrefl hsame) hsound
      | mark marker =>
          simp only [Disk.advance]
          split
          next renamed hmoved =>
            have hrenamed := rename_ok hfresh.temporary (attempt_eq_ok.mp hmoved).2
            have hholds : Holds uuid renamed ⟨.regular, file⟩ marker := by
              rw [Holds, hrenamed.files]
              exact hfresh.contents
            have hmarked : Stopped uuid renamed renamed.launched :=
              ⟨⟨.regular, file⟩, marker, hrenamed.launched, hholds, hfit.2, hfit.1.cellId⟩
            exact ⟨hsound.renamed hrenamed hfit hfresh hplain (fun _ => hfit.2) hmarked,
              hrenamed.grows⟩
          next => exact Keeps.sound (.fail hrefl hsame) hsound
  | clearingTemporary =>
      simp only [Disk.advance]
      split
      next hremoved =>
        obtain ⟨hgrows, hvalues⟩ := removeTemporary_ok (attempt_eq_ok.mp hremoved).2
        exact Keeps.sound (.fail hgrows (hvalues ▸ hsame)) hsound
      next => exact Keeps.sound (.fail hrefl hsame) hsound
  | syncingDirectory operation =>
      simp only [Disk.advance]
      split
      next => exact Keeps.sound (.fail hrefl hsame) hsound
      next =>
        have hnow : disk.launched ∈ disk.values := List.mem_cons_self
        have hgrows : Grows disk disk.syncDirectory := ⟨le_rfl, rfl, fun _ _ _ => rfl⟩
        have hvalues : ∀ value ∈ disk.syncDirectory.values, value = disk.launched := by
          intro value hvalue
          exact List.mem_singleton.mp hvalue
        refine ⟨⟨?_, ?_, ?_, ?_, ?_⟩, hgrows⟩
        · intro value hvalue entry hentry
          rw [hvalues value hvalue] at hentry
          exact hgrows.good (hsound.good _ hnow entry hentry) _
        · intro entry hentry
          exact hgrows.good (hsound.opened entry hentry) _
        · intro other hother
          cases hother
        · intro hsince value hvalue
          rw [hvalues value hvalue]
          rcases since_concat hsince with hreturned | ⟨hold, -⟩
          · cases hreturned
            exact hfits
          · exact hsound.created hold _ hnow
        · intro hsince value hvalue
          rw [hvalues value hvalue]
          rcases since_concat hsince with hreturned | ⟨hold, -⟩
          · cases hreturned
            exact hfits
          · exact hsound.stopped hold _ hnow
  | unlinking =>
      simp only [Disk.advance]
      split
      next removed hremoved =>
        have hanswer := (attempt_eq_ok.mp hremoved).2
        unfold Disk.removeLaunched at hanswer
        cases hremovable : Disk.removable disk.launched with
        | error errno =>
            rw [hremovable] at hanswer
            cases hanswer
        | ok _ =>
            rw [hremovable] at hanswer
            cases hanswer
            have hneutral : (Output.silent : Output Session).Neutral := trivial
            have hgrows : Grows disk (disk.setLaunched none) := ⟨le_rfl, rfl, fun _ _ _ => rfl⟩
            refine ⟨⟨?_, ?_, ?_, ?_, ?_⟩, hgrows⟩
            · intro value hvalue entry hentry
              rcases List.mem_cons.mp hvalue with rfl | hold
              · cases hentry
              · exact hgrows.good (hsound.good value hold entry hentry) _
            · intro entry hentry
              exact hgrows.good (hsound.opened entry hentry) _
            · intro other hother
              cases hother
              have hkept : (Stage.syncingDirectory .remove : Stage Session).Fits uuid cell past
                  (disk.setLaunched none) := hfits
              exact hkept.append hneutral
            · intro hsince
              exact absurd (hsince.of_neutral (.inl rfl) hneutral) hfits.1
            · intro hsince
              exact absurd (hsince.of_neutral (.inr rfl) hneutral) hfits.2
      next => exact Keeps.sound (.to hrefl hsame hfits) hsound
      next => exact Keeps.sound (.fail hrefl hsame) hsound

/-- A crash loses no file that was synced. -/
theorem Grows.crash (temporary launched : Nat) (garbage : Inode → List UInt8) :
    Grows disk (disk.crash temporary launched garbage) :=
  ⟨le_rfl, rfl, fun _ _ hsynced => if_pos hsynced⟩

/-- What a crash leaves under `launched` was there before it. -/
theorem crash_values (temporary launched : Nat) (garbage : Inode → List UInt8) :
    (disk.crash temporary launched garbage).values ⊆ disk.values := by
  intro value hvalue
  rw [show value = disk.values.getD launched disk.launched from List.mem_singleton.mp hvalue,
    List.getD_eq_getElem?_getD]
  cases hfound : disk.values[launched]? with
  | none => exact List.mem_cons_self
  | some found => exact List.mem_of_getElem? hfound

/-- The account after any event. -/
theorem Sound.step (hlibrary : library.Documented) (huuid : uuid.Documented)
    {world : World Session} (hsound : Sound uuid cell world past) (event : Event Session) :
    Sound uuid cell (world.step library uuid cell event).2
        (past ++ [(event, (world.step library uuid cell event).1)]) ∧
      Grows world.disk (world.step library uuid cell event).2.disk := by
  rcases world with ⟨disk, writer, opened⟩
  have hrefl : Grows disk disk := .refl disk
  have hsame : disk.values ⊆ disk.values := fun _ hvalue => hvalue
  have hidle : ∀ {output : Output Session}, output.Neutral →
      Sound uuid cell ⟨disk, writer, opened⟩ (past ++ [(event, output)]) ∧ Grows disk disk := by
    intro output hneutral
    exact ⟨hsound.keep hrefl hsame hneutral (fun _ hentry => .inl hentry)
      fun stage hstage => (hsound.fits stage hstage).append hneutral, hrefl⟩
  cases event with
  | create bootSession =>
      simp only [World.step]
      split_ifs with hbusy hinvalid
      · exact hidle trivial
      · exact hidle trivial
      · have hneutral : (Output.called .create : Output Session).Neutral := trivial
        refine ⟨hsound.keep hrefl hsame hneutral (fun _ hentry => .inl hentry) ?_, hrefl⟩
        intro stage hstage
        cases hstage
        have hvalid : (parseCellId cell.toList).isSome :=
          Option.isSome_iff_ne_none.mpr (by simpa using hinvalid)
        exact ⟨rfl, hvalid, List.mem_append_right _ (List.mem_singleton_self _),
          fun hstopped => nomatch hstopped⟩
  | mark =>
      simp only [World.step]
      split_ifs with hbusy
      · exact hidle trivial
      · have hneutral : (Output.called .mark : Output Session).Neutral := trivial
        refine ⟨hsound.keep hrefl hsame hneutral (fun _ hentry => .inl hentry) ?_, hrefl⟩
        intro stage hstage
        cases hstage
        exact List.mem_append_right _ (List.mem_singleton_self _)
  | remove =>
      simp only [World.step]
      split_ifs with hbusy
      · exact hidle trivial
      · -- every promise ends where a remove is called
        have hnone : ∀ operation,
            ¬Since operation (past ++ [((.remove : Event Session), .called .remove)]) := by
          intro operation hsince
          rcases since_concat hsince with hreturned | ⟨-, hcalled⟩
          · cases hreturned
          · exact hcalled rfl
        refine ⟨⟨?_, ?_, ?_, ?_, ?_⟩, hrefl⟩
        · intro value hvalue entry hentry
          exact hrefl.good (hsound.good value hvalue entry hentry) _
        · intro entry hentry
          exact hrefl.good (hsound.opened entry hentry) _
        · intro stage hstage
          cases hstage
          exact ⟨hnone .create, hnone .mark⟩
        · intro hsince
          exact absurd hsince (hnone .create)
        · intro hsince
          exact absurd hsince (hnone .mark)
  | advance fault written =>
      cases writer with
      | none => exact hidle trivial
      | some stage => exact hsound.advance hlibrary huuid
  | crash temporary launched garbage =>
      have hgrows : Grows disk (disk.crash temporary launched garbage) := .crash _ _ _
      have hneutral : (Output.silent : Output Session).Neutral := trivial
      refine ⟨hsound.keep hgrows (crash_values _ _ _) hneutral (fun entry hentry => ?_) ?_, hgrows⟩
      · cases hentry
      · intro stage hstage
        cases hstage
  | look =>
      simp only [World.step]
      split
      next => exact hidle trivial
      next entry hentry =>
        have hneutral : (Output.opened entry : Output Session).Neutral := trivial
        refine ⟨hsound.keep hrefl hsame hneutral ?_ fun stage hstage =>
          (hsound.fits stage hstage).append hneutral, hrefl⟩
        intro other hother
        rcases List.mem_cons.mp hother with rfl | hold
        · exact .inr (List.mem_cons.mpr (.inl hentry.symm))
        · exact .inl hold
  | finish entry =>
      simp only [World.step]
      split_ifs
      · exact hidle trivial
      · exact hidle trivial

end Runs

/-! ## A mark that fails -/

section Marks

variable {disk : Disk} {fault : Option Errno} {written : Nat}

/-- The writer is marking and has not renamed yet. -/
def Stage.Marking : Stage Session → Prop
  | .opening | .reading _ => True
  | .removingTemporary job | .creatingTemporary job | .checkingAcl job _ | .changingMode job _
  | .writing job _ | .syncingFile job _ | .moving job => job.operation = .mark
  | _ => False

/-- A step of a mark before its rename keeps `launched`, unless it is the rename. -/
theorem advance_marking {stage : Stage Session} (hmarking : stage.Marking) :
    ((disk.advance library uuid cell fault written stage).writer = some (.syncingDirectory .mark) ∧
        (disk.advance library uuid cell fault written stage).output = .silent) ∨
      (disk.advance library uuid cell fault written stage).disk.launched = disk.launched ∧
        ((∃ next, (disk.advance library uuid cell fault written stage).writer = some next ∧
            next.Marking ∧
            (disk.advance library uuid cell fault written stage).output = .silent) ∨
          ∃ error, (disk.advance library uuid cell fault written stage).output =
            .returned .mark (.error error)) := by
  have hremoved : ∀ next, disk.removeTemporary = .ok next → next.launched = disk.launched := by
    intro next hnext
    have hvalues := (removeTemporary_ok hnext).2
    exact (List.cons.inj hvalues).1
  have hcreated : ∀ next, disk.createTemporary = .ok next → next.launched = disk.launched := by
    intro next hnext
    have hvalues := (createTemporary_ok hnext).2.1
    exact (List.cons.inj hvalues).1
  cases stage with
  | opening =>
      simp only [Disk.advance]
      right
      split
      case h_4 => exact ⟨rfl, .inl ⟨_, rfl, trivial, rfl⟩⟩
      all_goals exact ⟨rfl, .inr ⟨_, rfl⟩⟩
  | reading entry =>
      simp only [Disk.advance]
      right
      split
      case h_2 => exact ⟨rfl, .inl ⟨_, rfl, rfl, rfl⟩⟩
      all_goals exact ⟨rfl, .inr ⟨_, rfl⟩⟩
  | removingTemporary job =>
      have hjob : job.operation = .mark := hmarking
      simp only [Disk.advance, hjob]
      right
      split
      next hanswer =>
        exact ⟨hremoved _ (attempt_eq_ok.mp hanswer).2, .inl ⟨_, rfl, hjob, rfl⟩⟩
      next => exact ⟨rfl, .inl ⟨_, rfl, hjob, rfl⟩⟩
      next => exact ⟨rfl, .inr ⟨_, rfl⟩⟩
  | creatingTemporary job =>
      have hjob : job.operation = .mark := hmarking
      simp only [Disk.advance, hjob]
      right
      split
      next hanswer =>
        exact ⟨hcreated _ (attempt_eq_ok.mp hanswer).2, .inl ⟨_, rfl, hjob, rfl⟩⟩
      all_goals exact ⟨rfl, .inr ⟨_, rfl⟩⟩
  | checkingAcl job file =>
      have hjob : job.operation = .mark := hmarking
      simp only [Disk.advance, hjob]
      right
      split
      next => exact ⟨rfl, .inr ⟨_, rfl⟩⟩
      next =>
        split
        next => exact ⟨rfl, .inr ⟨_, rfl⟩⟩
        next => exact ⟨rfl, .inl ⟨_, rfl, hjob, rfl⟩⟩
  | changingMode job file =>
      have hjob : job.operation = .mark := hmarking
      simp only [Disk.advance, hjob]
      right
      split
      next => exact ⟨rfl, .inr ⟨_, rfl⟩⟩
      next => exact ⟨rfl, .inl ⟨_, rfl, hjob, rfl⟩⟩
  | writing job file =>
      have hjob : job.operation = .mark := hmarking
      simp only [Disk.advance, hjob]
      right
      split
      next => exact ⟨rfl, .inr ⟨_, rfl⟩⟩
      next => exact ⟨rfl, .inl ⟨_, rfl, hjob, rfl⟩⟩
  | syncingFile job file =>
      have hjob : job.operation = .mark := hmarking
      simp only [Disk.advance, hjob]
      right
      split
      next => exact ⟨rfl, .inr ⟨_, rfl⟩⟩
      next => exact ⟨rfl, .inl ⟨_, rfl, hjob, rfl⟩⟩
  | moving job =>
      cases job with
      | create marker => cases hmarking
      | mark marker =>
          simp only [Disk.advance]
          split
          next => exact .inl ⟨rfl, rfl⟩
          next => exact .inr ⟨rfl, .inr ⟨_, rfl⟩⟩
  | clearingTemporary => exact hmarking.elim
  | syncingDirectory operation => exact hmarking.elim
  | unlinking => exact hmarking.elim

/-- The writer is marking: `launched` is as it was, or the rename is done and the sync is left. -/
def Halfway (launched : Option Entry) (world : World Session) : Prop :=
  (world.disk.launched = launched ∧ ∃ stage, world.writer = some stage ∧ stage.Marking) ∨
    world.writer = some (.syncingDirectory .mark)

def Event.isCrash : Event Session → Prop
  | .crash _ _ _ => True
  | _ => False

/-- An event between the call of a mark and its return. -/
theorem Halfway.step {launched : Option Entry} {world : World Session} {event : Event Session}
    (hhalfway : Halfway launched world) (hcrash : ¬event.isCrash) :
    (Halfway launched (world.step library uuid cell event).2 ∧
        ∀ operation result, (world.step library uuid cell event).1 ≠ .returned operation result) ∨
      (∃ error, (world.step library uuid cell event).1 = .returned .mark (.error error) ∧
          (world.step library uuid cell event).2.disk.launched = launched) ∨
      (∃ errno, (world.step library uuid cell event).1 =
          .returned .mark (.error (.io .directory errno))) ∨
      (world.step library uuid cell event).1 = .returned .mark (.ok ()) := by
  have hbusy : world.writer.isSome := by
    rcases hhalfway with ⟨-, stage, hwriter, -⟩ | hwriter <;> rw [hwriter] <;> rfl
  cases event with
  | create bootSession =>
      rw [World.step, if_pos hbusy]
      exact .inl ⟨hhalfway, by simp⟩
  | mark =>
      rw [World.step, if_pos hbusy]
      exact .inl ⟨hhalfway, by simp⟩
  | remove =>
      rw [World.step, if_pos hbusy]
      exact .inl ⟨hhalfway, by simp⟩
  | crash temporary launched garbage => exact (hcrash trivial).elim
  | look =>
      simp only [World.step]
      split
      · exact .inl ⟨hhalfway, by simp⟩
      · exact .inl ⟨hhalfway, by simp⟩
  | finish entry =>
      simp only [World.step]
      split
      · exact .inl ⟨hhalfway, by simp⟩
      · exact .inl ⟨hhalfway, by simp⟩
  | advance fault written =>
      rcases hhalfway with ⟨hlaunched, stage, hwriter, hmarking⟩ | hwriter
      · simp only [World.step, hwriter]
        rcases @advance_marking _ library uuid cell world.disk fault written _ hmarking with
          ⟨hrenamed, hsilent⟩ | ⟨hkept, ⟨next, hnext, hstill, hsilent⟩ | ⟨error, herror⟩⟩
        · exact .inl ⟨.inr hrenamed, by simp [hsilent]⟩
        · exact .inl ⟨.inl ⟨hkept.trans hlaunched, next, hnext, hstill⟩, by simp [hsilent]⟩
        · exact .inr (.inl ⟨error, herror, hkept.trans hlaunched⟩)
      · simp only [World.step, hwriter, Disk.advance]
        cases fault with
        | some errno => exact .inr (.inr (.inl ⟨errno, rfl⟩))
        | none => exact .inr (.inr (.inr rfl))

end Marks

end Invariant

/-! ## Runs -/

section Runs

variable {Session : Type} (library : Library) (uuid : UuidLibrary Session) (cell : String)

/-- The world after a run. -/
abbrev World.after (start : World Session) (events : List (Event Session)) : World Session :=
  (World.machine library uuid cell).final start events

/-- What the calls and the readers got in a run. -/
abbrev World.past (start : World Session) (events : List (Event Session)) : Past Session :=
  (World.machine library uuid cell).transcript start events

/-- The marker over the runs from a directory without one. -/
structure NeverTorn (start : World Session) : Prop where
  /-- A read gives no marker, or one written whole by a create or a mark of the run. -/
  reads : ∀ events event result,
    (event, .read result) ∈ start.past library uuid cell events →
      result = .absent ∨ ∃ marker, result = .present marker ∧
        Written cell (start.past library uuid cell events) marker
  /-- An opened file holds the whole record of such a marker, however long its reader takes. -/
  whole : ∀ events, ∀ entry ∈ (start.after library uuid cell events).opened, ∃ marker,
    Written cell (start.past library uuid cell events) marker ∧
      Holds uuid (start.after library uuid cell events).disk entry marker
  /-- After a create or a mark has returned `Ok`, and until a remove is called, a marker is
  found. -/
  present : ∀ events operation, operation = .create ∨ operation = .mark →
    Since operation (start.past library uuid cell events) →
    ∃ entry, ((start.after library uuid cell events).step library uuid cell .look).1 =
      .opened entry
  /-- After a mark has returned `Ok`, and until a remove is called, the marker found is stopped. -/
  stopped : ∀ events more entry result, Since .mark (start.past library uuid cell events) →
    ((start.after library uuid cell events).step library uuid cell .look).1 = .opened entry →
    ((start.after library uuid cell (events ++ .look :: more)).step library uuid cell
      (.finish entry)).1 = .read result →
    ∃ marker, result = .present marker ∧ marker.stopped
  /-- A mark that fails otherwise than in the directory sync, after its rename, leaves the marker
  as it was. -/
  failed : ∀ events more event error, (start.after library uuid cell events).writer = none →
    (∀ event ∈ more, ¬event.isCrash) →
    (∀ pair ∈ (World.machine library uuid cell).transcript
        (start.after library uuid cell (events ++ [.mark])) more,
      ∀ operation result, pair.2 ≠ .returned operation result) →
    ((start.after library uuid cell (events ++ .mark :: more)).step library uuid cell event).1 =
      .returned .mark (.error error) → (∀ errno, error ≠ .io .directory errno) →
    let before := (start.after library uuid cell events).disk
    let later := ((start.after library uuid cell (events ++ .mark :: more)).step library uuid cell
      event).2.disk
    later.launched = before.launched ∧
      ∀ entry ∈ before.launched, later.files entry.inode = before.files entry.inode

variable {library : Library} {uuid : UuidLibrary Session} {cell : String} {start : World Session}

theorem Grows.trans {first second third : Disk} (hfirst : Grows first second)
    (hsecond : Grows second third) : Grows first third where
  next_le := hfirst.next_le.trans hsecond.next_le
  acls := hsecond.acls.trans hfirst.acls
  files file hold hsynced := by
    have hkept := hfirst.files file hold hsynced
    exact (hsecond.files file (hold.trans_le hfirst.next_le) (hkept ▸ hsynced)).trans hkept

theorem start_sound (temporary : Option Entry) (files : Inode → Contents) (next : Inode)
    (acls : Inode → Bool) :
    Sound uuid cell (World.start temporary files next acls) [] where
  good value hvalue entry hentry := by
    rw [List.mem_singleton.mp hvalue] at hentry
    cases hentry
  opened entry hentry := by cases hentry
  fits stage hstage := by cases hstage
  created hsince := by
    obtain ⟨before, after, hpast, -⟩ := hsince
    simp at hpast
  stopped hsince := by
    obtain ⟨before, after, hpast, -⟩ := hsince
    simp at hpast

/-- What a read may give. -/
def Whole (cell : String) (past : Past Session) (result : MarkerRead Session) : Prop :=
  result = .absent ∨ ∃ marker, result = .present marker ∧ Written cell past marker

/-- What was read stays whole. -/
theorem Whole.append {past : Past Session} {result : MarkerRead Session}
    (hwhole : Whole cell past result) (more : Past Session) : Whole cell (past ++ more) result := by
  rcases hwhole with habsent | ⟨marker, hpresent, hwritten⟩
  · exact .inl habsent
  · exact .inr ⟨marker, hpresent, hwritten.append more⟩

/-- The writer's operations give a reader nothing. -/
theorem advance_output (disk : Disk) (fault : Option Errno) (written : Nat)
    (stage : Stage Session) :
    (disk.advance library uuid cell fault written stage).output = .silent ∨
      ∃ operation result, (disk.advance library uuid cell fault written stage).output =
        .returned operation result := by
  unfold Disk.advance
  repeat' split
  all_goals first
    | exact .inl rfl
    | exact .inr ⟨_, _, rfl⟩

/-- Whatever is read in a sound world is whole. -/
theorem Sound.read (hlibrary : library.Documented) (huuid : uuid.Documented)
    {world : World Session} {past : Past Session} (hsound : Sound uuid cell world past)
    {event : Event Session} {result : MarkerRead Session}
    (hread : (world.step library uuid cell event).1 = .read result) : Whole cell past result := by
  cases event with
  | create bootSession =>
      simp only [World.step] at hread
      split_ifs at hread
  | mark =>
      simp only [World.step] at hread
      split_ifs at hread
  | remove =>
      simp only [World.step] at hread
      split_ifs at hread
  | crash temporary launched garbage => cases hread
  | look =>
      simp only [World.step] at hread
      split at hread
      next =>
        cases hread
        exact .inl rfl
      next => cases hread
  | finish entry =>
      simp only [World.step] at hread
      split_ifs at hread with hopened
      obtain ⟨marker, hmarker, hwritten, -⟩ :=
        (hsound.opened entry hopened).readEntry hlibrary huuid
      rw [hmarker] at hread
      cases hread
      exact .inr ⟨marker, rfl, hwritten⟩
  | advance fault written =>
      simp only [World.step] at hread
      split at hread
      next => cases hread
      next stage _ =>
        rcases @advance_output _ library uuid cell world.disk fault written stage with
          hsilent | ⟨operation, answer, hreturned⟩
        · rw [hsilent] at hread
          cases hread
        · rw [hreturned] at hread
          cases hread

/-- Every run from a sound world is sound. -/
theorem run_sound (hlibrary : library.Documented) (huuid : uuid.Documented)
    (hstart : Sound uuid cell start []) (events : List (Event Session)) :
    Sound uuid cell (start.after library uuid cell events) (start.past library uuid cell events) ∧
      ∀ event result, (event, .read result) ∈ start.past library uuid cell events →
        Whole cell (start.past library uuid cell events) result := by
  have hrun := @Machine.transcript_invariant _ _ _ (World.machine library uuid cell)
    (fun world past => Sound uuid cell world past ∧
      ∀ event result, (event, .read result) ∈ past → Whole cell past result)
    ?_ start [] ⟨hstart, by simp⟩ events
  · simpa using hrun
  · rintro world past event ⟨hsound, hreads⟩
    refine ⟨(hsound.step hlibrary huuid event).1, fun other result hmem => ?_⟩
    rcases List.mem_append.mp hmem with hold | hnew
    · exact (hreads other result hold).append _
    · obtain ⟨-, houtput⟩ := Prod.mk.inj (List.mem_singleton.mp hnew)
      exact (hsound.read hlibrary huuid houtput.symm).append _

/-- Every run only grows the disk. -/
theorem run_grows (hlibrary : library.Documented) (huuid : uuid.Documented)
    {world : World Session} {past : Past Session} (hsound : Sound uuid cell world past)
    (more : List (Event Session)) :
    Grows world.disk (world.after library uuid cell more).disk := by
  induction more generalizing world past with
  | nil => exact .refl _
  | cons event rest ih =>
      obtain ⟨hnext, hgrows⟩ := hsound.step hlibrary huuid event
      exact hgrows.trans (ih hnext)

/-- A run of events between the call of a mark and its return. -/
theorem Halfway.run {launched : Option Entry} {world : World Session}
    (hhalfway : Halfway launched world) (more : List (Event Session))
    (hcrash : ∀ event ∈ more, ¬event.isCrash)
    (hsilent : ∀ pair ∈ (World.machine library uuid cell).transcript world more,
      ∀ operation result, pair.2 ≠ .returned operation result) :
    Halfway launched (world.after library uuid cell more) := by
  induction more generalizing world with
  | nil => exact hhalfway
  | cons event rest ih =>
      have hfirst := hsilent _ List.mem_cons_self
      rcases hhalfway.step (hcrash event List.mem_cons_self) with
        ⟨hnext, -⟩ | ⟨error, hreturned, -⟩ | ⟨errno, hreturned⟩ | hreturned
      · exact ih hnext (fun other hother => hcrash other (List.mem_cons_of_mem _ hother))
          fun pair hpair => hsilent pair (List.mem_cons_of_mem _ hpair)
      · exact absurd hreturned (hfirst _ _)
      · exact absurd hreturned (hfirst _ _)
      · exact absurd hreturned (hfirst _ _)

theorem after_append (start : World Session) (first second : List (Event Session)) :
    start.after library uuid cell (first ++ second) =
      (start.after library uuid cell first).after library uuid cell second :=
  (World.machine library uuid cell).final_append start first second

theorem mark_called {world : World Session} (hidle : world.writer = none) :
    world.after library uuid cell [.mark] = { world with writer := some .opening } := by
  have hnone : ¬world.writer.isSome := by simp [hidle]
  simp only [World.after, Machine.final_cons, Machine.final_nil, World.machine, World.step]
  rw [if_neg hnone]

/-- A marker that was made and not taken away is there. -/
theorem present_of_since {world : World Session} {past : Past Session}
    (hsound : Sound uuid cell world past) {operation : Operation}
    (hoperation : operation = .create ∨ operation = .mark) (hsince : Since operation past) :
    ∃ entry, world.disk.launched = some entry := by
  have hnow : world.disk.launched ∈ world.disk.values := List.mem_cons_self
  rcases hoperation with rfl | rfl
  · exact Option.isSome_iff_exists.mp (hsound.created hsince _ hnow)
  · obtain ⟨entry, _, hentry, -⟩ := hsound.stopped hsince _ hnow
    exact ⟨entry, hentry⟩

/-- A marker is never torn and never goes back, whatever fails and wherever a crash falls; and its
text reads back. -/
theorem launched_marker_is_never_torn (hlibrary : library.Documented) (huuid : uuid.Documented)
    (temporary : Option Entry) (files : Inode → Contents) (next : Inode) (acls : Inode → Bool) :
    NeverTorn library uuid cell (World.start temporary files next acls) ∧
      (∀ marker : LaunchedMarker Session, (parseCellId marker.cell.toList).isSome →
        LaunchedMarker.decode library uuid (marker.encode uuid) = .ok marker) ∧
      ∀ bytes marker, LaunchedMarker.decode library uuid bytes = .ok marker →
        LaunchedMarker.decode library uuid (marker.encode uuid) = .ok marker := by
  have hstart := @start_sound _ uuid cell temporary files next acls
  generalize (World.start temporary files next acls : World Session) = start at hstart ⊢
  have hrun := run_sound hlibrary huuid hstart
  refine ⟨⟨?reads, ?whole, ?present, ?stopped, ?failed⟩, ?codec, ?again⟩
  case reads =>
    intro events event result hmem
    exact (hrun events).2 event result hmem
  case whole =>
    intro events entry hentry
    exact ((hrun events).1.opened entry hentry).holds
  case present =>
    intro events operation hoperation hsince
    obtain ⟨entry, hentry⟩ := present_of_since (hrun events).1 hoperation hsince
    refine ⟨entry, ?_⟩
    simp only [World.step, hentry]
  case stopped =>
    intro events more entry result hsince hlook hread
    have hsound := (hrun events).1
    have hnow : (start.after library uuid cell events).disk.launched ∈
        (start.after library uuid cell events).disk.values := List.mem_cons_self
    obtain ⟨found, marker, hfound, hholds, hstopped, hcell⟩ := hsound.stopped hsince _ hnow
    have hsame : found = entry := by
      simp only [World.step, hfound, Output.opened.injEq] at hlook
      exact hlook
    subst hsame
    -- the file that was opened keeps its record for as long as the reader takes
    have hgood := hsound.good _ hnow found hfound
    have hgrows := run_grows hlibrary huuid hsound (.look :: more)
    have hkept : (start.after library uuid cell (events ++ .look :: more)).disk.files found.inode =
        ⟨marker.encode uuid, true⟩ := by
      rw [after_append, hgrows.files found.inode hgood.old (by rw [hholds])]
      exact hholds
    simp only [World.step] at hread
    split_ifs at hread with hopened
    have hlater := (hrun (events ++ .look :: more)).1.opened found hopened
    obtain ⟨other, hother, hwritten, hholds'⟩ := hlater.readEntry hlibrary huuid
    have hequal : other = marker := by
      have hbytes : other.encode uuid = marker.encode uuid := by
        rw [Holds, hkept] at hholds'
        exact (congrArg Contents.bytes hholds').symm
      have hone := LaunchedMarker.decode_encode hlibrary huuid hwritten.cellId
      have htwo := LaunchedMarker.decode_encode hlibrary huuid hcell
      rw [hbytes, htwo] at hone
      exact (Except.ok.inj hone).symm
    rw [hother] at hread
    cases hread
    exact ⟨other, rfl, hequal ▸ hstopped⟩
  case failed =>
    intro events more event error hidle hcrash hsilent hreturned herror before later
    have hcalled : start.after library uuid cell (events ++ [.mark]) =
        { start.after library uuid cell events with writer := some .opening } := by
      rw [after_append]
      exact mark_called hidle
    have hhalfway :
        Halfway before.launched (start.after library uuid cell (events ++ [.mark])) := by
      rw [hcalled]
      exact .inl ⟨rfl, .opening, rfl, trivial⟩
    have hsplit : start.after library uuid cell (events ++ .mark :: more) =
        (start.after library uuid cell (events ++ [.mark])).after library uuid cell more := by
      rw [← after_append, List.append_assoc, List.singleton_append]
    have hlast :
        Halfway before.launched (start.after library uuid cell (events ++ .mark :: more)) := by
      rw [hsplit]
      exact hhalfway.run more hcrash hsilent
    have hnotCrash : ¬event.isCrash := by
      intro hiscrash
      cases event with
      | crash temporary launched garbage => cases hreturned
      | _ => exact hiscrash
    have hlaunched : later.launched = before.launched := by
      rcases hlast.step hnotCrash with
        ⟨-, hnone⟩ | ⟨_, -, hkept⟩ | ⟨errno, hsync⟩ | hok
      · exact absurd hreturned (hnone _ _)
      · exact hkept
      · rw [hreturned] at hsync
        cases hsync
        exact absurd rfl (herror errno)
      · rw [hreturned] at hok
        cases hok
    refine ⟨hlaunched, fun entry hentry => ?_⟩
    have hsound := (hrun events).1
    have hgood := hsound.good _ List.mem_cons_self entry hentry
    have hgrows := run_grows hlibrary huuid hsound (.mark :: more)
    rw [← after_append] at hgrows
    have hall := hgrows.trans ((hrun (events ++ .mark :: more)).1.step hlibrary huuid event).2
    obtain ⟨marker, -, hholds⟩ := hgood.holds
    exact hall.files entry.inode hgood.old (by rw [hholds])
  case codec =>
    intro marker hcell
    exact LaunchedMarker.decode_encode hlibrary huuid hcell
  case again =>
    intro bytes marker hdecode
    exact LaunchedMarker.decode_encode_of_decode hlibrary huuid hdecode

/-- A library that knows the nil identity only. -/
def nilUuid : UuidLibrary Unit where
  tryParse text := if text = "00000000-0000-0000-0000-000000000000" then some () else none
  hyphenated _ := "00000000-0000-0000-0000-000000000000"

theorem nil_size : Utf8.size "00000000-0000-0000-0000-000000000000".toList = 36 := by
  decide +kernel

theorem nil_plain :
    ("00000000-0000-0000-0000-000000000000".toList.all fun char => char = '-' || char.isDigit) =
      true := by
  simp

theorem nilUuid_documented : nilUuid.Documented where
  parse _ := by simp [nilUuid]
  size _ := nil_size
  plain _ char hchar := by
    have hall := List.all_eq_true.mp nil_plain char hchar
    simp only [Bool.or_eq_true, decide_eq_true_eq] at hall
    rcases hall with hhyphen | hdigit
    · exact .inl hhyphen
    · exact .inr (.inl hdigit)

theorem cell_one : (parseCellId "cell-1".toList).isSome := by
  have hname : "cell-1".toList = formatCellId 1 := by
    simp
    decide
  rw [hname, parseCellId_formatCellId (by decide) (by decide)]
  rfl

theorem launched_marker_is_never_torn_sample :
    NeverTorn scanned nilUuid "cell-1" (World.start none (fun _ => ⟨[], false⟩) 7 fun _ => false) ∧
      LaunchedMarker.decode scanned nilUuid
        (LaunchedMarker.encode nilUuid ⟨"cell-1", (), true⟩) = .ok ⟨"cell-1", (), true⟩ := by
  obtain ⟨hnever, hcodec, -⟩ := @launched_marker_is_never_torn Unit scanned nilUuid "cell-1"
    scanned_documented nilUuid_documented none (fun _ => ⟨[], false⟩) 7 fun _ => false
  exact ⟨hnever, hcodec ⟨"cell-1", (), true⟩ cell_one⟩

end Runs

end Plasmosome.Instance.Launched
