import Plasmosome.Instance.SupervisorLock

/-!
# Who holds the supervisor lock

The file a call has locked, the file it created and what it knows of the name
`supervisor.lock` are read off its phase. Every operation keeps them true of the
directory, whatever the other calls do in between.
-/

namespace Plasmosome.Instance.SupervisorLock

open Foundation

/-- The file whose `flock` the call holds. -/
@[simp] def Stage.holding : Stage → Option Inode
  | .naming file | .readingKind file | .clearing file _ | .statingName file
  | .statingHeld file _ | .syncing file | .releasing file _ => some file
  | _ => none

/-- The file the call created. -/
@[simp] def Stage.own : Stage → Option Inode
  | .checkingAcl file | .changingMode file | .lockingTemporary file | .naming file
  | .readingKind file | .clearing file _ | .statingName file | .statingHeld file _
  | .syncing file | .releasing file _ => some file
  | _ => none

/-- What the call has seen of the name `supervisor.lock`. -/
@[simp] def Stage.Sees (dir : CellDir) : Stage → Prop
  | .statingName _ => dir.lock.isSome
  | .statingHeld _ named => dir.lockInode = some named
  | .syncing file => dir.lockInode = some file
  | .readingMetadata entry => dir.lock = some entry
  | .checkingNamedAcl file | .lockingNamed file => dir.lockInode = some file
  | _ => True

/-- The file of the `SupervisorLock` in a reply. -/
@[simp] def Reply.lock : Reply → Option Inode
  | .created file | .free file => some file
  | _ => none

@[simp] def Reply.own : Reply → Option Inode
  | .created file => some file
  | _ => none

namespace Phase

@[simp] def holding : Phase → Option Inode
  | .running _ stage => stage.holding
  | .returned _ reply => reply.lock
  | _ => none

@[simp] def own : Phase → Option Inode
  | .running _ stage => stage.own
  | .returned _ reply | .dropped _ reply => reply.own
  | .idle => none

@[simp] def Sees (dir : CellDir) : Phase → Prop
  | .idle => True
  | .running _ stage => stage.Sees dir
  | .returned _ reply | .dropped _ reply => ∀ file ∈ reply.lock, dir.lockInode = some file

/-- A create that has renamed its temporary, or has returned `Ok`, dropped or not. -/
@[simp] def renamed : Phase → Option Inode
  | .running _ (.statingName file) | .running _ (.statingHeld file _)
  | .running _ (.syncing file) => some file
  | .returned _ reply | .dropped _ reply => reply.own
  | _ => none

end Phase

/-- What an operation of the call `id` leaves of a directory to the other calls. -/
structure Kept (id : CallId) (dir next : CellDir) : Prop where
  next_le : dir.next ≤ next.next
  lock : ∀ entry, dir.lock = some entry → next.lock = some entry
  flocks : ∀ other file, other ≠ id →
    (next.flocks file = some (.call other) ↔ dir.flocks file = some (.call other))

namespace Kept

variable {id : CallId} {dir next : CellDir}

theorem refl (id : CallId) (dir : CellDir) : Kept id dir dir :=
  ⟨le_rfl, fun _ hentry => hentry, fun _ _ _ => Iff.rfl⟩

/-- The lock entry, once there, stays the same file. -/
theorem lockInode (hkept : Kept id dir next) {file : Inode} (hfile : dir.lockInode = some file) :
    next.lockInode = some file := by
  obtain ⟨entry, hentry, hinode⟩ := Option.map_eq_some_iff.mp hfile
  exact Option.map_eq_some_iff.mpr ⟨entry, hkept.lock entry hentry, hinode⟩

/-- What a call saw of the lock entry stays true. -/
theorem sees (hkept : Kept id dir next) {phase : Phase} (hsees : phase.Sees dir) :
    phase.Sees next := by
  cases phase with
  | idle => trivial
  | returned call reply => exact fun file hfile => hkept.lockInode (hsees file hfile)
  | dropped call reply => exact fun file hfile => hkept.lockInode (hsees file hfile)
  | running call stage =>
      cases stage with
      | statingName file =>
          obtain ⟨entry, hentry⟩ := Option.isSome_iff_exists.mp hsees
          exact Option.isSome_iff_exists.mpr ⟨entry, hkept.lock entry hentry⟩
      | readingMetadata entry => exact hkept.lock entry hsees
      | statingHeld file named => exact hkept.lockInode hsees
      | syncing file => exact hkept.lockInode hsees
      | checkingNamedAcl file => exact hkept.lockInode hsees
      | lockingNamed file => exact hkept.lockInode hsees
      | _ => trivial

end Kept

section Operations

variable {id : CallId} {dir next : CellDir} {fault : Option Errno}

/-- Removing and creating the temporary name leaves the lock and every `flock` alone. -/
structure TemporaryOnly (dir next : CellDir) : Prop where
  next_le : dir.next ≤ next.next
  lock : next.lock = dir.lock
  flocks : next.flocks = dir.flocks

/-- Work on the temporary entry keeps what the others hold. -/
theorem TemporaryOnly.kept (honly : TemporaryOnly dir next) : Kept id dir next :=
  ⟨honly.next_le, fun _ hentry => honly.lock.trans hentry, fun _ _ _ => by rw [honly.flocks]⟩

theorem removeIfPresent_ok (hremoved : dir.removeIfPresent fault = .ok next) :
    TemporaryOnly dir next := by
  unfold CellDir.removeIfPresent at hremoved
  split at hremoved
  · cases hremoved
    exact ⟨le_rfl, rfl, rfl⟩
  · obtain ⟨-, hanswer⟩ := attempt_eq_ok.mp hremoved
    unfold CellDir.removeTemporary at hanswer
    split at hanswer
    · cases hanswer
    · split at hanswer
      · cases hanswer
      · cases hanswer
        exact ⟨le_rfl, rfl, rfl⟩

theorem createTemporary_ok (hcreated : dir.createTemporary = .ok next) :
    TemporaryOnly dir next ∧ next.next = dir.next + 1 := by
  unfold CellDir.createTemporary at hcreated
  split at hcreated
  · cases hcreated
  · cases hcreated
    exact ⟨⟨Nat.le_succ _, rfl, rfl⟩, rfl⟩

/-- The rename succeeds only where there was no lock entry. -/
theorem renameNoReplace_ok (hrenamed : dir.renameNoReplace = .ok next) :
    dir.lock = none ∧ next.lock.isSome ∧ next.next = dir.next ∧ next.flocks = dir.flocks := by
  unfold CellDir.renameNoReplace at hrenamed
  split at hrenamed
  · cases hrenamed
  · cases hrenamed
  · next entry hlock _ =>
      cases hrenamed
      exact ⟨by assumption, rfl, rfl, rfl⟩

theorem statLock_ok {entry : Entry} (hstat : dir.statLock = .ok entry) :
    dir.lock = some entry := by
  unfold CellDir.statLock at hstat
  split at hstat <;> simp_all

theorem openLock_ok {entry : Entry} (hopen : dir.openLock = .ok entry) :
    dir.lock = some entry := by
  unfold CellDir.openLock at hopen
  split at hopen
  · cases hopen
  · split at hopen <;> simp_all

/-- A lock is taken only where none was held. -/
theorem lockExclusiveNonblocking_ok {file : Inode}
    (hlocked : dir.lockExclusiveNonblocking id file = .ok next) :
    dir.flocks file = none ∧ next = dir.setFlock file (some (.call id)) := by
  unfold CellDir.lockExclusiveNonblocking at hlocked
  split at hlocked <;> simp_all

/-- Setting the `flock` of a file that no other call holds. -/
theorem setFlock_kept {file : Inode} {holder : Option Holder}
    (hfree : ∀ other, other ≠ id → dir.flocks file ≠ some (.call other))
    (hholder : ∀ other, other ≠ id → holder ≠ some (.call other)) :
    Kept id dir (dir.setFlock file holder) := by
  refine ⟨le_rfl, fun _ hentry => hentry, fun other found hother => ?_⟩
  by_cases hfound : found = file
  · subst hfound
    simp [CellDir.setFlock, hfree other hother, hholder other hother]
  · simp [CellDir.setFlock, hfound]

end Operations

/-- What one operation of the call `id` does, seen from its own phase before and after. -/
structure Moved (id : CallId) (dir : CellDir) (phase : Phase) (result : CellDir × Phase) :
    Prop where
  kept : Kept id dir result.1
  flocks : ∀ file, result.1.flocks file = some (.call id) ↔ result.2.holding = some file
  sees : result.2.Sees result.1
  own : ∀ file ∈ result.2.own, file ∈ phase.own ∨ dir.next ≤ file ∧ file < result.1.next
  renamed : ∀ file ∈ result.2.renamed, file ∈ phase.renamed ∨ dir.lock = none

section Steps

variable {id : CallId} {dir next : CellDir} {phase phase' : Phase} {fault : Option Errno}

theorem TemporaryOnly.refl (dir : CellDir) : TemporaryOnly dir dir := ⟨le_rfl, rfl, rfl⟩

/-- An operation on the temporary name, or on no name at all. -/
theorem TemporaryOnly.moved (honly : TemporaryOnly dir next)
    (hlocks : ∀ file, dir.flocks file = some (.call id) ↔ phase.holding = some file)
    (hholding : phase'.holding = phase.holding) (hsees : phase'.Sees next)
    (hown : ∀ file ∈ phase'.own, file ∈ phase.own ∨ dir.next ≤ file ∧ file < next.next)
    (hrenamed : ∀ file ∈ phase'.renamed, file ∈ phase.renamed) :
    Moved id dir phase (next, phase') where
  kept := honly.kept
  flocks file := by rw [honly.flocks, hholding, hlocks]
  sees := hsees
  own := hown
  renamed file hfile := .inl (hrenamed file hfile)

/-- A call that only looks, or fails, and changes no file. -/
theorem Moved.stay
    (hlocks : ∀ file, dir.flocks file = some (.call id) ↔ phase.holding = some file)
    (hholding : phase'.holding = phase.holding) (hsees : phase'.Sees dir)
    (hown : ∀ file ∈ phase'.own, file ∈ phase.own)
    (hrenamed : ∀ file ∈ phase'.renamed, file ∈ phase.renamed) :
    Moved id dir phase (dir, phase') :=
  (TemporaryOnly.refl dir).moved hlocks hholding hsees
    (fun file hfile => .inl (hown file hfile)) hrenamed

@[simp] theorem setFlock_lockInode {file : Inode} {holder : Option Holder} :
    (dir.setFlock file holder).lockInode = dir.lockInode := rfl

theorem setFlock_flocks {file found : Inode} {holder : Option Holder} :
    (dir.setFlock file holder).flocks found =
      if found = file then holder else dir.flocks found := by
  simp [CellDir.setFlock, Function.update_apply]

theorem Moved.lock {file : Inode}
    (hlocks : ∀ file, dir.flocks file = some (.call id) ↔ phase.holding = some file)
    (hnone : phase.holding = none)
    (hlocked : dir.lockExclusiveNonblocking id file = .ok next)
    (hholding : phase'.holding = some file) (hsees : phase'.Sees next)
    (hown : ∀ file ∈ phase'.own, file ∈ phase.own)
    (hrenamed : ∀ file ∈ phase'.renamed, file ∈ phase.renamed) :
    Moved id dir phase (next, phase') := by
  obtain ⟨hfree, rfl⟩ := lockExclusiveNonblocking_ok hlocked
  refine ⟨setFlock_kept ?_ ?_, ?_, hsees, fun found hfound => .inl (hown found hfound),
    fun found hfound => .inl (hrenamed found hfound)⟩
  · intro other _
    rw [hfree]
    exact Option.some_ne_none _ |>.symm
  · intro other hother hsame
    cases hsame
    exact hother rfl
  · intro found
    rw [setFlock_flocks, hholding]
    by_cases hfound : found = file
    · simp [hfound]
    · rw [if_neg hfound, hlocks, hnone, Option.some_inj]
      exact ⟨fun hsome => absurd hsome (by simp), fun hsame => absurd hsame.symm hfound⟩

theorem Moved.release {file : Inode} {holder : Option Holder}
    (hlocks : ∀ file, dir.flocks file = some (.call id) ↔ phase.holding = some file)
    (hheld : phase.holding = some file) (hnone : phase'.holding = none)
    (hholder : ∀ other, holder ≠ some (.call other))
    (hsees : phase'.Sees (dir.setFlock file holder))
    (hown : ∀ file ∈ phase'.own, file ∈ phase.own)
    (hrenamed : ∀ file ∈ phase'.renamed, file ∈ phase.renamed) :
    Moved id dir phase (dir.setFlock file holder, phase') := by
  have hflock : dir.flocks file = some (.call id) := (hlocks file).mpr hheld
  refine ⟨setFlock_kept ?_ fun other _ => hholder other, ?_, hsees,
    fun found hfound => .inl (hown found hfound), fun found hfound => .inl (hrenamed found hfound)⟩
  · intro other hother hsame
    rw [hflock] at hsame
    cases hsame
    exact hother rfl
  · intro found
    rw [setFlock_flocks, hnone]
    by_cases hfound : found = file
    · simp [hfound, hholder id]
    · rw [if_neg hfound, hlocks, hheld, Option.some_inj]
      exact ⟨fun hsame => absurd hsame.symm hfound, fun hsome => absurd hsome (by simp)⟩

/-- One operation of a running call, by the stage it is in. -/
theorem advance_moved {call : Call} {stage : Stage}
    (hlocks : ∀ file, dir.flocks file = some (.call id) ↔ stage.holding = some file)
    (hsees : stage.Sees dir) :
    Moved id dir (.running call stage) (dir.advance id call fault stage) := by
  have hheld : ∀ file, dir.flocks file = some (.call id) ↔
      (Phase.running call stage).holding = some file := hlocks
  cases stage with
  | removingLeftover =>
      simp only [CellDir.advance]
      split
      next hremoved =>
        exact (removeIfPresent_ok hremoved).moved hheld rfl trivial (by simp) (by simp)
      next => exact .stay hheld rfl (by simp) (by simp) (by simp)
  | creatingTemporary =>
      simp only [CellDir.advance]
      split
      next hcreated =>
        obtain ⟨honly, hnext⟩ := createTemporary_ok (attempt_eq_ok.mp hcreated).2
        exact honly.moved hheld rfl trivial (by simp [hnext]) (by simp)
      all_goals exact .stay hheld rfl trivial (by simp) (by simp)
  | checkingAcl file =>
      simp only [CellDir.advance]
      split <;> exact .stay hheld rfl trivial (by simp) (by simp)
  | changingMode file =>
      simp only [CellDir.advance]
      split <;> exact .stay hheld rfl trivial (by simp) (by simp)
  | lockingTemporary file =>
      simp only [CellDir.advance]
      split
      next hlocked =>
        exact .lock hheld rfl (attempt_eq_ok.mp hlocked).2 rfl trivial (by simp) (by simp)
      next => exact .stay hheld rfl trivial (by simp) (by simp)
  | abandoning error =>
      simp only [CellDir.advance]
      split
      next hremoved =>
        exact (removeIfPresent_ok hremoved).moved hheld rfl (by simp) (by simp) (by simp)
      next => exact .stay hheld rfl (by simp) (by simp) (by simp)
  | naming file =>
      simp only [CellDir.advance]
      split
      next hrenamed =>
        obtain ⟨hnone, hsome, hnext, hflocks⟩ := renameNoReplace_ok (attempt_eq_ok.mp hrenamed).2
        refine ⟨⟨hnext.ge, ?_, fun other found _ => by rw [hflocks]⟩, ?_, hsome, by simp,
          fun _ _ => .inr hnone⟩
        · intro entry hentry
          rw [hnone] at hentry
          cases hentry
        · intro found
          rw [hflocks]
          exact hlocks found
      all_goals exact .stay hheld rfl trivial (by simp) (by simp)
  | readingKind file =>
      simp only [CellDir.advance]
      split <;> exact .stay hheld rfl trivial (by simp) (by simp)
  | clearing file error =>
      simp only [CellDir.advance]
      split
      next hremoved =>
        exact (removeIfPresent_ok hremoved).moved hheld rfl trivial (by simp) (by simp)
      next => exact .stay hheld rfl trivial (by simp) (by simp)
  | statingName file =>
      simp only [CellDir.advance]
      split
      next hstat =>
        have hlock := statLock_ok (attempt_eq_ok.mp hstat).2
        exact .stay hheld rfl (by simp [CellDir.lockInode, hlock]) (by simp) (by simp)
      next => exact .stay hheld rfl trivial (by simp) (by simp)
  | statingHeld file named =>
      simp only [CellDir.advance]
      split
      · split
        next hsame => exact .stay hheld rfl (hsame ▸ hsees) (by simp) (by simp)
        next => exact .stay hheld rfl trivial (by simp) (by simp)
      · exact .stay hheld rfl trivial (by simp) (by simp)
  | syncing file =>
      simp only [CellDir.advance]
      split
      · exact .stay hheld rfl (by simpa using hsees) (by simp) (by simp)
      · exact .stay hheld rfl trivial (by simp) (by simp)
  | releasing file error =>
      exact .release hheld rfl rfl (by simp) (by simp) (by simp) (by simp)
  | opening =>
      simp only [CellDir.advance]
      split
      next hopen =>
        exact .stay hheld rfl (openLock_ok (attempt_eq_ok.mp hopen).2) (by simp) (by simp)
      all_goals exact .stay hheld rfl (by simp) (by simp) (by simp)
  | refusing errno =>
      simp only [CellDir.advance]
      split
      case h_4 | h_5 =>
        split
        · cases call <;>
            exact .stay hheld rfl (by simp [Call.onMissing]) (by simp [Call.onMissing])
              (by simp [Call.onMissing])
        · exact .stay hheld rfl (by simp) (by simp) (by simp)
      all_goals exact .stay hheld rfl (by simp) (by simp) (by simp)
  | readingMetadata entry =>
      simp only [CellDir.advance]
      split
      · split
        next =>
          have hlock : dir.lock = some entry := hsees
          exact .stay hheld rfl (by simp [CellDir.lockInode, hlock]) (by simp) (by simp)
        next => exact .stay hheld rfl (by simp) (by simp) (by simp)
      · exact .stay hheld rfl (by simp) (by simp) (by simp)
  | checkingNamedAcl file =>
      simp only [CellDir.advance]
      split
      next => exact .stay hheld rfl (by simp) (by simp) (by simp)
      next => exact .stay hheld rfl hsees (by simp) (by simp)
      next => exact .stay hheld rfl (by simp) (by simp) (by simp)
  | lockingNamed file =>
      simp only [CellDir.advance]
      split
      next hlocked =>
        obtain ⟨-, rfl⟩ := lockExclusiveNonblocking_ok (attempt_eq_ok.mp hlocked).2
        exact .lock hheld rfl (attempt_eq_ok.mp hlocked).2 rfl (by simpa using hsees) (by simp)
          (by simp)
      all_goals exact .stay hheld rfl (by simp) (by simp) (by simp)

end Steps

/-- The `flock` table agrees with what the calls hold, what they saw of `supervisor.lock` is
still true, and no file was created twice. -/
structure Sound (world : World) : Prop where
  locks : ∀ id file, world.dir.flocks file = some (.call id) ↔
    (world.calls id).holding = some file
  sees : ∀ id, (world.calls id).Sees world.dir
  own_lt : ∀ id, ∀ file ∈ (world.calls id).own, file < world.dir.next
  own_unique : ∀ id other, ∀ file ∈ (world.calls id).own, file ∈ (world.calls other).own →
    id = other

/-- What stays of a world in every later one. -/
structure Later (world later : World) : Prop where
  lock : ∀ file, world.dir.lockInode = some file → later.dir.lockInode = some file
  returned : ∀ id call reply, world.calls id = .returned call reply →
    later.calls id = .returned call reply ∨ later.calls id = .dropped call reply
  dropped : ∀ id call reply, world.calls id = .dropped call reply →
    later.calls id = .dropped call reply
  -- once the name exists, no create can rename its temporary to it
  renamed : world.dir.lock ≠ none →
    ∀ id, ∀ file ∈ (later.calls id).renamed, file ∈ (world.calls id).renamed

namespace Later

variable {first second third : World}

theorem refl (world : World) : Later world world :=
  ⟨fun _ hfile => hfile, fun _ _ _ hreturned => .inl hreturned, fun _ _ _ hdropped => hdropped,
    fun _ _ _ hfile => hfile⟩

/-- A lock entry is never taken away. -/
theorem lock_ne_none (hlater : Later first second) (hlock : first.dir.lock ≠ none) :
    second.dir.lock ≠ none := by
  obtain ⟨entry, hentry⟩ := Option.ne_none_iff_exists'.mp hlock
  have hinode := hlater.lock entry.inode (by simp [CellDir.lockInode, hentry])
  intro hnone
  simp [CellDir.lockInode, hnone] at hinode

theorem trans (hfirst : Later first second) (hsecond : Later second third) :
    Later first third where
  lock file hfile := hsecond.lock file (hfirst.lock file hfile)
  returned id call reply hreturned := by
    rcases hfirst.returned id call reply hreturned with hstill | hdropped
    · exact hsecond.returned id call reply hstill
    · exact .inr (hsecond.dropped id call reply hdropped)
  dropped id call reply hdropped :=
    hsecond.dropped id call reply (hfirst.dropped id call reply hdropped)
  renamed hlock id file hfile :=
    hfirst.renamed hlock id file (hsecond.renamed (hfirst.lock_ne_none hlock) id file hfile)

end Later

section Worlds

variable {world : World} {id : CallId} {next : CellDir} {phase : Phase}

@[simp] theorem setPhase_self : (world.setPhase id next phase).calls id = phase := by
  simp [World.setPhase]

theorem setPhase_other {other : CallId} (hother : other ≠ id) :
    (world.setPhase id next phase).calls other = world.calls other := by
  simp [World.setPhase, hother]

/-- One call's operation keeps the account of every call. -/
theorem Sound.setPhase (hsound : Sound world)
    (hmoved : Moved id world.dir (world.calls id) (next, phase)) :
    Sound (world.setPhase id next phase) where
  locks other file := by
    by_cases hother : other = id
    · rw [hother, setPhase_self]
      exact hmoved.flocks file
    · rw [setPhase_other hother]
      exact (hmoved.kept.flocks other file hother).trans (hsound.locks other file)
  sees other := by
    by_cases hother : other = id
    · rw [hother, setPhase_self]
      exact hmoved.sees
    · rw [setPhase_other hother]
      exact hmoved.kept.sees (hsound.sees other)
  own_lt other file hfile := by
    have hle : world.dir.next ≤ next.next := hmoved.kept.next_le
    by_cases hother : other = id
    · rw [hother, setPhase_self] at hfile
      rcases hmoved.own file hfile with hold | ⟨-, hnew⟩
      · exact (hsound.own_lt id file hold).trans_le hle
      · exact hnew
    · rw [setPhase_other hother] at hfile
      exact (hsound.own_lt other file hfile).trans_le hle
  own_unique := by
    -- a file that is new to this call is beyond every file another call owns
    have hapart : ∀ other, other ≠ id → ∀ file ∈ phase.own, file ∈ (world.calls other).own →
        False := by
      intro other hother file hfile hothers
      rcases hmoved.own file hfile with hold | ⟨hnew, -⟩
      · exact hother (hsound.own_unique other id file hothers hold)
      · exact absurd (hsound.own_lt other file hothers) (Nat.not_lt.mpr hnew)
    intro first second file hfirst hsecond
    by_cases hone : first = id
    · by_cases htwo : second = id
      · exact hone.trans htwo.symm
      · rw [hone, setPhase_self] at hfirst
        rw [setPhase_other htwo] at hsecond
        exact (hapart second htwo file hfirst hsecond).elim
    · rw [setPhase_other hone] at hfirst
      by_cases htwo : second = id
      · rw [htwo, setPhase_self] at hsecond
        exact (hapart first hone file hsecond hfirst).elim
      · rw [setPhase_other htwo] at hsecond
        exact hsound.own_unique first second file hfirst hsecond

theorem Later.setPhase (hmoved : Moved id world.dir (world.calls id) (next, phase))
    (hreturned : ∀ call reply, world.calls id = .returned call reply →
      phase = .dropped call reply)
    (hdropped : ∀ call reply, world.calls id ≠ .dropped call reply) :
    Later world (world.setPhase id next phase) where
  lock _ hfile := hmoved.kept.lockInode hfile
  returned other call reply hother := by
    by_cases hsame : other = id
    · subst hsame
      rw [setPhase_self]
      exact .inr (hreturned call reply hother)
    · rw [setPhase_other hsame]
      exact .inl hother
  dropped other call reply hother := by
    by_cases hsame : other = id
    · subst hsame
      exact absurd hother (hdropped call reply)
    · rw [setPhase_other hsame]
      exact hother
  renamed hlock other file hfile := by
    by_cases hsame : other = id
    · subst hsame
      rw [setPhase_self] at hfile
      exact (hmoved.renamed file hfile).resolve_right hlock
    · rwa [setPhase_other hsame] at hfile

/-- Dropping a returned lock, with or without a copy left behind. -/
theorem dropLock_moved (hsound : Sound world) {call : Call} {reply : Reply} {file : Inode}
    (hphase : world.calls id = .returned call reply) (hlock : reply.lock = some file)
    (copied : Bool) :
    Moved id world.dir (world.calls id)
      (world.dir.setFlock file (if copied then some .outside else none),
        .dropped call reply) := by
  have hsees := hsound.sees id
  have hlocks := hsound.locks id
  rw [hphase] at hsees hlocks ⊢
  refine .release hlocks hlock rfl ?_ ?_ (by simp) (by simp)
  · intro other
    cases copied <;> simp
  · intro found hfound
    exact hsees found hfound

/-- The account after any event, and what lasts through it. -/
theorem Sound.step (hsound : Sound world) (event : Event) :
    Sound (world.step event) ∧ Later world (world.step event) := by
  have hstay : Sound world ∧ Later world world := ⟨hsound, .refl world⟩
  cases event with
  | begin id call =>
      simp only [World.step]
      split
      next hphase =>
        have hlocks := hsound.locks id
        rw [hphase] at hlocks
        have hmoved : Moved id world.dir (world.calls id)
            (world.dir, .running call call.firstStage) := by
          rw [hphase]
          cases call <;> exact .stay hlocks rfl trivial (by simp [Call.firstStage])
            (by simp [Call.firstStage])
        exact ⟨hsound.setPhase hmoved, .setPhase hmoved (by simp [hphase]) (by simp [hphase])⟩
      next => exact hstay
  | advance id fault =>
      simp only [World.step]
      split
      next call stage hphase =>
        have hlocks := hsound.locks id
        have hsees := hsound.sees id
        have hmoved : Moved id world.dir (world.calls id)
            (world.dir.advance id call fault stage) := by
          rw [hphase] at hlocks hsees ⊢
          exact advance_moved hlocks hsees
        exact ⟨hsound.setPhase hmoved, .setPhase hmoved (by simp [hphase]) (by simp [hphase])⟩
      next => exact hstay
  | drop id copied =>
      simp only [World.step]
      split
      next call file hphase =>
        have hmoved := dropLock_moved hsound hphase rfl copied
        exact ⟨hsound.setPhase hmoved, .setPhase hmoved (by simp [hphase]) (by simp [hphase])⟩
      next call file hphase =>
        have hmoved := dropLock_moved hsound hphase rfl copied
        exact ⟨hsound.setPhase hmoved, .setPhase hmoved (by simp [hphase]) (by simp [hphase])⟩
      next => exact hstay
  | closeOutside file =>
      simp only [World.step]
      split
      next houtside =>
        refine ⟨⟨?_, hsound.sees, hsound.own_lt, hsound.own_unique⟩, (Later.refl world).lock,
          (Later.refl world).returned, (Later.refl world).dropped, (Later.refl world).renamed⟩
        intro id found
        rw [← hsound.locks id found, setFlock_flocks]
        by_cases hfound : found = file
        · simp [hfound, houtside]
        · rw [if_neg hfound]
      next => exact hstay

end Worlds

section Runs

variable {world : World} {events : List Event}

/-- Every run from a sound world is sound, and later than it. -/
theorem Sound.final (hsound : Sound world) (events : List Event) :
    Sound (World.machine.final world events) ∧
      Later world (World.machine.final world events) := by
  refine @Machine.final_invariant _ _ _ World.machine (fun later => Sound later ∧ Later world later)
    ?_ world ⟨hsound, .refl world⟩ events
  rintro later event ⟨hlater, hsince⟩
  obtain ⟨hnext, hstep⟩ := hlater.step event
  exact ⟨hnext, hsince.trans hstep⟩

theorem Sound.after (hsound : Sound world) (time : Nat) : Sound (world.after events time) :=
  (hsound.final _).1

theorem Sound.later (hsound : Sound world) {first second : Nat} (hle : first ≤ second) :
    Later (world.after events first) (world.after events second) := by
  have hsplit : events.take second =
      events.take first ++ (events.drop first).take (second - first) := by
    rw [← List.take_add, Nat.add_sub_cancel' hle]
  unfold World.after
  rw [hsplit, Machine.final_append]
  exact ((hsound.after first).final _).2

/-- A world in which no call has begun is sound. -/
theorem start_sound (temporary lock : Option Entry) (next : Inode)
    (heldOutside acls : Inode → Bool) :
    Sound (World.start temporary lock next heldOutside acls) where
  locks id file := by
    by_cases hheld : heldOutside file <;> simp [World.start, hheld]
  sees _ := trivial
  own_lt _ file hfile := by simp [World.start] at hfile
  own_unique _ _ file hfile := by simp [World.start] at hfile

/-- The file of a lock that has been returned stays named, and its `flock` stays with the call
until the lock is dropped. -/
theorem Sound.returned_lock (hsound : Sound world) {id : CallId} {call : Call} {reply : Reply}
    {file : Inode} (hreturned : world.calls id = .returned call reply)
    (hlock : reply.lock = some file) :
    world.dir.lockInode = some file ∧ world.dir.flocks file = some (.call id) := by
  have hsees := hsound.sees id
  have hholds := (hsound.locks id file).mpr
  rw [hreturned] at hsees hholds
  exact ⟨hsees file hlock, hholds hlock⟩

/-- A call past its rename, whose file is the one named, holds that file's `flock` until the
lock it returns is dropped. -/
theorem Sound.flock_of_renamed (hsound : Sound world) {id : CallId} {file : Inode}
    (hrenamed : (world.calls id).renamed = some file) :
    world.dir.flocks file = some (.call id) ∨
      ∃ call, world.calls id = .dropped call (.created file) := by
  rw [hsound.locks]
  cases hphase : world.calls id with
  | idle => simp [hphase] at hrenamed
  | running call stage =>
      rw [hphase] at hrenamed
      cases stage <;> simp_all
  | returned call reply =>
      rw [hphase] at hrenamed
      cases reply <;> simp_all
  | dropped call reply =>
      rw [hphase] at hrenamed
      cases reply <;> simp_all

end Runs

/-- The supervisor lock over a run: after `early` and `late` of its events, for any calls. -/
structure Exclusive (start : World) (events : List Event) : Prop where
  /-- A created lock is named by `supervisor.lock` from then on, and held until it is dropped. -/
  named : ∀ early late id call file, early ≤ late →
    (start.after events early).calls id = .returned call (.created file) →
    (start.after events late).dir.lockInode = some file ∧
      ((start.after events late).dir.flocks file = some (.call id) ∨
        (start.after events late).calls id = .dropped call (.created file))
  /-- No two creates return `Ok`. -/
  once : ∀ first second id other call call' file file',
    (start.after events first).calls id = .returned call (.created file) →
    (start.after events second).calls other = .returned call' (.created file') → id = other
  /-- There are never two returned locks that are not dropped. -/
  single : ∀ time id other call call' reply reply' file file',
    (start.after events time).calls id = .returned call reply → reply.lock = some file →
    (start.after events time).calls other = .returned call' reply' → reply'.lock = some file' →
    id = other
  /-- A call that returned without a lock holds no `flock`. -/
  released : ∀ time id call reply, (start.after events time).calls id = .returned call reply →
    reply.lock = none → ∀ file, (start.after events time).dir.flocks file ≠ some (.call id)
  /-- When a probe returns `Free`, every create that ever returns `Ok` has returned, and its lock
  is dropped. -/
  free : ∀ time other id prober stage call found file,
    (start.after events time).calls id = .running prober stage →
    (start.after events (time + 1)).calls id = .returned prober (.free found) →
    ∀ creator, (start.after events other).calls creator = .returned call (.created file) →
    (start.after events (time + 1)).calls creator = .dropped call (.created file)

/-- Any calls on one cell, from any directory, interleaved at every operation with any of them
failing. Creates may overlap: the last field needs no assumption that they do not. -/
theorem supervisor_lock_is_exclusive (temporary lock : Option Entry) (next : Inode)
    (heldOutside acls : Inode → Bool) (events : List Event) :
    Exclusive (World.start temporary lock next heldOutside acls) events := by
  have hstart := start_sound temporary lock next heldOutside acls
  generalize World.start temporary lock next heldOutside acls = start at hstart ⊢
  have hsound : ∀ time, Sound (start.after events time) := fun time => hstart.after time
  have hlasts : ∀ {first second : Nat}, first ≤ second →
      Later (start.after events first) (start.after events second) := fun hle => hstart.later hle
  refine ⟨?named, ?once, ?single, ?released, ?free⟩
  case named =>
    intro early late id call file hle hcreated
    have hlater := hlasts hle
    have hnamed := ((hsound early).returned_lock hcreated rfl).1
    refine ⟨hlater.lock file hnamed, ?_⟩
    rcases hlater.returned id call _ hcreated with hstill | hdropped
    · exact .inl ((hsound late).returned_lock hstill rfl).2
    · exact .inr hdropped
  case once =>
    intro first second id other call call' file file' hfirst hsecond
    have hone := hlasts (le_max_left first second)
    have htwo := hlasts (le_max_right first second)
    have hlast := hsound (max first second)
    have hfile := hone.lock file ((hsound first).returned_lock hfirst rfl).1
    have hfile' := htwo.lock file' ((hsound second).returned_lock hsecond rfl).1
    rw [hfile, Option.some_inj] at hfile'
    subst hfile'
    refine hlast.own_unique id other file ?_ ?_
    · rcases hone.returned id call _ hfirst with hphase | hphase <;> simp [hphase]
    · rcases htwo.returned other call' _ hsecond with hphase | hphase <;> simp [hphase]
  case single =>
    intro time id other call call' reply reply' file file' hid hlock hother hlock'
    obtain ⟨hnamed, hflock⟩ := (hsound time).returned_lock hid hlock
    obtain ⟨hnamed', hflock'⟩ := (hsound time).returned_lock hother hlock'
    rw [hnamed, Option.some_inj] at hnamed'
    rw [← hnamed', hflock, Option.some_inj, Holder.call.injEq] at hflock'
    exact hflock'
  case released =>
    intro time id call reply hreturned hlock file hflock
    rw [(hsound time).locks, hreturned] at hflock
    exact absurd (hlock.symm.trans hflock) (Option.some_ne_none file).symm
  case free =>
    intro time other id prober stage call found file _ hfree creator hcreated
    have hnow := hsound (time + 1)
    obtain ⟨hfound, hflock⟩ := hnow.returned_lock hfree rfl
    -- the create was past its rename when the probe returned, for the name was taken by then
    have hrenamed : ((start.after events (time + 1)).calls creator).renamed = some file := by
      rcases le_total other (time + 1) with hle | hle
      · rcases (hlasts hle).returned creator call _ hcreated
          with hphase | hphase <;> simp [hphase]
      · have hlock : (start.after events (time + 1)).dir.lock ≠ none := by
          intro hnone
          simp [CellDir.lockInode, hnone] at hfound
        exact (hlasts hle).renamed hlock creator file (by simp [hcreated])
    have hcreatedFile := ((hsound other).returned_lock hcreated rfl).1
    have hsame : file = found := by
      rcases le_total other (time + 1) with hle | hle
      · have hlast := (hlasts hle).lock file hcreatedFile
        rwa [hfound, Option.some_inj, eq_comm] at hlast
      · have hlast := (hlasts hle).lock found hfound
        rwa [hcreatedFile, Option.some_inj] at hlast
    subst hsame
    rcases hnow.flock_of_renamed hrenamed with hheld | ⟨call', hdropped⟩
    · rw [hflock, Option.some_inj, Holder.call.injEq] at hheld
      subst hheld
      simp [hfree] at hrenamed
    · rcases le_total other (time + 1) with hle | hle
      · rcases (hlasts hle).returned creator call _ hcreated
          with hphase | hphase
        · rw [hphase] at hdropped
          cases hdropped
        · exact hphase
      · have hstays := (hlasts hle).dropped creator call' _ hdropped
        rw [hcreated] at hstays
        cases hstays

/-- Two creates that race: the first renames the second's file into place, and both fail. -/
def racedCreates : List Event :=
  [.begin 0 .create, .advance 0 none, .advance 0 none, .advance 0 none, .advance 0 none,
    .advance 0 none, .begin 1 .create, .advance 1 none, .advance 1 none, .advance 1 none,
    .advance 1 none, .advance 0 none, .advance 0 none, .advance 0 none, .advance 0 none,
    .advance 1 none, .advance 1 none, .advance 1 none, .advance 1 none]

example :
    ((World.start none none 0 (fun _ => false) (fun _ => false)).after racedCreates 19).calls 0 =
      .returned .create (.failed (.lockNotNamed .supervisorLock)) := by decide

end Plasmosome.Instance.SupervisorLock
