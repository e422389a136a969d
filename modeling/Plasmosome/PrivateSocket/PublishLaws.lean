import Plasmosome.PrivateSocket.Publish

/-!
# Whose entry stands where

The name at which a call's own entry stands is read off its phase. Every system call
keeps it there and leaves the entries of the other calls as they are.
-/

namespace Plasmosome.PrivateSocket

open Foundation

theorem attempt_eq_ok {α : Type} {fault : Option Errno} {answer : Except Errno α} {value : α} :
    attempt fault answer = .ok value ↔ fault = none ∧ answer = .ok value := by
  cases fault <;> simp [attempt]

/-! ## Temporary names -/

theorem temporaryCharacter_ne (pick : Fin 36) : TEMPORARY_CHARACTERS.getD pick.val '0' ≠ '/' ∧
    TEMPORARY_CHARACTERS.getD pick.val '0' ≠ '.' ∧
    TEMPORARY_CHARACTERS.getD pick.val '0' ≠ '\x00' := by
  revert pick
  decide +kernel

theorem isEntryName_ofList {chars : List Char} (hsome : chars ≠ []) (hdot : chars ≠ ['.'])
    (hdots : chars ≠ ['.', '.']) (hslash : '/' ∉ chars) (hnul : '\x00' ∉ chars) :
    isEntryName (String.ofList chars) = true := by
  have hne : ∀ other : Name, chars ≠ other.toList → String.ofList chars ≠ other := by
    rintro other hother rfl
    exact hother (String.toList_ofList).symm
  have hempty := hne "" (by simpa using hsome)
  have hone := hne "." (by simpa using hdot)
  have htwo := hne ".." (by simpa using hdots)
  simp [isEntryName, hempty, hone, htwo, hslash, hnul]

/-- A temporary name is empty or names an entry. -/
theorem isEntryName_randomTemporary {room : Nat} {picks : Nat → Fin 36}
    (hsome : randomTemporary room picks ≠ "") :
    isEntryName (randomTemporary room picks) = true := by
  have hpick : ∀ count char, char ∈ (List.range count).map
      (fun index => TEMPORARY_CHARACTERS.getD (picks index).val '0') →
        char ≠ '/' ∧ char ≠ '.' ∧ char ≠ '\x00' := by
    intro count char hmem
    obtain ⟨index, -, rfl⟩ := List.mem_map.mp hmem
    exact temporaryCharacter_ne (picks index)
  unfold randomTemporary at hsome ⊢
  simp only at hsome ⊢
  split at hsome
  next hlong =>
    rw [if_pos hlong]
    generalize hpicked : (List.range (min room TEMPORARY_LENGTH - 1)).map
      (fun index => TEMPORARY_CHARACTERS.getD (picks index).val '0') = picked
    have hlength : 1 ≤ picked.length := by
      rw [← hpicked, List.length_map, List.length_range]
      omega
    have hchars : ∀ char ∈ picked, char ≠ '/' ∧ char ≠ '.' ∧ char ≠ '\x00' := by
      rw [← hpicked]
      exact hpick _
    cases picked with
    | nil => simp at hlength
    | cons first rest =>
        have hfirst := hchars first List.mem_cons_self
        refine isEntryName_ofList (by simp) (by simp) ?_ ?_ ?_
        · intro heq
          simp only [List.cons.injEq, true_and] at heq
          exact hfirst.2.1 heq.1
        · intro hmem
          rcases List.mem_cons.mp hmem with heq | hmem
          · cases heq
          · exact (hchars _ hmem).1 rfl
        · intro hmem
          rcases List.mem_cons.mp hmem with heq | hmem
          · cases heq
          · exact (hchars _ hmem).2.2 rfl
  next hshort =>
    rw [if_neg hshort]
    generalize hpicked : (List.range (min room TEMPORARY_LENGTH)).map
      (fun index => TEMPORARY_CHARACTERS.getD (picks index).val '0') = picked at hsome
    have hlength : picked.length ≤ 1 := by
      rw [← hpicked, List.length_map, List.length_range]
      omega
    have hchars : ∀ char ∈ picked, char ≠ '/' ∧ char ≠ '.' ∧ char ≠ '\x00' := by
      rw [← hpicked]
      exact hpick _
    refine isEntryName_ofList ?_ ?_ ?_ (fun hmem => (hchars _ hmem).1 rfl)
      (fun hmem => (hchars _ hmem).2.2 rfl)
    · rintro rfl
      exact hsome rfl
    · rintro rfl
      exact (hchars '.' List.mem_cons_self).2.1 rfl
    · rintro rfl
      simp at hlength

/-! ## Phases -/

/-- The name at which the entry stands that the call made. -/
@[simp] def Stage.place : Stage → Option Name
  | .rechecking temporary | .statingCreated temporary _ => some temporary
  | .restricting bound | .restatingRestricting bound | .restrictingFollowed bound
  | .statingRestricted bound | .listening bound | .settingNonblocking bound
  | .renaming bound => some bound.name
  | _ => none

/-- What the call has made of its entry. -/
@[simp] def Stage.Fits (entry : Entry) : Stage → Prop
  | .restricting bound | .restatingRestricting bound | .restrictingFollowed bound =>
      entry.inode = bound.inode
  | .statingRestricted bound | .listening bound => entry.inode = bound.inode ∧ entry.mode = 0o600
  | .settingNonblocking bound | .renaming bound =>
      entry.inode = bound.inode ∧ entry.mode = 0o600 ∧ entry.listened = true
  | _ => True

namespace Phase

@[simp] def place : Phase → Option Name
  | .publishing _ stage => stage.place
  | .listener bound | .removing bound _ | .unlinking bound _ => some bound.name
  | _ => none

@[simp] def Fits (entry : Entry) : Phase → Prop
  | .publishing _ stage => stage.Fits entry
  | .listener bound => entry.inode = bound.inode ∧ entry.published = true
  | .removing bound _ | .unlinking bound _ => entry.inode = bound.inode
  | _ => True

/-- The call is over, and its entry may still stand because a look at it or its removal failed. -/
@[simp] def Stranded : Phase → Prop
  | .failed _ stranded => stranded = true
  | .closed outcome | .dropped outcome => outcome ≠ .removed
  | _ => False

end Phase

/-- A socket of the owner with mode 0600 on which `listen` was called. -/
structure Entry.Whole (owner : Nat) (entry : Entry) : Prop where
  kind : entry.kind = .socket
  uid : entry.uid = owner
  mode : entry.mode = 0o600
  listened : entry.listened = true

/-- The entries that a call made: the one at its place, and none elsewhere unless it is stranded. -/
structure Owns (owner : Nat) (id : CallId) (dir : Directory) (phase : Phase) : Prop where
  here : ∀ name, phase.place = some name → ∃ entry, dir name = some entry ∧ entry.maker = some id ∧
    entry.kind = .socket ∧ entry.uid = owner ∧ phase.Fits entry
  only : ∀ name entry, dir name = some entry → entry.maker = some id →
    phase.place = some name ∨ phase.Stranded
  whole : ∀ name entry, dir name = some entry → entry.maker = some id → entry.published = true →
    entry.Whole owner

/-- The entries of the other calls, and those of no call, are the same. -/
def Kept (id : CallId) (dir next : Directory) : Prop :=
  ∀ name entry, entry.maker ≠ some id → (next name = some entry ↔ dir name = some entry)

theorem Kept.refl (id : CallId) (dir : Directory) : Kept id dir dir := fun _ _ _ => Iff.rfl

theorem Kept.owns {owner : Nat} {id other : CallId} {dir next : Directory} {phase : Phase}
    (hkept : Kept id dir next) (hother : other ≠ id) (howns : Owns owner other dir phase) :
    Owns owner other next phase := by
  have hforeign : ∀ entry : Entry, entry.maker = some other → entry.maker ≠ some id := by
    intro entry hmaker hsame
    exact hother (Option.some.inj (hmaker.symm.trans hsame))
  constructor
  · intro name hplace
    obtain ⟨entry, hentry, hmaker, hrest⟩ := howns.here name hplace
    exact ⟨entry, (hkept name entry (hforeign entry hmaker)).mpr hentry, hmaker, hrest⟩
  · intro name entry hentry hmaker
    exact howns.only name entry ((hkept name entry (hforeign entry hmaker)).mp hentry) hmaker
  · intro name entry hentry hmaker
    exact howns.whole name entry ((hkept name entry (hforeign entry hmaker)).mp hentry) hmaker

/-! ## Moves -/

section Moves

variable {owner : Nat} {id : CallId} {dir : Directory} {phase phase' : Phase}

/-- What one system call of `id` does. -/
structure Moved (owner : Nat) (id : CallId) (dir next : Directory) (phase : Phase) : Prop where
  kept : Kept id dir next
  owns : Owns owner id next phase

/-- A call that changes nothing and stays responsible for its entry. -/
theorem Owns.stay (howns : Owns owner id dir phase) (hplace : phase'.place = phase.place)
    (hfits : ∀ name entry, phase.place = some name → dir name = some entry → phase.Fits entry →
      phase'.Fits entry)
    (hstranded : phase.Stranded → phase'.Stranded) : Moved owner id dir dir phase' := by
  refine ⟨Kept.refl id dir, ?_, ?_, howns.whole⟩
  · intro name hname
    rw [hplace] at hname
    obtain ⟨entry, hentry, hmaker, hkind, huid, hold⟩ := howns.here name hname
    exact ⟨entry, hentry, hmaker, hkind, huid, hfits name entry hname hentry hold⟩
  · intro name entry hentry hmaker
    rw [hplace]
    exact (howns.only name entry hentry hmaker).imp_right hstranded

/-- A call that ends and leaves its entry behind. -/
theorem Owns.strand (howns : Owns owner id dir phase) (hplace : phase'.place = none)
    (hstranded : phase'.Stranded) : Moved owner id dir dir phase' := by
  refine ⟨Kept.refl id dir, ?_, fun _ _ _ _ => Or.inr hstranded, howns.whole⟩
  intro name hname
  rw [hplace] at hname
  cases hname

theorem set_same (name : Name) (entry : Option Entry) : dir.set name entry name = entry := by
  simp [Directory.set]

theorem set_other {name other : Name} (hother : other ≠ name) (entry : Option Entry) :
    dir.set name entry other = dir other := by
  simp [Directory.set, hother]

/-- Setting a name that holds an entry of the call, or none, to another such. -/
theorem kept_set {name : Name} {entry : Option Entry}
    (hold : ∀ held, dir name = some held → held.maker = some id)
    (hnew : ∀ held, entry = some held → held.maker = some id) :
    Kept id dir (dir.set name entry) := by
  intro other held hmaker
  by_cases hsame : other = name
  · rw [hsame, set_same]
    exact ⟨fun hheld => absurd (hnew held hheld) hmaker,
      fun hheld => absurd (hold held hheld) hmaker⟩
  · rw [set_other hsame]

/-- A `bind` at a free name. -/
theorem Owns.bound (howns : Owns owner id dir phase) (hplace : phase.place = none)
    (hrunning : ¬ phase.Stranded) {name : Name} {entry : Entry} (hfree : dir name = none)
    (hmaker : entry.maker = some id) (hkind : entry.kind = .socket) (huid : entry.uid = owner)
    (hpublished : entry.published = false) (hname : phase'.place = some name)
    (hfits : phase'.Fits entry) : Moved owner id dir (dir.set name (some entry)) phase' := by
  have hnone : ∀ other held, dir other = some held → held.maker ≠ some id := by
    intro other held hheld hsame
    rcases howns.only other held hheld hsame with hother | hother
    · rw [hplace] at hother
      cases hother
    · exact hrunning hother
  refine ⟨kept_set (by simp [hfree]) (by simpa using hmaker), ?_, ?_, ?_⟩
  · intro other hother
    rw [hname, Option.some.injEq] at hother
    subst hother
    exact ⟨entry, set_same name (some entry), hmaker, hkind, huid, hfits⟩
  · intro other held hheld hsame
    by_cases hother : other = name
    · exact Or.inl (by rw [hname, hother])
    · rw [set_other hother] at hheld
      exact absurd hsame (hnone other held hheld)
  · intro other held hheld hsame hpub
    by_cases hother : other = name
    · rw [hother, set_same, Option.some.injEq] at hheld
      rw [← hheld, hpublished] at hpub
      cases hpub
    · rw [set_other hother] at hheld
      exact absurd hsame (hnone other held hheld)

/-- A change of the call's own entry where it stands. -/
theorem Owns.changed (howns : Owns owner id dir phase) {name : Name} {entry' : Entry}
    (hplace : phase.place = some name) (hrunning : ¬ phase.Stranded)
    (hmaker : entry'.maker = some id) (hkind : entry'.kind = .socket) (huid : entry'.uid = owner)
    (hwhole : entry'.published = true → entry'.Whole owner) (hname : phase'.place = some name)
    (hfits : phase'.Fits entry') : Moved owner id dir (dir.set name (some entry')) phase' := by
  obtain ⟨held, hheld, hheldMaker, -⟩ := howns.here name hplace
  refine ⟨kept_set ?_ (by simpa using hmaker), ?_, ?_, ?_⟩
  · intro other hother
    rw [hheld, Option.some.injEq] at hother
    rw [← hother]
    exact hheldMaker
  · intro other hother
    rw [hname, Option.some.injEq] at hother
    subst hother
    exact ⟨entry', set_same name (some entry'), hmaker, hkind, huid, hfits⟩
  · intro other found hfound hsame
    by_cases hother : other = name
    · exact Or.inl (by rw [hname, hother])
    · rw [set_other hother] at hfound
      rcases howns.only other found hfound hsame with hat | hstranded
      · rw [hplace, Option.some.injEq] at hat
        exact absurd hat.symm hother
      · exact absurd hstranded hrunning
  · intro other found hfound hsame hpub
    by_cases hother : other = name
    · rw [hother, set_same, Option.some.injEq] at hfound
      subst hfound
      exact hwhole hpub
    · rw [set_other hother] at hfound
      exact howns.whole other found hfound hsame hpub

/-- The removal of the call's own entry. -/
theorem Owns.removed (howns : Owns owner id dir phase) {name : Name}
    (hplace : phase.place = some name)
    (hrunning : ¬ phase.Stranded) (hnone : phase'.place = none) :
    Moved owner id dir (dir.set name none) phase' := by
  obtain ⟨held, hheld, hheldMaker, -⟩ := howns.here name hplace
  have hgone : ∀ other found, dir.set name none other = some found → found.maker ≠ some id := by
    intro other found hfound hsame
    by_cases hother : other = name
    · rw [hother, set_same] at hfound
      cases hfound
    · rw [set_other hother] at hfound
      rcases howns.only other found hfound hsame with hat | hstranded
      · rw [hplace, Option.some.injEq] at hat
        exact hother hat.symm
      · exact hrunning hstranded
  refine ⟨kept_set ?_ (by simp), ?_, ?_, ?_⟩
  · intro other hother
    rw [hheld, Option.some.injEq] at hother
    rw [← hother]
    exact hheldMaker
  · intro other hother
    rw [hnone] at hother
    cases hother
  · intro other found hfound hsame
    exact absurd hsame (hgone other found hfound)
  · intro other found hfound hsame
    exact absurd hsame (hgone other found hfound)

/-- A rename of the call's own entry to a free name. -/
theorem Owns.renamed (howns : Owns owner id dir phase) {name target : Name} {entry : Entry}
    (hplace : phase.place = some name) (hrunning : ¬ phase.Stranded)
    (hentry : dir name = some entry)
    (hfree : dir target = none) (hwhole : entry.Whole owner) (hname : phase'.place = some target)
    (hfits : phase'.Fits { entry with published := true }) :
    Moved owner id dir ((dir.set name none).set target (some { entry with published := true }))
      phase' := by
  obtain ⟨held, hheld, hheldMaker, -⟩ := howns.here name hplace
  have hmaker : entry.maker = some id := by
    rw [hentry, Option.some.injEq] at hheld
    rwa [hheld]
  have hmoved := @Owns.removed owner id dir phase .idle howns name hplace hrunning rfl
  have hfreed : dir.set name none target = none := by
    by_cases hsame : target = name
    · rw [hsame, set_same]
    · rwa [set_other hsame]
  have hmade : Moved owner id (dir.set name none)
      ((dir.set name none).set target (some { entry with published := true })) phase' := by
    refine ⟨kept_set (by simp [hfreed]) (by simpa using hmaker), ?_, ?_, ?_⟩
    · intro other hother
      rw [hname, Option.some.injEq] at hother
      subst hother
      exact ⟨_, set_same target _, hmaker, hwhole.kind, hwhole.uid, hfits⟩
    · intro other found hfound hsame
      by_cases hother : other = target
      · exact Or.inl (by rw [hname, hother])
      · rw [set_other hother] at hfound
        rcases hmoved.owns.only other found hfound hsame with hat | hat <;> simp at hat
    · intro other found hfound hsame hpub
      by_cases hother : other = target
      · rw [hother, set_same, Option.some.injEq] at hfound
        rw [← hfound]
        exact ⟨hwhole.kind, hwhole.uid, hwhole.mode, hwhole.listened⟩
      · rw [set_other hother] at hfound
        exact hmoved.owns.whole other found hfound hsame hpub
  refine ⟨fun other found hother => ?_, hmade.owns⟩
  exact (hmade.kept other found hother).trans (hmoved.kept other found hother)

/-- `listen` marks the call's own entry. -/
theorem Owns.listening (howns : Owns owner id dir phase) (hplace : phase'.place = phase.place)
    (hfits : ∀ name entry, phase.place = some name → dir name = some entry → phase.Fits entry →
      phase'.Fits { entry with listened := true })
    (hrunning : ¬ phase.Stranded) : Moved owner id dir (dir.listen id) phase' := by
  have hlisten : ∀ name entry, dir name = some entry →
      dir.listen id name =
        some (if entry.maker = some id then { entry with listened := true } else entry) := by
    intro name entry hentry
    simp [Directory.listen, hentry]
  have hback : ∀ name found, dir.listen id name = some found → ∃ entry, dir name = some entry ∧
      found = if entry.maker = some id then { entry with listened := true } else entry := by
    intro name found hfound
    obtain ⟨entry, hentry, heq⟩ := Option.map_eq_some_iff.mp hfound
    exact ⟨entry, hentry, heq.symm⟩
  refine ⟨?_, ?_, ?_, ?_⟩
  · intro name found hmaker
    constructor
    · intro hfound
      obtain ⟨entry, hentry, rfl⟩ := hback name found hfound
      split at hmaker
      next hown => exact absurd hown hmaker
      next hother => rwa [if_neg hother]
    · intro hfound
      rw [hlisten name found hfound, if_neg hmaker]
  · intro name hname
    rw [hplace] at hname
    obtain ⟨entry, hentry, hmaker, hkind, huid, hold⟩ := howns.here name hname
    refine ⟨{ entry with listened := true },
      (hlisten name entry hentry).trans (by rw [if_pos hmaker]),
      hmaker, hkind, huid,
      hfits name entry hname hentry hold⟩
  · intro name found hfound hmaker
    obtain ⟨entry, hentry, rfl⟩ := hback name found hfound
    have hown : entry.maker = some id := by
      split at hmaker
      next hown => exact hown
      next => exact hmaker
    rw [hplace]
    rcases howns.only name entry hentry hown with hat | hstranded
    · exact Or.inl hat
    · exact absurd hstranded hrunning
  · intro name found hfound hmaker hpub
    obtain ⟨entry, hentry, rfl⟩ := hback name found hfound
    have hown : entry.maker = some id := by
      split at hmaker
      next hown => exact hown
      next => exact hmaker
    rw [if_pos hown] at hpub ⊢
    have hwhole := howns.whole name entry hentry hown hpub
    exact ⟨hwhole.kind, hwhole.uid, hwhole.mode, rfl⟩

end Moves

/-! ## Steps -/

section Steps

variable {setting : Setting} {dir : Directory} {id : CallId} {choice : Choice} {name : Name}

theorem stat_ok {entry : Entry} (hstat : dir.stat name = .ok entry) : dir name = some entry := by
  unfold Directory.stat at hstat
  split at hstat
  next => cases hstat
  next found hfound =>
    cases hstat
    exact hfound

theorem chmod_ok {next : Directory} {mode : Nat} (hchmod : dir.chmod name mode = .ok next) :
    ∃ entry, dir name = some entry ∧ next = dir.set name (some { entry with mode }) := by
  unfold Directory.chmod at hchmod
  split at hchmod
  next => cases hchmod
  next entry hentry =>
    cases hchmod
    exact ⟨entry, hentry, rfl⟩

theorem bindAt_ok {next : Directory} {entry : Entry} (hbind : dir.bindAt name entry = .ok next) :
    name ≠ "" ∧ dir name = none ∧ next = dir.set name (some entry) := by
  unfold Directory.bindAt at hbind
  split at hbind
  next => cases hbind
  next hname =>
    split at hbind
    next => cases hbind
    next hfree =>
      cases hbind
      exact ⟨hname, hfree, rfl⟩

theorem renameNoReplace_ok {next : Directory} {target : Name}
    (hrename : dir.renameNoReplace name target = .ok next) :
    ∃ entry, dir name = some entry ∧ dir target = none ∧
      next = (dir.set name none).set target (some { entry with published := true }) := by
  unfold Directory.renameNoReplace at hrename
  split at hrename
  next => cases hrename
  next => cases hrename
  next entry hentry hfree =>
    cases hrename
    exact ⟨entry, hentry, hfree, rfl⟩

/-- A call that fails before it has an entry. -/
theorem Owns.fail {stage : Stage} (howns : Owns setting.owner id dir (.publishing name stage))
    (hplace : stage.place = none) {error : PrivateSocketError} :
    Moved setting.owner id dir dir (.failed error false) := by
  refine howns.stay hplace.symm ?_ (by simp)
  intro other entry hother
  change stage.place = some other at hother
  rw [hplace] at hother
  cases hother

/-- A call that goes on, or turns to removing its entry, without a change of the directory. -/
theorem Owns.goes {stage : Stage} {phase : Phase}
    (howns : Owns setting.owner id dir (.publishing name stage))
    (hplace : phase.place = stage.place)
    (hfits : ∀ other entry, stage.place = some other → dir other = some entry →
      stage.Fits entry → phase.Fits entry) :
    Moved setting.owner id dir dir phase :=
  howns.stay hplace hfits (by simp)

/-- A call that turns to removing its entry. -/
theorem Owns.turns {stage : Stage} {bound : BoundEntry} {reason : Reason}
    (howns : Owns setting.owner id dir (.publishing name stage))
    (hplace : stage.place = some bound.name)
    (hfits : ∀ entry : Entry, stage.Fits entry → entry.inode = bound.inode) :
    Moved setting.owner id dir dir (.removing bound reason) :=
  howns.goes hplace.symm fun _ entry _ _ hold => hfits entry hold

/-- A call that is about to restrict its entry restricts it. -/
theorem Owns.restricts {stage stage' : Stage} {bound : BoundEntry} {next : Directory}
    (howns : Owns setting.owner id dir (.publishing name stage))
    (hplace : stage.place = some bound.name)
    (hplace' : stage'.place = some bound.name)
    (hfits : ∀ entry : Entry, stage.Fits entry → stage'.Fits { entry with mode := 0o600 })
    (hchmod : dir.chmod bound.name 0o600 = .ok next) :
    Moved setting.owner id dir next (.publishing name stage') := by
  obtain ⟨entry, hentry, rfl⟩ := chmod_ok hchmod
  obtain ⟨held, hheld, hmaker, hkind, huid, hold⟩ := howns.here bound.name hplace
  rw [hentry, Option.some.injEq] at hheld
  subst hheld
  refine howns.changed hplace (by simp) hmaker hkind huid ?_ hplace' (hfits entry hold)
  intro hpublished
  have hwhole := howns.whole bound.name entry hentry hmaker hpublished
  exact ⟨hkind, huid, rfl, hwhole.listened⟩

theorem drawOnce_moved {left : Nat} {taken : Option Name}
    (howns : Owns setting.owner id dir (.publishing name (.drawing left taken))) :
    Moved setting.owner id dir (drawOnce setting dir id choice name left taken).1
      (drawOnce setting dir id choice name left taken).2 := by
  cases left with
  | zero => exact howns.fail rfl
  | succ left =>
      simp only [drawOnce]
      split
      next => exact howns.goes rfl (by simp)
      next =>
        split
        next => exact howns.fail rfl
        next =>
          split
          next bound hbound =>
            obtain ⟨hsome, hfree, rfl⟩ := bindAt_ok (attempt_eq_ok.mp hbound).2
            rw [if_pos (isEntryName_randomTemporary hsome)]
            exact howns.bound rfl (by simp) hfree rfl rfl rfl rfl rfl trivial
          next => exact howns.goes rfl (by simp)
          next => exact howns.fail rfl

/-- One system call of a publish, by the stage it is in. -/
theorem advance_moved {stage : Stage} (howns : Owns setting.owner id dir (.publishing name stage)) :
    Moved setting.owner id dir (advance setting dir id choice name stage).1
      (advance setting dir id choice name stage).2 := by
  cases stage with
  | reconfirming =>
      simp only [advance]
      split
      next => exact howns.goes rfl (by simp)
      next => exact howns.fail rfl
  | statingName =>
      simp only [advance]
      split
      next => exact howns.fail rfl
      next => exact howns.goes rfl (by simp)
      next => exact howns.fail rfl
  | openingSocket =>
      simp only [advance]
      split
      next => exact howns.goes rfl (by simp)
      next => exact howns.fail rfl
  | drawing left taken => exact drawOnce_moved howns
  | rechecking temporary =>
      simp only [advance]
      exact howns.goes rfl (by simp)
  | statingCreated temporary recheck =>
      obtain ⟨held, hheld, hmaker, hkind, huid, -⟩ := howns.here temporary rfl
      simp only [advance]
      split
      next facts hfacts =>
        have hsame := stat_ok (attempt_eq_ok.mp hfacts).2
        rw [hheld, Option.some.injEq] at hsame
        subst hsame
        rw [if_pos ⟨hkind, huid⟩]
        have hinode : ∀ other entry, (Stage.statingCreated temporary recheck).place = some other →
            dir other = some entry → entry.inode = held.inode := by
          rintro other entry hplace hentry
          cases hplace
          rw [hheld, Option.some.injEq] at hentry
          rw [hentry]
        split
        next =>
          exact howns.goes rfl fun other entry hplace hentry _ => hinode other entry hplace hentry
        next =>
          exact howns.goes rfl fun other entry hplace hentry _ => hinode other entry hplace hentry
      next errno herror =>
        refine howns.strand rfl ?_
        -- the entry is there, so only an injected error hides it
        cases hfault : choice.fault with
        | some _ => rfl
        | none =>
            simp [hfault, attempt, Directory.stat, hheld] at herror
  | restricting bound =>
      simp only [advance]
      split
      next next hchmod =>
        exact howns.restricts rfl rfl (fun entry hold => ⟨hold, rfl⟩) (attempt_eq_ok.mp hchmod).2
      next => exact howns.goes rfl fun _ _ _ _ hold => hold
      next => exact howns.turns rfl fun _ hold => hold
  | restatingRestricting bound =>
      simp only [advance]
      split
      next =>
        split
        next => exact howns.goes rfl fun _ _ _ _ hold => hold
        next => exact howns.turns rfl fun _ hold => hold
      next => exact howns.turns rfl fun _ hold => hold
  | restrictingFollowed bound =>
      simp only [advance]
      split
      next next hchmod =>
        exact howns.restricts rfl rfl (fun entry hold => ⟨hold, rfl⟩) (attempt_eq_ok.mp hchmod).2
      next => exact howns.turns rfl fun _ hold => hold
  | statingRestricted bound =>
      simp only [advance]
      split
      next =>
        split
        next =>
          split
          next => exact howns.goes rfl fun _ _ _ _ hold => hold
          next => exact howns.turns rfl fun _ hold => hold.1
        next => exact howns.turns rfl fun _ hold => hold.1
      next => exact howns.turns rfl fun _ hold => hold.1
      next => exact howns.turns rfl fun _ hold => hold.1
  | listening bound =>
      simp only [advance]
      split
      next =>
        refine howns.listening rfl (fun _ entry _ _ hold => ?_) (by simp)
        exact ⟨hold.1, hold.2, rfl⟩
      next => exact howns.turns rfl fun _ hold => hold.1
  | settingNonblocking bound =>
      simp only [advance]
      split
      next => exact howns.goes rfl fun _ _ _ _ hold => hold
      next => exact howns.turns rfl fun _ hold => hold.1
  | «renaming» bound =>
      simp only [advance]
      split
      next next hrename =>
        obtain ⟨entry, hentry, hfree, rfl⟩ := renameNoReplace_ok (attempt_eq_ok.mp hrename).2
        obtain ⟨held, hheld, hmaker, hkind, huid, hinode, hmode, hlistened⟩ :=
          howns.here bound.name rfl
        rw [hentry, Option.some.injEq] at hheld
        subst hheld
        exact howns.renamed rfl (by simp) hentry hfree ⟨hkind, huid, hmode, hlistened⟩ rfl
          ⟨hinode, rfl⟩
      next => exact howns.turns rfl fun _ hold => hold.1
      next => exact howns.turns rfl fun _ hold => hold.1

end Steps

end Plasmosome.PrivateSocket
