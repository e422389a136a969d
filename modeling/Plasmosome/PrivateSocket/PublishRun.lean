import Plasmosome.PrivateSocket.PublishLaws

/-!
# All runs of binds, closes and drops

A step is one system call of one call. It keeps what every call owns, so each entry
in the directory is that of the one call that made it, in any interleaving.
-/

namespace Plasmosome.PrivateSocket

open Foundation

/-! ## Removals -/

section Removals

variable {setting : Setting} {dir : Directory} {id : CallId} {choice : Choice}
  {bound : BoundEntry} {reason : Reason}

theorem Reason.done_place (fault : Option Errno) (outcome : RemoveOutcome) :
    (reason.done fault outcome).place = none := by
  cases reason <;> rfl

/-- A removal that an error stops says so. -/
theorem Reason.done_stranded (errno : Errno) :
    (reason.done (some errno) (goneOrFailed errno)).Stranded := by
  cases reason with
  | failed error => rfl
  | closed => cases errno <;> simp [Reason.done, goneOrFailed]
  | dropped => cases errno <;> simp [Reason.done, goneOrFailed]

/-- A look finds the call's own socket, unless an error is injected. -/
theorem statBound_finds (howns : Owns setting.owner id dir (.removing bound reason))
    (hfault : choice.fault = none) :
    statBound dir choice bound reason = .unlinking bound reason := by
  obtain ⟨entry, hentry, -, hkind, -, hinode⟩ := howns.here bound.name rfl
  simp only [Phase.Fits] at hinode
  simp [statBound, hfault, attempt, Directory.stat, hentry, hkind, hinode]

theorem statBound_stopped {errno : Errno} (hfault : choice.fault = some errno) :
    statBound dir choice bound reason = reason.done (some errno) (goneOrFailed errno) := by
  simp [statBound, hfault, attempt]

theorem statBound_moved (howns : Owns setting.owner id dir (.removing bound reason)) :
    Moved setting.owner id dir dir (statBound dir choice bound reason) := by
  cases hfault : choice.fault with
  | some errno =>
      rw [statBound_stopped hfault]
      exact howns.strand (Reason.done_place _ _) (Reason.done_stranded errno)
  | none =>
      rw [statBound_finds howns hfault]
      exact howns.stay rfl (fun _ _ _ _ hold => hold) (by simp)

/-- The unlink that an injected error does not stop. -/
theorem unlinkBound_removes (howns : Owns setting.owner id dir (.unlinking bound reason))
    (hfault : choice.fault = none) : unlinkBound dir choice bound reason =
      (dir.set bound.name none, reason.done none .removed) := by
  obtain ⟨entry, hentry, -, hkind, -⟩ := howns.here bound.name rfl
  simp [unlinkBound, hfault, attempt, Directory.unlink, hentry, hkind]

theorem unlinkBound_stopped {errno : Errno} (hfault : choice.fault = some errno) :
    unlinkBound dir choice bound reason = (dir, reason.done (some errno) (goneOrFailed errno)) := by
  simp [unlinkBound, hfault, attempt]

theorem unlinkBound_moved (howns : Owns setting.owner id dir (.unlinking bound reason)) :
    Moved setting.owner id dir (unlinkBound dir choice bound reason).1
      (unlinkBound dir choice bound reason).2 := by
  cases hfault : choice.fault with
  | some errno =>
      rw [unlinkBound_stopped hfault]
      exact howns.strand (Reason.done_place _ _) (Reason.done_stranded errno)
  | none =>
      rw [unlinkBound_removes howns hfault]
      exact howns.removed rfl (by simp) (Reason.done_place _ _)

end Removals

namespace World

/-! ## One event -/

section Events

variable {setting : Setting} {world : World}

/-- What an event does to the directory and to the call it belongs to. -/
inductive Turn (setting : Setting) (world : World) : Event → Directory → Phase → Prop
  | stays (event : Event) : Turn setting world event world.dir (world.calls event.call)
  | begins (id : CallId) (name : Name) (hphase : world.calls id = .idle) :
      Turn setting world (.bind id name) world.dir (begun setting name)
  | publishes (id : CallId) (choice : Choice) (name : Name) (stage : Stage)
      (hphase : world.calls id = .publishing name stage) :
      Turn setting world (.advance id choice)
        (PrivateSocket.advance setting world.dir id choice name stage).1
        (PrivateSocket.advance setting world.dir id choice name stage).2
  | looks (id : CallId) (choice : Choice) (bound : BoundEntry) (reason : Reason)
      (hphase : world.calls id = .removing bound reason) :
      Turn setting world (.advance id choice) world.dir (statBound world.dir choice bound reason)
  | unlinks (id : CallId) (choice : Choice) (bound : BoundEntry) (reason : Reason)
      (hphase : world.calls id = .unlinking bound reason) :
      Turn setting world (.advance id choice) (unlinkBound world.dir choice bound reason).1
        (unlinkBound world.dir choice bound reason).2
  | leaves (event : Event) (bound : BoundEntry) (reason : Reason)
      (hphase : world.calls event.call = .listener bound) :
      Turn setting world event world.dir (.removing bound reason)

@[simp] theorem setPhase_dir (id : CallId) (dir : Directory) (phase : Phase) :
    (world.setPhase id dir phase).dir = dir := rfl

@[simp] theorem setPhase_calls_same (id : CallId) (dir : Directory) (phase : Phase) :
    (world.setPhase id dir phase).calls id = phase := by
  simp [setPhase]

theorem setPhase_calls_other {id other : CallId} (hother : other ≠ id) (dir : Directory)
    (phase : Phase) : (world.setPhase id dir phase).calls other = world.calls other := by
  simp [setPhase, hother]

theorem step_turn (event : Event) :
    Turn setting world event (world.step setting event).dir
      ((world.step setting event).calls event.call) := by
  cases event with
  | bind id name =>
      simp only [step, Event.call]
      split
      next hphase =>
        rw [setPhase_dir, setPhase_calls_same]
        exact .begins id name hphase
      next => exact .stays (.bind id name)
  | advance id choice =>
      simp only [step, Event.call]
      split
      next name stage hphase =>
        rw [setPhase_dir, setPhase_calls_same]
        exact .publishes id choice name stage hphase
      next bound reason hphase =>
        rw [setPhase_dir, setPhase_calls_same]
        exact .looks id choice bound reason hphase
      next bound reason hphase =>
        rw [setPhase_dir, setPhase_calls_same]
        exact .unlinks id choice bound reason hphase
      next => exact .stays (.advance id choice)
  | close id =>
      simp only [step, Event.call]
      split
      next bound hphase =>
        rw [setPhase_dir, setPhase_calls_same]
        exact .leaves (.close id) bound .closed hphase
      next => exact .stays (.close id)
  | drop id =>
      simp only [step, Event.call]
      split
      next bound hphase =>
        rw [setPhase_dir, setPhase_calls_same]
        exact .leaves (.drop id) bound .dropped hphase
      next => exact .stays (.drop id)

theorem step_calls_other {event : Event} {other : CallId} (hother : other ≠ event.call) :
    (world.step setting event).calls other = world.calls other := by
  cases event <;> simp only [step] <;> split <;>
    first
    | exact setPhase_calls_other hother _ _
    | rfl

/-! ## Every reachable world -/

/-- Every call owns what it should, and no entry that no call made was published. -/
structure Sound (setting : Setting) (world : World) : Prop where
  owns : ∀ id, Owns setting.owner id world.dir (world.calls id)
  foreign : ∀ name entry, world.dir name = some entry → entry.maker = none → entry.published = false

theorem start_sound (foreign : Name → Option Foreign) : (start foreign).Sound setting := by
  have hmade : ∀ name entry, (start foreign).dir name = some entry →
      entry.maker = none ∧ entry.published = false := by
    intro name entry hentry
    obtain ⟨found, -, rfl⟩ := Option.map_eq_some_iff.mp hentry
    exact ⟨rfl, rfl⟩
  refine ⟨fun id => ⟨?_, ?_, ?_⟩, fun name entry hentry _ => (hmade name entry hentry).2⟩
  · intro name hplace
    cases hplace
  · intro name entry hentry hmaker
    rw [(hmade name entry hentry).1] at hmaker
    cases hmaker
  · intro name entry hentry hmaker
    rw [(hmade name entry hentry).1] at hmaker
    cases hmaker

/-- A call that has not begun goes on or fails without an entry. -/
theorem begun_moved {id : CallId} {name : Name} (howns : Owns setting.owner id world.dir .idle) :
    Moved setting.owner id world.dir world.dir (begun setting name) := by
  unfold begun
  split
  next => exact howns.stay rfl (by simp) (by simp)
  next =>
    split
    next => exact howns.stay rfl (by simp) (by simp)
    next => exact howns.stay rfl (by simp) (by simp)

theorem step_moved (hsound : world.Sound setting) (event : Event) :
    Moved setting.owner event.call world.dir (world.step setting event).dir
      ((world.step setting event).calls event.call) := by
  have howns := hsound.owns event.call
  have hturn := @step_turn setting world event
  revert hturn
  generalize (world.step setting event).dir = dir
  generalize (world.step setting event).calls event.call = phase
  intro hturn
  cases hturn with
  | stays => exact ⟨Kept.refl _ _, howns⟩
  | begins id name hphase =>
      change Owns setting.owner id world.dir (world.calls id) at howns
      rw [hphase] at howns
      exact begun_moved howns
  | publishes id choice name stage hphase =>
      change Owns setting.owner id world.dir (world.calls id) at howns
      rw [hphase] at howns
      exact advance_moved howns
  | looks id choice bound reason hphase =>
      change Owns setting.owner id world.dir (world.calls id) at howns
      rw [hphase] at howns
      exact statBound_moved howns
  | unlinks id choice bound reason hphase =>
      change Owns setting.owner id world.dir (world.calls id) at howns
      rw [hphase] at howns
      exact unlinkBound_moved howns
  | leaves _ bound reason hphase =>
      rw [hphase] at howns
      exact howns.stay rfl (fun _ _ _ _ hold => hold.1) (by simp)

theorem step_sound (hsound : world.Sound setting) (event : Event) :
    (world.step setting event).Sound setting := by
  have hmoved := step_moved hsound event
  constructor
  · intro other
    by_cases hother : other = event.call
    · rw [hother]
      exact hmoved.owns
    · rw [step_calls_other hother]
      exact hmoved.kept.owns hother (hsound.owns other)
  · intro name entry hentry hmaker
    refine hsound.foreign name entry ((hmoved.kept name entry ?_).mp hentry) hmaker
    rw [hmaker]
    exact fun hsame => by cases hsame

theorem after_sound (setting : Setting) (foreign : Name → Option Foreign) (events : List Event) :
    (after setting (start foreign) events).Sound setting :=
  @Machine.final_invariant _ _ _ (machine setting) (Sound setting)
    (fun _ event hsound => step_sound hsound event) _ (start_sound foreign) events

/-! ## What a call is told -/

/-- What one system call of a publish can come to. -/
def Outcome (dir : Directory) (choice : Choice) (name : Name) (stage : Stage) : Phase → Prop
  | .listener bound => bound.name = name ∧ dir name = none
  | .failed _ true =>
      choice.fault.isSome = true ∧ ∃ temporary recheck, stage = .statingCreated temporary recheck
  | .closed _ | .dropped _ => False
  | _ => True

theorem advance_outcome {dir : Directory} {id : CallId} {choice : Choice} {name : Name}
    {stage : Stage} : Outcome dir choice name stage
      (PrivateSocket.advance setting dir id choice name stage).2 := by
  cases stage with
  | drawing left taken =>
      simp only [PrivateSocket.advance, drawOnce]
      repeat' split
      all_goals trivial
  | statingCreated temporary recheck =>
      simp only [PrivateSocket.advance]
      repeat' split
      · trivial
      · trivial
      · trivial
      · cases hfault : choice.fault with
        | none => trivial
        | some errno => exact ⟨by rw [hfault]; rfl, temporary, recheck, rfl⟩
  | «renaming» bound =>
      simp only [PrivateSocket.advance]
      split
      next next hrename =>
        obtain ⟨entry, hentry, hfree, -⟩ := renameNoReplace_ok (attempt_eq_ok.mp hrename).2
        exact ⟨rfl, hfree⟩
      next => trivial
      next => trivial
  | _ =>
      simp only [PrivateSocket.advance]
      repeat' split
      all_goals trivial

/-- An error was injected into a look at the call's own entry, or into its removal. -/
def Inspected (world : World) : Event → Prop
  | .advance id choice =>
      choice.fault.isSome = true ∧
        ((∃ name temporary recheck,
            world.calls id = .publishing name (.statingCreated temporary recheck)) ∨
          (∃ bound reason, world.calls id = .removing bound reason) ∨
          ∃ bound reason, world.calls id = .unlinking bound reason)
  | _ => False

/-- The event unlinks the entry that its call made. -/
def Unlinks (world : World) (event : Event) (dir : Directory) (reason : Reason) : Prop :=
  ∃ bound entry, world.calls event.call = .unlinking bound reason ∧
    world.dir bound.name = some entry ∧ entry.maker = some event.call ∧ entry.kind = .socket ∧
    dir = world.dir.set bound.name none

/-- What it takes for a call to be told what it is. -/
def Told (world : World) (event : Event) (dir : Directory) : Phase → Prop
  | .listener bound => world.dir bound.name = none ∧
      ∃ stage, world.calls event.call = .publishing bound.name stage
  | .failed _ true => Inspected world event
  | .closed .removed => Unlinks world event dir .closed
  | .dropped .removed => Unlinks world event dir .dropped
  | _ => True

theorem told_done {event : Event} {dir : Directory} {reason : Reason} {errno : Errno}
    (hinspected : Inspected world event) :
    Told world event dir (reason.done (some errno) (goneOrFailed errno)) := by
  cases reason with
  | failed error => exact hinspected
  | closed => cases errno <;> trivial
  | dropped => cases errno <;> trivial

theorem step_told (hsound : world.Sound setting) (event : Event) :
    (world.step setting event).calls event.call = world.calls event.call ∨
      Told world event (world.step setting event).dir
        ((world.step setting event).calls event.call) := by
  have howns := hsound.owns event.call
  have hturn := @step_turn setting world event
  revert hturn
  generalize (world.step setting event).dir = dir
  generalize (world.step setting event).calls event.call = phase
  intro hturn
  cases hturn with
  | stays => exact Or.inl rfl
  | begins id name hphase =>
      right
      unfold begun
      repeat' split
      all_goals trivial
  | publishes id choice name stage hphase =>
      right
      have houtcome := @advance_outcome setting world.dir id choice name stage
      revert houtcome
      generalize (PrivateSocket.advance setting world.dir id choice name stage).1 = dir
      generalize (PrivateSocket.advance setting world.dir id choice name stage).2 = phase
      intro houtcome
      cases phase with
      | listener bound =>
          obtain ⟨rfl, hfree⟩ := houtcome
          exact ⟨hfree, stage, hphase⟩
      | failed error stranded =>
          cases stranded with
          | false => trivial
          | true =>
              obtain ⟨hfault, temporary, recheck, rfl⟩ := houtcome
              exact ⟨hfault, Or.inl ⟨name, temporary, recheck, hphase⟩⟩
      | closed outcome => exact houtcome.elim
      | dropped outcome => exact houtcome.elim
      | _ => trivial
  | looks id choice bound reason hphase =>
      right
      change Owns setting.owner id world.dir (world.calls id) at howns
      rw [hphase] at howns
      cases hfault : choice.fault with
      | some errno =>
          rw [statBound_stopped hfault]
          exact told_done ⟨by rw [hfault]; rfl, Or.inr (Or.inl ⟨bound, reason, hphase⟩)⟩
      | none =>
          rw [statBound_finds howns hfault]
          trivial
  | unlinks id choice bound reason hphase =>
      right
      change Owns setting.owner id world.dir (world.calls id) at howns
      rw [hphase] at howns
      cases hfault : choice.fault with
      | some errno =>
          rw [unlinkBound_stopped hfault]
          exact told_done ⟨by rw [hfault]; rfl, Or.inr (Or.inr ⟨bound, reason, hphase⟩)⟩
      | none =>
          rw [unlinkBound_removes howns hfault]
          obtain ⟨entry, hentry, hmaker, hkind, -⟩ := howns.here bound.name rfl
          have hunlinks : ∀ reason', reason = reason' → Unlinks world (.advance id choice)
              (world.dir.set bound.name none) reason' := by
            rintro reason' rfl
            exact ⟨bound, entry, hphase, hentry, hmaker, hkind, rfl⟩
          cases reason with
          | failed error => trivial
          | closed => exact hunlinks _ rfl
          | dropped => exact hunlinks _ rfl
  | leaves _ bound reason hphase =>
      right
      trivial

/-- Two calls that own the entry at one name are the same. -/
theorem Sound.place_unique (hsound : world.Sound setting) {id other : CallId} {name : Name}
    (hid : (world.calls id).place = some name) (hother : (world.calls other).place = some name) :
    id = other := by
  obtain ⟨entry, hentry, hmaker, -⟩ := (hsound.owns id).here name hid
  obtain ⟨entry', hentry', hmaker', -⟩ := (hsound.owns other).here name hother
  rw [hentry, Option.some.injEq] at hentry'
  rw [hentry', hmaker', Option.some.injEq] at hmaker
  exact hmaker.symm

theorem Sound.published_whole (hsound : world.Sound setting) {name : Name} {entry : Entry}
    (hentry : world.dir name = some entry) (hpublished : entry.published = true) :
    entry.Whole setting.owner := by
  cases hmaker : entry.maker with
  | none =>
      rw [hsound.foreign name entry hentry hmaker] at hpublished
      cases hpublished
  | some id => exact (hsound.owns id).whole name entry hentry hmaker hpublished

/-- A look at a name that is taken. -/
theorem step_taken_stat {id : CallId} {choice : Choice} {name : Name} {entry : Entry}
    (hentry : world.dir name = some entry) (hfault : choice.fault = none)
    (hphase : world.calls id = .publishing name .statingName) :
    (world.step setting (.advance id choice)).calls id = .failed (.addressInUse name) false := by
  simp [step, hphase, PrivateSocket.advance, attempt, hfault, Directory.stat, hentry]

/-- A rename to a name that is taken. -/
theorem step_taken_rename (hsound : world.Sound setting) {id : CallId} {choice : Choice}
    {name : Name} {bound : BoundEntry} {entry : Entry} (hentry : world.dir name = some entry)
    (hfault : choice.fault = none) (hphase : world.calls id = .publishing name (.renaming bound)) :
    (world.step setting (.advance id choice)).calls id =
      .removing bound (.failed (.addressInUse name)) := by
  have howns := hsound.owns id
  rw [hphase] at howns
  obtain ⟨held, hheld, -⟩ := howns.here bound.name rfl
  simp [step, hphase, PrivateSocket.advance, attempt, hfault, Directory.renameNoReplace, hentry,
    hheld]

/-- In any run of binds, closes and drops, what a rename put in place is a whole socket that was
listening before, no call touches an entry it did not make or succeeds at a name that is taken,
two open listeners have different names, a failed call leaves no entry unless an error hid it or
stopped its removal, and a close that says so has removed its own socket. -/
theorem published_socket_is_whole_and_others_are_kept (setting : Setting)
    (foreign : Name → Option Foreign) (events : List Event) (event : Event) :
    let world := after setting (start foreign) events
    let next := world.step setting event
    (∀ name entry, world.dir name = some entry → entry.published = true →
      entry.Whole setting.owner) ∧
    (∀ name entry, world.dir name = some entry → entry.maker ≠ some event.call →
      next.dir name = some entry) ∧
    (∀ bound, next.calls event.call = .listener bound → world.calls event.call = .listener bound ∨
      world.dir bound.name = none ∧ ∃ stage, world.calls event.call =
      .publishing bound.name stage) ∧
    (∀ id choice name entry, world.dir name = some entry → choice.fault = none →
      (world.calls id = .publishing name .statingName →
        (world.step setting (.advance id choice)).calls id = .failed (.addressInUse name) false) ∧
      ∀ bound, world.calls id = .publishing name (.renaming bound) →
        (world.step setting (.advance id choice)).calls id =
          .removing bound (.failed (.addressInUse name))) ∧
    (∀ id other bound bound', world.calls id = .listener bound →
      world.calls other = .listener bound' → bound.name = bound'.name → id = other) ∧
    (∀ id error, world.calls id = .failed error false →
      ∀ name entry, world.dir name = some entry → entry.maker ≠ some id) ∧
    (∀ error, next.calls event.call = .failed error true →
      world.calls event.call = .failed error true ∨ Inspected world event) ∧
    (next.calls event.call = .closed .removed →
      world.calls event.call = .closed .removed ∨ Unlinks world event next.dir .closed) := by
  intro world next
  have hsound : world.Sound setting := after_sound setting foreign events
  have hmoved := step_moved hsound event
  have htold := step_told hsound event
  refine ⟨fun name entry => hsound.published_whole, ?_, ?_, ?_, ?_, ?_, ?_, ?_⟩
  · intro name entry hentry hmaker
    exact (hmoved.kept name entry hmaker).mpr hentry
  · intro bound hafter
    change (world.step setting event).calls event.call = .listener bound at hafter
    rw [hafter] at htold
    exact htold.imp_left Eq.symm
  · intro id choice name entry hentry hfault
    exact ⟨step_taken_stat hentry hfault, fun bound => step_taken_rename hsound hentry hfault⟩
  · intro id other bound bound' hid hother hname
    refine @Sound.place_unique _ _ hsound _ _ bound.name ?_ ?_
    · rw [hid]
      rfl
    · rw [hother, hname]
      rfl
  · intro id error hphase name entry hentry hmaker
    have honly := (hsound.owns id).only name entry hentry hmaker
    rw [hphase] at honly
    rcases honly with hplace | hstranded
    · cases hplace
    · cases hstranded
  · intro error hafter
    change (world.step setting event).calls event.call = .failed error true at hafter
    rw [hafter] at htold
    exact htold.imp_left Eq.symm
  · intro hafter
    change (world.step setting event).calls event.call = .closed .removed at hafter
    rw [hafter] at htold
    exact htold.imp_left Eq.symm

end Events

end World

end Plasmosome.PrivateSocket
