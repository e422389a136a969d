import Plasmosome.Instance.Allocator

/-!
# Which IDs an allocation returns

What an attempt has listed covers every name that was there when it began. Only
a directory another call makes during the attempt can carry the number it takes.
-/

namespace Plasmosome.Instance

open Foundation

/-- A name is accounted for: it is still to be listed, or its number has been passed. -/
def Covered (system : System) (name : Name) (number : Nat) : Phase → Prop
  | .listingCells listing => name ∈ listing.throughout ∨ name ∈ system.retired
  | .listedCells inCells => number ≤ inCells ∨ name ∈ system.retired
  | .listingRetired inCells listing => number ≤ inCells ∨ name ∈ listing.throughout
  | .creating next => number < next
  | .created next => number < next

/-- What a listing under way watches is there. -/
def Watches (system : System) : Phase → Prop
  | .listingCells listing => listing.throughout ⊆ system.cells
  | .listingRetired _ listing => listing.throughout ⊆ system.retired
  | .creating next => 1 ≤ next ∧ next ≤ maxCellNumber
  | .created next => 1 ≤ next ∧ next ≤ maxCellNumber
  | .listedCells _ => True

/-- How many steps of its own an allocation has made. -/
def Allocation.steps (allocation : Allocation) : Nat :=
  4 * (allocation.listings - 1) +
    match allocation.phase with
    | .listingCells _ => 0
    | .listedCells _ => 1
    | .listingRetired _ _ => 2
    | .creating _ => 3
    | .created _ => 4

/-- What is known of the allocation that runs, where `old` are the names its attempt began with. -/
structure Attempt (system : System) (events : List Event) (allocation : Allocation)
    (old : Finset Name) : Prop where
  lowest : 1 ≤ allocation.lowest
  listings : 1 ≤ allocation.listings ∧ allocation.listings ≤ allocationAttempts
  watches : Watches system allocation.phase
  covered : ∀ name ∈ old, ∀ number, listedCellNumber name = some number →
    Covered system name number allocation.phase
  known : ∀ name ∈ system.names, name ∈ old ∨ .make name ∈ sinceListing events ∨
    ∃ next, allocation.phase = .created next ∧ name = cellName next
  /-- The IDs made before this allocation's own. -/
  ids : ∃ earlier, (∀ id ∈ earlier, cellName id ∈ old) ∧ (returnedIds events).Sublist earlier ∧
    allocatedIds events = earlier ++
      match allocation.phase with
      | .created next => [next]
      | _ => []
  /-- What the allocation has done since it began. -/
  own : ∃ before since, events = before ++ .begin :: since ∧ .begin ∉ since ∧
    since.countP (fun event => !event.byOthers) = allocation.steps
  /-- Only other calls have stepped since the directory was made. -/
  last : ∀ next, allocation.phase = .created next → ∃ before since,
    events = before ++ .allocated next :: since ∧ ∀ event ∈ since, event.byOthers

/-- What holds after every run. -/
structure Accounted (system : System) (events : List Event) : Prop where
  allocated : (allocatedIds events).Pairwise (· < ·)
  returned : (returnedIds events).Sublist (allocatedIds events)
  bounded : ∀ id ∈ allocatedIds events, 1 ≤ id ∧ id ≤ maxCellNumber ∧ cellName id ∈ system.names
  attempt : ∀ allocation, system.allocation = some allocation →
    ∃ old, Attempt system events allocation old

@[simp] theorem allocatedIds_append (first second : List Event) :
    allocatedIds (first ++ second) = allocatedIds first ++ allocatedIds second := by
  simp [allocatedIds]

@[simp] theorem returnedIds_append (first second : List Event) :
    returnedIds (first ++ second) = returnedIds first ++ returnedIds second := by
  simp [returnedIds]

theorem ids_of_byOthers {event : Event} (hothers : event.byOthers) :
    allocatedIds [event] = [] ∧ returnedIds [event] = [] ∧ event.lists = false := by
  cases event <;> first | exact ⟨rfl, rfl, rfl⟩ | cases hothers

namespace System

variable {system next : System}

/-! ## Steps of other calls -/

/-- What a step of another call changes: nothing, the checks under way, or one of two directories
with every listing watching it. -/
theorem step_others {event : Event} (hothers : event.byOthers)
    (hstep : system.step event = some next) :
    (next.cells = system.cells ∧ next.retired = system.retired ∧
        next.allocation = system.allocation) ∨
      (∃ name, event = .make name ∧ next.cells = insert name system.cells ∧
        next.retired = system.retired ∧
        next.allocation = ({ system with cells := insert name system.cells }.watched).allocation) ∨
      ∃ name, name ∈ system.cells ∧ next.cells = system.cells.erase name ∧
        next.retired = insert name system.retired ∧
        next.allocation = ({ system with
          cells := system.cells.erase name
          retired := insert name system.retired }.watched).allocation := by
  cases event with
  | make name =>
      simp only [step] at hstep
      split at hstep
      next =>
        cases hstep
        exact .inl ⟨rfl, rfl, rfl⟩
      next =>
        cases hstep
        exact .inr (.inl ⟨name, rfl, rfl, rfl, rfl⟩)
  | check name =>
      simp only [step] at hstep
      split at hstep <;> cases hstep <;> exact .inl ⟨rfl, rfl, rfl⟩
  | move name =>
      simp only [step] at hstep
      split at hstep
      next =>
        split at hstep
        next hmoves =>
          cases hstep
          exact .inr (.inr ⟨name, hmoves.1, rfl, rfl, rfl⟩)
        next =>
          cases hstep
          exact .inl ⟨rfl, rfl, rfl⟩
      next => cases hstep
  | abandon name =>
      simp only [step] at hstep
      split at hstep
      next =>
        cases hstep
        exact .inl ⟨rfl, rfl, rfl⟩
      next => cases hstep
  | _ => cases hothers

/-- The phase of an allocation after other calls changed the directories. -/
def watchedPhase (cells retired : Finset Name) : Phase → Phase
  | .listingCells listing => .listingCells (listing.watch cells)
  | .listingRetired inCells listing => .listingRetired inCells (listing.watch retired)
  | phase => phase

theorem watched_allocation (system : System) :
    system.watched.allocation = system.allocation.map fun allocation =>
      { allocation with phase := watchedPhase system.cells system.retired allocation.phase } := by
  rcases system with ⟨cells, retired, allocation, checked⟩
  cases allocation with
  | none => rfl
  | some allocation =>
      rcases allocation with ⟨lowest, listings, phase⟩
      cases phase <;> rfl

theorem watchedPhase_created {cells retired : Finset Name} {phase : Phase} {number : Nat} :
    watchedPhase cells retired phase = .created number ↔ phase = .created number := by
  cases phase <;> simp [watchedPhase]

theorem watchedPhase_watches {cells retired : Finset Name} {phase : Phase}
    {system next : System} (hcells : next.cells = cells) (hretired : next.retired = retired)
    (hwatches : Watches system phase) : Watches next (watchedPhase cells retired phase) := by
  subst hcells hretired
  cases phase with
  | listingCells listing => exact Finset.inter_subset_right
  | listingRetired inCells listing => exact Finset.inter_subset_right
  | listedCells inCells => trivial
  | creating number => exact hwatches
  | created number => exact hwatches

/-- A change by another call keeps a name accounted for, if it loses no name but to `retired`. -/
theorem watchedPhase_covered {cells retired : Finset Name} {phase : Phase} {name : Name}
    {number : Nat} {system next : System} (hretired : next.retired = retired)
    (hkept : ∀ other ∈ system.cells, other ∈ cells ∨ other ∈ retired)
    (hgrows : system.retired ⊆ retired) (hwatches : Watches system phase)
    (hcovered : Covered system name number phase) :
    Covered next name number (watchedPhase cells retired phase) := by
  subst hretired
  cases phase with
  | listingCells listing =>
      rcases hcovered with hthroughout | hmoved
      · rcases hkept name (hwatches hthroughout) with hcells | hmoved
        · exact .inl (Finset.mem_inter.mpr ⟨hthroughout, hcells⟩)
        · exact .inr hmoved
      · exact .inr (hgrows hmoved)
  | listingRetired inCells listing =>
      rcases hcovered with hpassed | hthroughout
      · exact .inl hpassed
      · exact .inr (Finset.mem_inter.mpr ⟨hthroughout, hgrows (hwatches hthroughout)⟩)
  | listedCells inCells =>
      rcases hcovered with hpassed | hmoved
      · exact .inl hpassed
      · exact .inr (hgrows hmoved)
  | creating number => exact hcovered
  | created number => exact hcovered

theorem steps_watchedPhase (cells retired : Finset Name) (allocation : Allocation) :
    Allocation.steps { allocation with phase := watchedPhase cells retired allocation.phase } =
      allocation.steps := by
  rcases allocation with ⟨lowest, listings, phase⟩
  cases phase <;> rfl

/-- A step by another call moves nothing but what is in `cells`, and loses no name. -/
theorem step_others_names {event : Event} (hothers : event.byOthers)
    (hstep : system.step event = some next) :
    (∀ name ∈ system.cells, name ∈ next.cells ∨ name ∈ next.retired) ∧
      system.retired ⊆ next.retired ∧
      (∀ name ∈ next.names, name ∈ system.names ∨ event = .make name) ∧
      (next.allocation = system.allocation ∧ next.cells = system.cells ∧
          next.retired = system.retired ∨
        next.allocation = system.allocation.map fun allocation =>
          { allocation with phase := watchedPhase next.cells next.retired allocation.phase }) := by
  rcases step_others hothers hstep with ⟨hcells, hretired, hallocation⟩ |
    ⟨made, rfl, hcells, hretired, hallocation⟩ | ⟨moved, hmoved, hcells, hretired, hallocation⟩
  · refine ⟨?_, ?_, ?_, .inl ⟨hallocation, hcells, hretired⟩⟩
    · intro name hname
      exact .inl (hcells ▸ hname)
    · rw [hretired]
    · intro name hname
      rw [names, hcells, hretired] at hname
      exact .inl hname
  · rw [watched_allocation] at hallocation
    refine ⟨?_, ?_, ?_, .inr ?_⟩
    · intro name hname
      rw [hcells]
      exact .inl (Finset.mem_insert_of_mem hname)
    · rw [hretired]
    · intro name hname
      rw [names, hcells, hretired, Finset.insert_union, Finset.mem_insert] at hname
      rcases hname with rfl | hold
      · exact .inr rfl
      · exact .inl hold
    · rw [hcells, hretired]
      exact hallocation
  · rw [watched_allocation] at hallocation
    refine ⟨?_, ?_, ?_, .inr ?_⟩
    · intro name hname
      rw [hcells, hretired]
      by_cases hsame : name = moved
      · exact .inr (by simp [hsame])
      · exact .inl (Finset.mem_erase.mpr ⟨hsame, hname⟩)
    · rw [hretired]
      exact Finset.subset_insert _ _
    · intro name hname
      rw [names, hcells, hretired, Finset.mem_union, Finset.mem_erase, Finset.mem_insert] at hname
      rw [names, Finset.mem_union]
      rcases hname with ⟨_, hold⟩ | rfl | hold
      · exact .inl (.inl hold)
      · exact .inl (.inl hmoved)
      · exact .inl (.inr hold)
    · rw [hcells, hretired]
      exact hallocation

end System

/-! ## One step of an attempt -/

namespace Attempt

variable {system next : System} {events : List Event} {allocation : Allocation} {old : Finset Name}

/-- Steps of other calls leave an attempt as far as it was. -/
theorem others (hattempt : Attempt system events allocation old) {event : Event}
    (hothers : event.byOthers) (hstep : system.step event = some next)
    {phase : Phase}
    (hphase : phase = allocation.phase ∧ next.cells = system.cells ∧ next.retired = system.retired ∨
      phase = System.watchedPhase next.cells next.retired allocation.phase) :
    Attempt next (events ++ [event]) { allocation with phase } old := by
  obtain ⟨hkept, hgrows, hnew, _⟩ := System.step_others_names hothers hstep
  obtain ⟨hallocated, hreturned, hlists⟩ := ids_of_byOthers hothers
  have hcreated : ∀ number, phase = .created number ↔ allocation.phase = .created number := by
    intro number
    rcases hphase with ⟨rfl, _⟩ | rfl
    · exact Iff.rfl
    · exact System.watchedPhase_created
  have hmade : (match phase with | .created number => [number] | _ => []) =
      match allocation.phase with | .created number => [number] | _ => [] := by
    rcases hphase with ⟨rfl, _⟩ | rfl
    · rfl
    · cases allocation.phase <;> rfl
  constructor
  · exact hattempt.lowest
  · exact hattempt.listings
  · rcases hphase with ⟨rfl, hcells, hretired⟩ | rfl
    · have hwatches := hattempt.watches
      cases hallocation : allocation.phase <;> simp only [hallocation] at hwatches ⊢ <;>
        simp_all [Watches]
    · exact System.watchedPhase_watches rfl rfl hattempt.watches
  · intro name hname number hnumber
    have hcovered := hattempt.covered name hname number hnumber
    rcases hphase with ⟨rfl, hcells, hretired⟩ | rfl
    · cases hallocation : allocation.phase <;> simp only [hallocation] at hcovered ⊢ <;>
        simpa [Covered, hcells, hretired] using hcovered
    · exact System.watchedPhase_covered rfl hkept hgrows hattempt.watches hcovered
  · intro name hname
    rw [sinceListing_concat hlists]
    rcases hnew name hname with hold | rfl
    · rcases hattempt.known name hold with hold | hmake | ⟨number, hnumber, rfl⟩
      · exact .inl hold
      · exact .inr (.inl (List.mem_append_left _ hmake))
      · exact .inr (.inr ⟨number, (hcreated number).mpr hnumber, rfl⟩)
    · exact .inr (.inl (by simp))
  · obtain ⟨earlier, hids, hsublist, hall⟩ := hattempt.ids
    refine ⟨earlier, hids, ?_, ?_⟩
    · rw [returnedIds_append, hreturned, List.append_nil]
      exact hsublist
    · rw [allocatedIds_append, hallocated, List.append_nil, hall, hmade]
  · obtain ⟨before, since, rfl, hbegin, hcount⟩ := hattempt.own
    refine ⟨before, since ++ [event], by simp, ?_, ?_⟩
    · rw [List.mem_append, not_or]
      refine ⟨hbegin, ?_⟩
      rw [List.mem_singleton]
      rintro rfl
      cases hothers
    · rw [List.countP_append, hcount]
      have hsteps : Allocation.steps { allocation with phase } = allocation.steps := by
        rcases hphase with ⟨rfl, _⟩ | rfl
        · rfl
        · exact System.steps_watchedPhase _ _ _
      simp [hothers, hsteps]
  · intro number hnumber
    obtain ⟨before, since, rfl, hsince⟩ := hattempt.last number ((hcreated number).mp hnumber)
    refine ⟨before, since ++ [event], by simp, ?_⟩
    intro other hother
    rcases List.mem_append.mp hother with hmem | hmem
    · exact hsince other hmem
    · rw [List.mem_singleton] at hmem
      exact hmem ▸ hothers

/-- An attempt goes on to its next phase: what was accounted for still is. -/
theorem advance (hattempt : Attempt system events allocation old) {event : Event} {phase : Phase}
    (hown : event.byOthers = false) (hlists : event.lists = false)
    (hids : allocatedIds [event] = [] ∧ returnedIds [event] = [])
    (hbefore : ∀ number, allocation.phase ≠ .created number)
    (hafter : ∀ number, phase ≠ .created number) (hwatches : Watches system phase)
    (hcovered : ∀ name ∈ old, ∀ number, listedCellNumber name = some number →
      Covered system name number allocation.phase → Covered system name number phase)
    (hsteps : Allocation.steps { allocation with phase } = allocation.steps + 1) :
    Attempt (system.setPhase allocation phase) (events ++ [event])
    { allocation with phase } old where
  lowest := hattempt.lowest
  listings := hattempt.listings
  watches := by cases phase <;> exact hwatches
  covered := by
    intro name hname number hnumber
    have hnext := hcovered name hname number hnumber
      (hattempt.covered name hname number hnumber)
    cases phase <;> exact hnext
  known := by
    intro name hname
    rw [sinceListing_concat hlists]
    rcases hattempt.known name hname with hold | hmake | ⟨number, hnumber, _⟩
    · exact .inl hold
    · exact .inr (.inl (List.mem_append_left _ hmake))
    · exact absurd hnumber (hbefore number)
  ids := by
    obtain ⟨earlier, hids', hsublist, hall⟩ := hattempt.ids
    refine ⟨earlier, hids', ?_, ?_⟩
    · rw [returnedIds_append, hids.2, List.append_nil]
      exact hsublist
    · have hnone : ∀ phase : Phase, (∀ number, phase ≠ .created number) →
          (match phase with | .created number => [number] | _ => []) = ([] : List Nat) := by
        intro phase hphase
        cases phase with
        | created number => exact absurd rfl (hphase number)
        | _ => rfl
      rw [allocatedIds_append, hids.1, List.append_nil, hall, hnone _ hbefore, hnone _ hafter]
  own := by
    obtain ⟨before, since, rfl, hbegin, hcount⟩ := hattempt.own
    refine ⟨before, since ++ [event], by simp, ?_, ?_⟩
    · rw [List.mem_append, not_or]
      refine ⟨hbegin, ?_⟩
      rw [List.mem_singleton]
      rintro rfl
      cases hlists
    · rw [List.countP_append, hcount, hsteps]
      simp [hown]
  last := by
    intro number hnumber
    exact absurd hnumber (hafter number)

/-- An attempt that begins to list accounts for every name there is. -/
theorem listing (hlowest : 1 ≤ allocation.lowest)
    (hlistings : 1 ≤ allocation.listings ∧ allocation.listings ≤ allocationAttempts)
    (hphase : allocation.phase = .listingCells (.begin system.cells))
    (hsublist : (returnedIds events).Sublist (allocatedIds events))
    (hids : ∀ id ∈ allocatedIds events, cellName id ∈ system.names)
    (hown : ∃ before since, events = before ++ .begin :: since ∧ .begin ∉ since ∧
      since.countP (fun event => !event.byOthers) = allocation.steps) :
    Attempt system events allocation system.names where
  lowest := hlowest
  listings := hlistings
  watches := by
    rw [hphase]
    exact Finset.Subset.refl _
  covered := by
    intro name hname number _
    rw [hphase]
    exact Finset.mem_union.mp hname
  known := by
    intro name hname
    exact .inl hname
  ids := by
    refine ⟨allocatedIds events, hids, hsublist, ?_⟩
    rw [hphase, List.append_nil]
  own := hown
  last := by
    intro number hnumber
    rw [hphase] at hnumber
    cases hnumber

/-- The number an attempt takes is above every number there was when it began. -/
theorem fresh (hattempt : Attempt system events allocation old) {number : Nat}
    (hcreating : allocation.phase = .creating number) :
    (∀ name ∈ system.names, listedCellNumber name = some number →
      .make name ∈ sinceListing events) ∧
    ∀ id ∈ allocatedIds events, 1 ≤ id → id ≤ maxCellNumber → id < number := by
  have hcovered := hattempt.covered
  simp only [hcreating, Covered] at hcovered
  constructor
  · intro name hname hnumber
    rcases hattempt.known name hname with hold | hmake | ⟨next, hcreated, _⟩
    · exact absurd (hcovered name hold number hnumber) (Nat.lt_irrefl _)
    · exact hmake
    · rw [hcreating] at hcreated
      cases hcreated
  · intro id hid hpositive hbound
    obtain ⟨earlier, hids, _, hall⟩ := hattempt.ids
    rw [hcreating, List.append_nil] at hall
    exact hcovered _ (hids id (hall ▸ hid)) id (listedCellNumber_cellName hpositive hbound)

end Attempt

namespace System

variable {system next : System} {events : List Event}

/-- What a step of the allocation can do. -/
theorem allocate_cases {allocation : Allocation} {event : Event}
    (hstep : system.allocate allocation event = some next) :
    (∃ listing reported, event = .listedCells reported ∧
        allocation.phase = .listingCells listing ∧ listing.Reports reported ∧
        next = system.setPhase allocation (.listedCells (largest reported))) ∨
      (∃ inCells, event = .listRetired ∧ allocation.phase = .listedCells inCells ∧
        next = system.setPhase allocation (.listingRetired inCells (.begin system.retired))) ∨
      (∃ inCells listing reported number, event = .listedRetired reported ∧
        allocation.phase = .listingRetired inCells listing ∧ listing.Reports reported ∧
        nextCellNumber allocation.lowest inCells (largest reported) = some number ∧
        next = system.setPhase allocation (.creating number)) ∨
      (∃ number, event = .taken ∧ allocation.phase = .creating number ∧
        allocation.listings < allocationAttempts ∧
        next = { system with
          allocation :=
            some ⟨number + 1, allocation.listings + 1, .listingCells (.begin system.cells)⟩ }) ∨
      (∃ number, event = .allocated number ∧ allocation.phase = .creating number ∧
        next = { system with
          cells := insert (cellName number) system.cells
          allocation := some { allocation with phase := .created number } }) ∨
      (∃ number, event = .returned number ∧ allocation.phase = .created number ∧
        next = { system with allocation := none }) ∨
      allocatedIds [event] = [] ∧ returnedIds [event] = [] ∧
        next = { system with allocation := none } := by
  cases event with
  | listedCells reported =>
      simp only [allocate] at hstep
      split at hstep
      next listing hphase =>
        split at hstep
        next hreports =>
          cases hstep
          exact .inl ⟨listing, reported, rfl, hphase, hreports, rfl⟩
        next => cases hstep
      next => cases hstep
  | listRetired =>
      simp only [allocate] at hstep
      split at hstep
      next inCells hphase =>
        cases hstep
        exact .inr (.inl ⟨inCells, rfl, hphase, rfl⟩)
      next => cases hstep
  | listedRetired reported =>
      simp only [allocate] at hstep
      split at hstep
      next inCells listing hphase =>
        split at hstep
        next hreports =>
          split at hstep
          next number hnumber =>
            cases hstep
            exact .inr (.inr (.inl ⟨inCells, listing, reported, number, rfl, hphase, hreports,
              hnumber, rfl⟩))
          next =>
            cases hstep
            exact .inr (.inr (.inr (.inr (.inr (.inr ⟨rfl, rfl, rfl⟩)))))
        next => cases hstep
      next => cases hstep
  | taken =>
      simp only [allocate] at hstep
      split at hstep
      next number hphase =>
        split at hstep
        next =>
          split at hstep
          next hlistings =>
            cases hstep
            exact .inr (.inr (.inr (.inl ⟨number, rfl, hphase, hlistings, rfl⟩)))
          next =>
            cases hstep
            exact .inr (.inr (.inr (.inr (.inr (.inr ⟨rfl, rfl, rfl⟩)))))
        next => cases hstep
      next => cases hstep
  | allocated number =>
      simp only [allocate] at hstep
      split at hstep
      next chosen hphase =>
        split at hstep
        next hmake =>
          cases hstep
          obtain ⟨rfl, _⟩ := hmake
          exact .inr (.inr (.inr (.inr (.inl ⟨chosen, rfl, hphase, rfl⟩))))
        next => cases hstep
      next => cases hstep
  | returned number =>
      simp only [allocate] at hstep
      split at hstep
      next hphase =>
        cases hstep
        exact .inr (.inr (.inr (.inr (.inr (.inl ⟨number, rfl, hphase, rfl⟩)))))
      next => cases hstep
  | failed =>
      cases hstep
      exact .inr (.inr (.inr (.inr (.inr (.inr ⟨rfl, rfl, rfl⟩)))))
  | _ => cases hstep

theorem step_own {event : Event} (hown : event.byOthers = false)
    (hstep : system.step event = some next) :
    event = .begin ∧ system.allocation = none ∧
        next = { system with allocation := some ⟨1, 1, .listingCells (.begin system.cells)⟩ } ∨
      ∃ allocation, system.allocation = some allocation ∧
        system.allocate allocation event = some next := by
  cases event with
  | begin =>
      simp only [step] at hstep
      split at hstep
      next hnone =>
        cases hstep
        exact .inl ⟨rfl, hnone, rfl⟩
      next => cases hstep
  | make name => cases hown
  | check name => cases hown
  | move name => cases hown
  | abandon name => cases hown
  | _ => exact .inr (Option.bind_eq_some_iff.mp hstep)

/-- No name is ever lost. -/
theorem step_names {event : Event} (hstep : system.step event = some next) :
    system.names ⊆ next.names := by
  intro name hname
  cases hothers : event.byOthers with
  | true =>
      obtain ⟨hkept, hgrows, _⟩ := step_others_names hothers hstep
      rw [names, Finset.mem_union] at hname ⊢
      rcases hname with hcells | hretired
      · exact hkept name hcells
      · exact .inr (hgrows hretired)
  | false =>
      rcases step_own hothers hstep with ⟨_, _, rfl⟩ | ⟨allocation, _, hallocate⟩
      · exact hname
      · rcases allocate_cases hallocate with ⟨_, _, _, _, _, rfl⟩ | ⟨_, _, _, rfl⟩ |
          ⟨_, _, _, _, _, _, _, _, rfl⟩ | ⟨_, _, _, _, rfl⟩ | ⟨number, _, _, rfl⟩ |
          ⟨_, _, _, rfl⟩ | ⟨_, _, rfl⟩
        all_goals first
          | exact hname
          | exact Finset.mem_union.mpr ((Finset.mem_union.mp hname).imp_left
              (Finset.mem_insert_of_mem))

theorem run_names {start final : System} {events : List Event}
    (hrun : run start events = some final) : start.names ⊆ final.names := by
  induction events generalizing start with
  | nil =>
      cases hrun
      exact Finset.Subset.refl _
  | cons event events ih =>
      rw [run, List.foldlM_cons] at hrun
      obtain ⟨middle, hstep, hrest⟩ := Option.bind_eq_some_iff.mp hrun
      exact (step_names hstep).trans (ih hrest)

theorem run_append {start final : System} {first second : List Event} :
    run start (first ++ second) = some final ↔
      ∃ middle, run start first = some middle ∧ run middle second = some final := by
  rw [run, List.foldlM_append]
  exact Option.bind_eq_some_iff

theorem run_concat {start final : System} {events : List Event} {event : Event} :
    run start (events ++ [event]) = some final ↔
      ∃ middle, run start events = some middle ∧ middle.step event = some final := by
  rw [run_append]
  refine exists_congr fun middle => and_congr_right fun _ => ?_
  simp [run]

end System

/-! ## Whole runs -/

namespace Accounted

variable {system next : System} {events : List Event}

theorem of_idle (haccounted : Accounted system events) {event : Event}
    (hids : allocatedIds [event] = [])
    (hreturned : returnedIds [event] = [] ∨
      ∃ number earlier, returnedIds [event] = [number] ∧
        allocatedIds events = earlier ++ [number] ∧ (returnedIds events).Sublist earlier)
    (hnames : system.names ⊆ next.names) (hidle : next.allocation = none) :
    Accounted next (events ++ [event]) where
  allocated := by
    rw [allocatedIds_append, hids, List.append_nil]
    exact haccounted.allocated
  returned := by
    rw [allocatedIds_append, returnedIds_append, hids, List.append_nil]
    rcases hreturned with hnone | ⟨number, earlier, hone, hlast, hsublist⟩
    · rw [hnone, List.append_nil]
      exact haccounted.returned
    · rw [hone, hlast]
      exact hsublist.append (List.Sublist.refl _)
  bounded := by
    rw [allocatedIds_append, hids, List.append_nil]
    intro id hid
    obtain ⟨hpositive, hbound, hname⟩ := haccounted.bounded id hid
    exact ⟨hpositive, hbound, hnames hname⟩
  attempt := by
    intro allocation hallocation
    rw [hidle] at hallocation
    cases hallocation

/-- What holds of a run whose last step allocates nothing, once its attempt is accounted for. -/
theorem keep (haccounted : Accounted system events) {event : Event}
    (hids : allocatedIds [event] = [] ∧ returnedIds [event] = [])
    (hnames : system.names ⊆ next.names)
    (hattempt : ∀ allocation, next.allocation = some allocation →
      ∃ old, Attempt next (events ++ [event]) allocation old) :
    Accounted next (events ++ [event]) where
  allocated := by
    rw [allocatedIds_append, hids.1, List.append_nil]
    exact haccounted.allocated
  returned := by
    rw [allocatedIds_append, returnedIds_append, hids.1, hids.2, List.append_nil, List.append_nil]
    exact haccounted.returned
  bounded := by
    rw [allocatedIds_append, hids.1, List.append_nil]
    intro id hid
    obtain ⟨hpositive, hbound, hname⟩ := haccounted.bounded id hid
    exact ⟨hpositive, hbound, hnames hname⟩
  attempt := hattempt

theorem step_others (haccounted : Accounted system events) {event : Event}
    (hothers : event.byOthers) (hstep : system.step event = some next) :
    Accounted next (events ++ [event]) := by
  obtain ⟨hallocated, hreturned, _⟩ := ids_of_byOthers hothers
  refine haccounted.keep ⟨hallocated, hreturned⟩ (System.step_names hstep) ?_
  intro allocation hallocation
  obtain ⟨_, _, _, hsame⟩ := System.step_others_names hothers hstep
  rcases hsame with ⟨hsame, hcells, hretired⟩ | hwatched
  · rw [hsame] at hallocation
    obtain ⟨old, hattempt⟩ := haccounted.attempt allocation hallocation
    exact ⟨old, hattempt.others hothers hstep (.inl ⟨rfl, hcells, hretired⟩)⟩
  · rw [hwatched] at hallocation
    obtain ⟨before, hbefore, rfl⟩ := Option.map_eq_some_iff.mp hallocation
    obtain ⟨old, hattempt⟩ := haccounted.attempt before hbefore
    exact ⟨old, hattempt.others hothers hstep (.inr rfl)⟩

theorem step_begin (haccounted : Accounted system events)
    (hnext : next = { system with
      allocation := some ⟨1, 1, .listingCells (.begin system.cells)⟩ }) :
    Accounted next (events ++ [.begin]) := by
  subst hnext
  refine haccounted.keep ⟨rfl, rfl⟩ (Finset.Subset.refl _) ?_
  intro allocation hallocation
  cases hallocation
  refine ⟨_, Attempt.listing le_rfl ⟨le_rfl, by simp [allocationAttempts]⟩ rfl ?_ ?_ ?_⟩
  · simpa [allocatedIds, returnedIds] using haccounted.returned
  · intro id hid
    rw [allocatedIds_append] at hid
    simp only [allocatedIds, List.filterMap_cons, List.filterMap_nil, List.append_nil] at hid
    exact (haccounted.bounded id hid).2.2
  · exact ⟨events, [], rfl, by simp, rfl⟩

theorem step_taken (haccounted : Accounted system events) {allocation : Allocation} {number : Nat}
    {old : Finset Name} (hattempt : Attempt system events allocation old)
    (hphase : allocation.phase = .creating number)
    (hlistings : allocation.listings < allocationAttempts)
    (hnext : next = { system with
      allocation :=
        some ⟨number + 1, allocation.listings + 1, .listingCells (.begin system.cells)⟩ }) :
    Accounted next (events ++ [.taken]) := by
  subst hnext
  refine haccounted.keep ⟨rfl, rfl⟩ (Finset.Subset.refl _) ?_
  intro again hagain
  cases hagain
  refine ⟨_, Attempt.listing (by simp) ?_ rfl ?_ ?_ ?_⟩
  · exact ⟨by simp, hlistings⟩
  · simpa [allocatedIds, returnedIds] using haccounted.returned
  · intro id hid
    rw [allocatedIds_append] at hid
    simp only [allocatedIds, List.filterMap_cons, List.filterMap_nil, List.append_nil] at hid
    exact (haccounted.bounded id hid).2.2
  · obtain ⟨before, since, rfl, hbegin, hcount⟩ := hattempt.own
    refine ⟨before, since ++ [.taken], by simp, by simpa using hbegin, ?_⟩
    have hone := hattempt.listings.1
    rw [List.countP_append, hcount]
    simp only [Allocation.steps, hphase, List.countP_cons, List.countP_nil, Event.byOthers]
    simp only [Bool.not_false, if_true]
    omega

theorem step_allocated (haccounted : Accounted system events) {allocation : Allocation}
    {number : Nat} {old : Finset Name} (hattempt : Attempt system events allocation old)
    (hphase : allocation.phase = .creating number)
    (hnext : next = { system with
      cells := insert (cellName number) system.cells
      allocation := some { allocation with phase := .created number } }) :
    Accounted next (events ++ [.allocated number]) := by
  obtain ⟨_, habove⟩ := hattempt.fresh hphase
  have hlast : ∀ id ∈ allocatedIds events, id < number := by
    intro id hid
    obtain ⟨hpositive, hbound, _⟩ := haccounted.bounded id hid
    exact habove id hid hpositive hbound
  have hbounds : 1 ≤ number ∧ number ≤ maxCellNumber := by
    have hwatches := hattempt.watches
    rwa [hphase] at hwatches
  have hids : allocatedIds (events ++ [.allocated number]) = allocatedIds events ++ [number] := by
    simp [allocatedIds]
  have hreturned : returnedIds (events ++ [.allocated number]) = returnedIds events := by
    simp [returnedIds]
  have hnames : next.names = insert (cellName number) system.names := by
    rw [hnext, System.names, System.names, Finset.insert_union]
  constructor
  · rw [hids, List.pairwise_append]
    refine ⟨haccounted.allocated, List.pairwise_singleton _ _, ?_⟩
    intro id hid other hother
    rw [List.mem_singleton] at hother
    exact hother ▸ hlast id hid
  · rw [hids, hreturned]
    exact haccounted.returned.trans (List.sublist_append_left _ _)
  · intro id hid
    rw [hids, List.mem_append, List.mem_singleton] at hid
    rw [hnames]
    rcases hid with hold | rfl
    · obtain ⟨hpositive, hbound, hname⟩ := haccounted.bounded id hold
      exact ⟨hpositive, hbound, Finset.mem_insert_of_mem hname⟩
    · exact ⟨hbounds.1, hbounds.2, Finset.mem_insert_self _ _⟩
  · intro made hmade
    rw [hnext] at hmade
    cases hmade
    refine ⟨old, hattempt.lowest, hattempt.listings, hbounds, ?_, ?_, ?_, ?_, ?_⟩
    · intro name hname other hother
      have hcovered := hattempt.covered name hname other hother
      rw [hphase] at hcovered
      exact hcovered
    · intro name hname
      rw [sinceListing_concat rfl]
      rw [hnames, Finset.mem_insert] at hname
      rcases hname with rfl | hold
      · exact .inr (.inr ⟨number, rfl, rfl⟩)
      · rcases hattempt.known name hold with hold | hmake | ⟨created, hcreated, _⟩
        · exact .inl hold
        · exact .inr (.inl (List.mem_append_left _ hmake))
        · rw [hphase] at hcreated
          cases hcreated
    · obtain ⟨earlier, hearlier, hsublist, hall⟩ := hattempt.ids
      rw [hphase, List.append_nil] at hall
      refine ⟨earlier, hearlier, ?_, ?_⟩
      · rw [hreturned]
        exact hsublist
      · rw [hids, hall]
    · obtain ⟨before, since, rfl, hbegin, hcount⟩ := hattempt.own
      refine ⟨before, since ++ [.allocated number], by simp, by simpa using hbegin, ?_⟩
      rw [List.countP_append, hcount]
      simp only [Allocation.steps, hphase, List.countP_cons, List.countP_nil, Event.byOthers]
      simp only [Bool.not_false, if_true]
    · intro created hcreated
      cases hcreated
      exact ⟨events, [], rfl, by simp⟩

theorem step (haccounted : Accounted system events) {event : Event}
    (hstep : system.step event = some next) : Accounted next (events ++ [event]) := by
  cases hothers : event.byOthers with
  | true => exact haccounted.step_others hothers hstep
  | false =>
      have hnames := System.step_names hstep
      rcases System.step_own hothers hstep with ⟨rfl, _, hnext⟩ | ⟨allocation, hrunning, hallocate⟩
      · exact haccounted.step_begin hnext
      obtain ⟨old, hattempt⟩ := haccounted.attempt allocation hrunning
      rcases System.allocate_cases hallocate with
        ⟨listing, reported, rfl, hphase, hreports, rfl⟩ | ⟨inCells, rfl, hphase, rfl⟩ |
        ⟨inCells, listing, reported, number, rfl, hphase, hreports, hnumber, rfl⟩ |
        ⟨number, rfl, hphase, hlistings, hnext⟩ | ⟨number, rfl, hphase, hnext⟩ |
        ⟨number, rfl, hphase, rfl⟩ | ⟨hids, hreturned, rfl⟩
      · -- everything in `cells` throughout is reported, so its number is passed
        refine haccounted.keep ⟨rfl, rfl⟩ hnames ?_
        intro again hagain
        cases hagain
        refine ⟨old, hattempt.advance rfl rfl ⟨rfl, rfl⟩ (by simp [hphase]) (by simp) trivial ?_ ?_⟩
        · intro name _ number hnumber hcovered
          rw [hphase] at hcovered
          rcases hcovered with hthroughout | hmoved
          · exact .inl (le_largest (hreports.1 hthroughout) hnumber)
          · exact .inr hmoved
        · simp [Allocation.steps, hphase]
      · refine haccounted.keep ⟨rfl, rfl⟩ hnames ?_
        intro again hagain
        cases hagain
        refine ⟨old, hattempt.advance rfl rfl ⟨rfl, rfl⟩ (by simp [hphase]) (by simp)
          (Finset.Subset.refl _) ?_ ?_⟩
        · intro name _ number _ hcovered
          rw [hphase] at hcovered
          exact hcovered
        · simp [Allocation.steps, hphase]
      · obtain ⟨hlowest, hinCells, hinRetired, hbound⟩ := nextCellNumber_eq_some hnumber
        have hpositive : 1 ≤ number := hattempt.lowest.trans hlowest
        refine haccounted.keep ⟨rfl, rfl⟩ hnames ?_
        intro again hagain
        cases hagain
        refine ⟨old, hattempt.advance rfl rfl ⟨rfl, rfl⟩ (by simp [hphase]) (by simp)
          ⟨hpositive, hbound⟩ ?_ ?_⟩
        · intro name _ other hother hcovered
          rw [hphase] at hcovered
          rcases hcovered with hpassed | hthroughout
          · exact hpassed.trans_lt hinCells
          · exact (le_largest (hreports.1 hthroughout) hother).trans_lt hinRetired
        · simp [Allocation.steps, hphase]
      · exact haccounted.step_taken hattempt hphase hlistings hnext
      · exact haccounted.step_allocated hattempt hphase hnext
      · obtain ⟨earlier, _, hsublist, hall⟩ := hattempt.ids
        rw [hphase] at hall
        exact haccounted.of_idle rfl (.inr ⟨number, earlier, rfl, hall, hsublist⟩) hnames rfl
      · exact haccounted.of_idle hids (.inl hreturned) hnames rfl

theorem run {cells retired : Finset Name}
    (hrun : System.run (.start cells retired) events = some system) : Accounted system events := by
  induction events using List.reverseRecOn generalizing system with
  | nil =>
      cases hrun
      refine ⟨List.Pairwise.nil, List.Sublist.refl _, ?_, ?_⟩
      · intro id hid
        cases hid
      · intro allocation hallocation
        cases hallocation
  | append_singleton events event ih =>
      obtain ⟨middle, hmiddle, hstep⟩ := System.run_concat.mp hrun
      exact (ih hmiddle).step hstep

end Accounted

/-- A name comes to stand in both directories only where a directory is made under a retired
name. -/
theorem System.step_both {system next : System} {event : Event}
    (hstep : system.step event = some next) {name : Name} (hcells : name ∈ next.cells)
    (hretired : name ∈ next.retired) :
    name ∈ system.cells ∧ name ∈ system.retired ∨ event = .make name ∨
      ∃ number, event = .allocated number ∧ name = cellName number ∧ name ∈ system.retired ∧
        ∃ allocation, system.allocation = some allocation ∧
        allocation.phase = .creating number := by
  cases hothers : event.byOthers with
  | true =>
      rcases System.step_others hothers hstep with ⟨hsame, hkept, _⟩ |
        ⟨made, rfl, hmade, hkept, _⟩ | ⟨moved, _, herased, hinserted, _⟩
      · exact .inl ⟨hsame ▸ hcells, hkept ▸ hretired⟩
      · rw [hmade, Finset.mem_insert] at hcells
        rcases hcells with rfl | hold
        · exact .inr (.inl rfl)
        · exact .inl ⟨hold, hkept ▸ hretired⟩
      · rw [herased, Finset.mem_erase] at hcells
        rw [hinserted, Finset.mem_insert] at hretired
        rcases hretired with rfl | hold
        · exact absurd rfl hcells.1
        · exact .inl ⟨hcells.2, hold⟩
  | false =>
      rcases System.step_own hothers hstep with ⟨_, _, rfl⟩ | ⟨allocation, hrunning, hallocate⟩
      · exact .inl ⟨hcells, hretired⟩
      · rcases System.allocate_cases hallocate with ⟨_, _, _, _, _, rfl⟩ | ⟨_, _, _, rfl⟩ |
          ⟨_, _, _, _, _, _, _, _, rfl⟩ | ⟨_, _, _, _, rfl⟩ | ⟨number, rfl, hphase, rfl⟩ |
          ⟨_, _, _, rfl⟩ | ⟨_, _, rfl⟩
        · exact .inl ⟨hcells, hretired⟩
        · exact .inl ⟨hcells, hretired⟩
        · exact .inl ⟨hcells, hretired⟩
        · exact .inl ⟨hcells, hretired⟩
        · rcases Finset.mem_insert.mp hcells with rfl | hold
          · exact .inr (.inr ⟨number, rfl, rfl, hretired, allocation, hrunning, hphase⟩)
          · exact .inl ⟨hold, hretired⟩
        · exact .inl ⟨hcells, hretired⟩
        · exact .inl ⟨hcells, hretired⟩

/-- An allocated ID is above every ID there was when its attempt began to list, so only a directory
another call makes during that attempt can already carry it. -/
theorem allocated_ids_are_fresh (cells retired : Finset Name) (events : List Event)
    (system : System) (hrun : System.run (.start cells retired) events = some system) :
    (∀ number next, system.step (.allocated number) = some next →
      1 ≤ number ∧ number ≤ maxCellNumber ∧
        (∀ name ∈ system.names, listedCellNumber name = some number →
          .make name ∈ sinceListing events) ∧
        ∀ id ∈ allocatedIds events, id < number) ∧
    (∀ number next, system.step (.returned number) = some next →
      ∃ before since, events = before ++ .allocated number :: since ∧
        ∀ event ∈ since, event.byOthers) ∧
    (returnedIds events).Pairwise (· < ·) ∧
    (∀ before since earlier, events = before ++ since →
      System.run (.start cells retired) before = some earlier → earlier.names ⊆ system.names) ∧
    (∀ event next, system.step event = some next → ∀ name ∈ next.cells, name ∈ next.retired →
      name ∈ system.cells ∧ name ∈ system.retired ∨ event = .make name ∨
        .make name ∈ sinceListing events) ∧
    ∀ allocation, system.allocation = some allocation →
      allocation.listings ≤ allocationAttempts ∧
        ∃ before since, events = before ++ .begin :: since ∧ .begin ∉ since ∧
          since.countP (fun event => !event.byOthers) ≤ 4 * allocationAttempts := by
  have haccounted := Accounted.run hrun
  have hfresh : ∀ allocation number, system.allocation = some allocation →
      allocation.phase = .creating number → 1 ≤ number ∧ number ≤ maxCellNumber ∧
        (∀ name ∈ system.names, listedCellNumber name = some number →
          .make name ∈ sinceListing events) ∧ ∀ id ∈ allocatedIds events, id < number := by
    intro allocation number hallocation hphase
    obtain ⟨old, hattempt⟩ := haccounted.attempt allocation hallocation
    obtain ⟨hnames, hids⟩ := hattempt.fresh hphase
    have hwatches := hattempt.watches
    rw [hphase] at hwatches
    refine ⟨hwatches.1, hwatches.2, hnames, ?_⟩
    intro id hid
    obtain ⟨hpositive, hbound, _⟩ := haccounted.bounded id hid
    exact hids id hid hpositive hbound
  refine ⟨?_, ?_, haccounted.allocated.sublist haccounted.returned, ?_, ?_, ?_⟩
  · intro number next hstep
    obtain ⟨allocation, hallocation, hallocate⟩ := Option.bind_eq_some_iff.mp hstep
    simp only [System.allocate] at hallocate
    split at hallocate
    next chosen hphase =>
      split at hallocate
      next hmake => exact hmake.1 ▸ hfresh allocation chosen hallocation hphase
      next => cases hallocate
    next => cases hallocate
  · intro number next hstep
    obtain ⟨allocation, hallocation, hallocate⟩ := Option.bind_eq_some_iff.mp hstep
    obtain ⟨old, hattempt⟩ := haccounted.attempt allocation hallocation
    simp only [System.allocate] at hallocate
    split at hallocate
    next hphase => exact hattempt.last number hphase
    next => cases hallocate
  · intro before since earlier hevents hearlier
    subst hevents
    obtain ⟨middle, hmiddle, hrest⟩ := System.run_append.mp hrun
    cases hearlier.symm.trans hmiddle
    exact System.run_names hrest
  · intro event next hstep name hcells hretired
    rcases System.step_both hstep hcells hretired with hboth | hmake |
      ⟨number, _, rfl, hheld, allocation, hallocation, hphase⟩
    · exact .inl hboth
    · exact .inr (.inl hmake)
    · obtain ⟨hpositive, hbound, hnames, _⟩ := hfresh allocation number hallocation hphase
      exact .inr (.inr (hnames _ (Finset.mem_union_right _ hheld)
        (listedCellNumber_cellName hpositive hbound)))
  · intro allocation hallocation
    obtain ⟨old, hattempt⟩ := haccounted.attempt allocation hallocation
    obtain ⟨before, since, hevents, hbegin, hcount⟩ := hattempt.own
    refine ⟨hattempt.listings.2, before, since, hevents, hbegin, ?_⟩
    have hbound := hattempt.listings
    rw [hcount, Allocation.steps]
    simp only [allocationAttempts] at hbound ⊢
    split <;> omega

/-- A cell is made and retired while another is allocated, which then takes its number. -/
def overlappedRun : List Event :=
  [.begin, .listedCells ∅, .listRetired, .listedRetired ∅, .make (cellName 1), .check (cellName 1),
    .move (cellName 1)]

theorem allocated_ids_are_fresh_overlapped :
    ∃ system, System.run (.start ∅ ∅) overlappedRun = some system ∧
      (∀ number next, system.step (.allocated number) = some next →
        1 ≤ number ∧ number ≤ maxCellNumber) := by
  obtain ⟨system, hrun⟩ := Option.isSome_iff_exists.mp
    (by decide +kernel : (System.run (.start ∅ ∅) overlappedRun).isSome)
  refine ⟨system, hrun, ?_⟩
  intro number next hstep
  obtain ⟨hpositive, hbound, _⟩ :=
    (allocated_ids_are_fresh ∅ ∅ overlappedRun system hrun).1 number next hstep
  exact ⟨hpositive, hbound⟩

/-- The ID `cell-1` names a retired cell and is returned all the same. -/
theorem retired_id_is_allocated_again :
    ∃ system final, System.run (.start ∅ ∅) overlappedRun = some system ∧
      cellName 1 ∈ system.retired ∧
      System.run system [.allocated 1, .returned 1] = some final ∧
      cellName 1 ∈ final.cells ∧ cellName 1 ∈ final.retired := by
  refine ⟨⟨∅, {cellName 1}, some ⟨1, 1, .creating 1⟩, []⟩,
    ⟨{cellName 1}, {cellName 1}, none, []⟩, ?_, ?_, ?_, ?_, ?_⟩ <;> decide +kernel

end Plasmosome.Instance
