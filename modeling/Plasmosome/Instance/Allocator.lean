import Plasmosome.Foundation.Checks
import Plasmosome.Instance.CellId

/-!
# Allocating cell IDs

The instance root as the names in `cells` and in `retired`. One allocation runs
at a time: it lists `cells`, then `retired`, and makes the directory of the next
number, again and again while that name is taken. Calls that make or retire a
cell step between any two of its steps.
-/

namespace Plasmosome.Instance

open Foundation

abbrev Name := List UInt8

def allocationAttempts : Nat := 64

/-- A listing under way: the names present since it began, and those it may report. -/
structure Listing where
  throughout : Finset Name
  possible : Finset Name
deriving DecidableEq

namespace Listing

def begin (names : Finset Name) : Listing := ⟨names, names⟩

def watch (listing : Listing) (names : Finset Name) : Listing :=
  ⟨listing.throughout ∩ names, listing.possible ∪ names⟩

/-- What a listing may return: everything present throughout, and nothing that never was. -/
def Reports (listing : Listing) (names : Finset Name) : Prop :=
  listing.throughout ⊆ names ∧ names ⊆ listing.possible

instance (listing : Listing) (names : Finset Name) : Decidable (listing.Reports names) :=
  inferInstanceAs (Decidable (_ ∧ _))

end Listing

inductive Phase where
  | listingCells (listing : Listing)
  | listedCells (inCells : Nat)
  | listingRetired (inCells : Nat) (listing : Listing)
  | creating (next : Nat)
  | created (next : Nat)
deriving DecidableEq

/-- The allocation that holds the mutex. -/
structure Allocation where
  lowest : Nat
  listings : Nat
  phase : Phase
deriving DecidableEq

/-- The instance root, the allocation that runs, and the retirements between check and rename. -/
structure System where
  cells : Finset Name
  retired : Finset Name
  allocation : Option Allocation
  checked : List Name
deriving DecidableEq

inductive Event where
  | begin
  | listedCells (reported : Finset Name)
  | listRetired
  | listedRetired (reported : Finset Name)
  | taken
  | allocated (number : Nat)
  | returned (number : Nat)
  | failed
  | make (name : Name)
  | check (name : Name)
  | move (name : Name)
  | abandon (name : Name)
deriving DecidableEq

/-- A step of some other call than the allocation that runs. -/
def Event.byOthers : Event → Bool
  | .make _ | .check _ | .move _ | .abandon _ => true
  | _ => false

/-- An event with which an attempt begins to list. -/
def Event.lists : Event → Bool
  | .begin | .taken => true
  | _ => false

def largest (names : Finset Name) : Nat := names.sup fun name => (listedCellNumber name).getD 0

/-- One more than the largest number listed, and no less than `lowest`. -/
def nextCellNumber (lowest inCells inRetired : Nat) : Option Nat :=
  let next := max lowest (max inCells inRetired + 1)
  if maxCellNumber < next then none else some next

namespace System

def start (cells retired : Finset Name) : System := ⟨cells, retired, none, []⟩

def names (system : System) : Finset Name := system.cells ∪ system.retired

/-- The system after other calls changed a directory: a listing under way watches the change. -/
def watched (system : System) : System :=
  { system with
    allocation := system.allocation.map fun allocation =>
      { allocation with
        phase :=
          match allocation.phase with
          | .listingCells listing => .listingCells (listing.watch system.cells)
          | .listingRetired inCells listing =>
              .listingRetired inCells (listing.watch system.retired)
          | phase => phase } }

def setPhase (system : System) (allocation : Allocation) (phase : Phase) : System :=
  { system with allocation := some { allocation with phase } }

/-- A step of the allocation, which fails where its phase does not allow the event. -/
def allocate (system : System) (allocation : Allocation) : Event → Option System
  | .listedCells reported =>
      match allocation.phase with
      | .listingCells listing =>
          if listing.Reports reported then
            some (system.setPhase allocation (.listedCells (largest reported)))
          else none
      | _ => none
  | .listRetired =>
      match allocation.phase with
      | .listedCells inCells =>
          some (system.setPhase allocation (.listingRetired inCells (.begin system.retired)))
      | _ => none
  | .listedRetired reported =>
      match allocation.phase with
      | .listingRetired inCells listing =>
          if listing.Reports reported then
            match nextCellNumber allocation.lowest inCells (largest reported) with
            | some next => some (system.setPhase allocation (.creating next))
            | none => some { system with allocation := none }
          else none
      | _ => none
  | .taken =>
      match allocation.phase with
      | .creating next =>
          if cellName next ∈ system.cells then
            if allocation.listings < allocationAttempts then
              some
                { system with
                  allocation :=
                    some ⟨next + 1, allocation.listings + 1, .listingCells (.begin system.cells)⟩ }
            else some { system with allocation := none }
          else none
      | _ => none
  | .allocated number =>
      match allocation.phase with
      | .creating next =>
          if next = number ∧ cellName next ∉ system.cells then
            some
              { system with
                cells := insert (cellName next) system.cells
                allocation := some { allocation with phase := .created next } }
          else none
      | _ => none
  | .returned number =>
      if allocation.phase = .created number then some { system with allocation := none } else none
  | .failed => some { system with allocation := none }
  | _ => none

def step (system : System) : Event → Option System
  | .make name =>
      if name ∈ system.cells then some system
      else some { system with cells := insert name system.cells }.watched
  | .check name =>
      if name ∈ system.cells then some { system with checked := name :: system.checked }
      else some system
  | .move name =>
      if name ∈ system.checked then
        let system := { system with checked := system.checked.erase name }
        if name ∈ system.cells ∧ name ∉ system.retired then
          some
            { system with
              cells := system.cells.erase name, retired := insert name system.retired }.watched
        else some system
      else none
  | .abandon name =>
      if name ∈ system.checked then some { system with checked := system.checked.erase name }
      else none
  | .begin =>
      match system.allocation with
      | none => some { system with allocation := some ⟨1, 1, .listingCells (.begin system.cells)⟩ }
      | some _ => none
  | event => system.allocation.bind fun allocation => system.allocate allocation event

def run (system : System) (events : List Event) : Option System := events.foldlM step system

end System

/-! ## What the events say -/

/-- The events since the last attempt began to list. -/
def sinceListing (events : List Event) : List Event :=
  (events.reverse.takeWhile fun event => !event.lists).reverse

def allocatedIds (events : List Event) : List Nat :=
  events.filterMap fun event =>
    match event with
    | .allocated number => some number
    | _ => none

def returnedIds (events : List Event) : List Nat :=
  events.filterMap fun event =>
    match event with
    | .returned number => some number
    | _ => none

theorem sinceListing_concat {events : List Event} {event : Event} (hlists : event.lists = false) :
    sinceListing (events ++ [event]) = sinceListing events ++ [event] := by
  simp [sinceListing, hlists]

theorem le_largest {names : Finset Name} {name : Name} {number : Nat} (hname : name ∈ names)
    (hnumber : listedCellNumber name = some number) : number ≤ largest names := by
  have hle := Finset.le_sup (f := fun name => (listedCellNumber name).getD 0) hname
  simpa [largest, hnumber] using hle

theorem nextCellNumber_eq_some {lowest inCells inRetired next : Nat}
    (hnext : nextCellNumber lowest inCells inRetired = some next) :
    lowest ≤ next ∧ inCells < next ∧ inRetired < next ∧ next ≤ maxCellNumber := by
  simp only [nextCellNumber] at hnext
  split at hnext
  next => cases hnext
  next hbound =>
    cases hnext
    omega

end Plasmosome.Instance
