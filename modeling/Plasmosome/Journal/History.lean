import Plasmosome.Foundation.Checked
import Plasmosome.Foundation.Checks
import Plasmosome.Foundation.Machine
import Plasmosome.Foundation.OrderedMap
import Plasmosome.Journal.Record

/-!
# The accepted history of a cell

A history admits records one by one. Each is checked against the open
transaction, the generation counter and the addresses recorded so far, and only
then applied.
-/

namespace Plasmosome.Journal

open Foundation Backend

inductive Decision where
  | commit
  | abort
deriving DecidableEq, Repr

/-- A prepare that has not finished, with its decision if one has been recorded. -/
structure OpenTransaction where
  generation : UInt64
  prepare : Prepare
  decision : Option Decision
deriving DecidableEq

/-- A committed replacement and the generation that published it. -/
structure Attachment where
  generation : UInt64
  replacement : Replacement
deriving DecidableEq

inductive State where
  | standing
  | introduced
  | retired
deriving DecidableEq, Repr

/-- What an address was recorded for, and how far it has come. -/
structure Identity where
  plugin : PluginId
  effect : RecordedEffect
  state : State
deriving DecidableEq

abbrev Identities := OrderedMap Handle Identity

abbrev Committed := OrderedMap PluginId Attachment

structure CellHistory where
  cell : CellId
  lastGeneration : UInt64
  openTransaction : Option OpenTransaction
  committed : Committed
  identities : Identities

/-- An `expect` that found nothing. -/
inductive Panic where
  | recordedIdentity
  | checkedPrepare
deriving DecidableEq, Repr

namespace CellHistory

/-- An empty history, at generation zero. -/
def new (cell : CellId) : CellHistory := ⟨cell, 0, none, ∅, ∅⟩

/-- The next generation number, or `none` after exhaustion. -/
def nextGeneration (history : CellHistory) : Option UInt64 :=
  checkedAdd history.lastGeneration 1

/-! ## Checking a record -/

def invalid (detail : String) : JournalRuleError := ⟨.invalidEffect, detail⟩

/-- Checks the address of one effect, if it holds one, and adds it to those seen. -/
def checkEffect (history : CellHistory) (plugin : PluginId) (seen : OrderedSet Handle)
    (effect : RecordedEffect) : Except JournalRuleError (OrderedSet Handle) :=
  match effect.address with
  | none => .ok seen
  | some address =>
      if seen.contains address then .error (invalid "address repeated in prepare")
      else
        match history.identities[address]? with
        | none => .ok (seen.insert address)
        | some identity =>
            if identity.effect ≠ effect then
              .error (invalid "address has a changed payload")
            else if identity.plugin ≠ plugin ∨ identity.state ≠ .standing then
              .error (invalid "address is retired or belongs to another holding")
            else .ok (seen.insert address)

def checkChange (history : CellHistory) (seen : OrderedSet Handle) (change : Change) :
    Except JournalRuleError (OrderedSet Handle) :=
  match change.replacement with
  | none =>
      if history.committed.contains change.plugin then .ok seen
      else .error (invalid "removal without a committed attachment")
  | some replacement => replacement.effects.foldlM (history.checkEffect change.plugin) seen

def checkIdentities (history : CellHistory) (prepare : Prepare) :
    Except JournalRuleError Unit := do
  let _ ← prepare.changes.foldlM history.checkChange ∅
  .ok ()

/-- The generation or event-order rule a record breaks, if it breaks one. -/
def refusal (history : CellHistory) (record : CellJournalRecord) : Option JournalRuleError :=
  if record.generation = 0 then some ⟨.generationZero, "generation zero"⟩
  else
    match history.openTransaction, record.event with
    | none, .prepare _ =>
        if history.nextGeneration ≠ some record.generation then
          some ⟨.generationOrder, "prepare is not the next generation"⟩
        else none
    | none, _ => some ⟨.eventOrder, "terminal event without prepare"⟩
    | some _, .prepare _ => some ⟨.eventOrder, "prepare before finish"⟩
    | some opened, event =>
        if opened.generation ≠ record.generation then
          some ⟨.generationOrder, "terminal event has another generation"⟩
        else if event = .finish ∧ opened.decision = none then
          some ⟨.eventOrder, "finish without a decision"⟩
        else if event ≠ .finish ∧ opened.decision ≠ none then
          some ⟨.eventOrder, "decision already recorded"⟩
        else none

/-- Checks an individually validated record against this history. -/
def check (history : CellHistory) (record : CellJournalRecord) : Except JournalRuleError Unit :=
  match history.refusal record with
  | some error => .error error
  | none =>
      match record.event with
      | .prepare prepare => history.checkIdentities prepare
      | .commit | .abort | .finish => .ok ()

/-! ## Applying a checked record -/

/-- Records the address of an effect as introduced, unless it is recorded already. -/
def introduce (plugin : PluginId) (identities : Identities) (effect : RecordedEffect) :
    Identities :=
  match effect.address with
  | none => identities
  | some address => identities.insertIfNew address ⟨plugin, effect, .introduced⟩

def introduceChange (identities : Identities) (change : Change) : Identities :=
  change.effects.foldl (introduce change.plugin) identities

/-- Sets the state of an address that is recorded. -/
def setState (state : State) (identities : Identities) (address : Handle) :
    Except Panic Identities :=
  match identities[address]? with
  | none => .error .recordedIdentity
  | some identity => .ok (identities.insert address { identity with state })

/-- The attachments after a change of one generation. -/
def publishChange (generation : UInt64) (committed : Committed) (change : Change) : Committed :=
  match change.replacement with
  | some replacement => committed.insert change.plugin ⟨generation, replacement⟩
  | none => committed.erase change.plugin

/-- Retires the addresses of the attachment a change replaces, but for those it retains. -/
def retireDropped (retained : OrderedSet Handle) (old : Option Attachment)
    (identities : Identities) : Except Panic Identities :=
  match old with
  | none => .ok identities
  | some old =>
      old.replacement.addresses.foldlM (fun identities address =>
        if !retained.contains address then setState .retired identities address
        else pure identities) identities

/-- Commits one change: what its plugin no longer holds retires, what it holds now stands. -/
def commitChange (generation : UInt64) (holdings : Identities × Committed) (change : Change) :
    Except Panic (Identities × Committed) := do
  let (identities, committed) := holdings
  let retained : OrderedSet Handle := .ofList change.addresses
  let identities ← retireDropped retained committed[change.plugin]? identities
  let identities ← retained.toList.foldlM (setState .standing) identities
  pure (identities, publishChange generation committed change)

/-- An aborted introduction is never used again. -/
def abandon (identity : Identity) : Identity :=
  if identity.state = .introduced then { identity with state := .retired } else identity

def apply (history : CellHistory) (record : CellJournalRecord) : Except Panic CellHistory :=
  match record.event with
  | .prepare prepare =>
      .ok { history with
        lastGeneration := record.generation
        identities := prepare.changes.foldl introduceChange history.identities
        openTransaction := some ⟨record.generation, prepare, none⟩ }
  | .commit =>
      match history.openTransaction with
      | none => .error .checkedPrepare
      | some opened => do
          let (identities, committed) ←
            opened.prepare.changes.foldlM (commitChange record.generation)
              (history.identities, history.committed)
          pure { history with
            identities
            committed
            openTransaction := some { opened with decision := some .commit } }
  | .abort =>
      match history.openTransaction with
      | none => .error .checkedPrepare
      | some opened =>
          .ok { history with
            identities := history.identities.map fun _ identity => abandon identity
            openTransaction := some { opened with decision := some .abort } }
  | .finish => .ok { history with openTransaction := none }

/-- Admits a record. The outer error is a panic; what a history is after one is not read. -/
def admitRecord (history : CellHistory) (record : CellJournalRecord) :
    Except Panic (Except JournalRuleError Unit) × CellHistory :=
  match history.check record with
  | .error error => (.ok (.error error), history)
  | .ok () =>
      match history.apply record with
      | .error panic => (.error panic, history)
      | .ok next => (.ok (.ok ()), next)

/-- A history driven by the records that arrive. -/
def machine : Machine CellHistory CellJournalRecord (Except Panic (Except JournalRuleError Unit)) :=
  ⟨admitRecord⟩

end CellHistory

end Plasmosome.Journal
