import Mathlib

/-!
# Transaction logs

A transaction log is a sequence of numbered transactions, each prepared, decided
and finished, where only the last may be cut short. Its entries are the events of
its transactions in order; one event more gives at most one log.
-/

namespace Foundation

inductive TransactionEvent (Payload Decision : Type) where
  | prepare (payload : Payload)
  | decide (decision : Decision)
  | finish
deriving DecidableEq

structure TransactionEntry (Payload Decision : Type) where
  generation : Nat
  event : TransactionEvent Payload Decision
deriving DecidableEq

/-- The finished transactions, and the unfinished one with its decision if it has one. -/
structure TransactionLog (Payload Decision : Type) where
  finished : List (Payload × Decision)
  tail : Option (Payload × Option Decision)
deriving DecidableEq

namespace TransactionLog

variable {Payload Decision : Type}

def empty : TransactionLog Payload Decision := ⟨[], none⟩

/-- The three events of a transaction that finished. -/
def finishedEntries (transaction : (Payload × Decision) × Nat) :
    List (TransactionEntry Payload Decision) :=
  let ((payload, decision), generation) := transaction
  [⟨generation, .prepare payload⟩, ⟨generation, .decide decision⟩, ⟨generation, .finish⟩]

/-- The one or two events of a transaction cut short. -/
def tailEntries (generation : Nat) (transaction : Payload × Option Decision) :
    List (TransactionEntry Payload Decision) :=
  ⟨generation, .prepare transaction.1⟩ ::
    transaction.2.toList.map fun decision => ⟨generation, .decide decision⟩

/-- The generation the next prepare gets, or the unfinished one has. Generations count from one. -/
def current (log : TransactionLog Payload Decision) : Nat := log.finished.length + 1

/-- Every event of the log, in order. -/
def entries (log : TransactionLog Payload Decision) : List (TransactionEntry Payload Decision) :=
  (log.finished.zipIdx 1).flatMap finishedEntries ++
    log.tail.toList.flatMap (tailEntries log.current)

/-- How many transactions were prepared. -/
def prepared (log : TransactionLog Payload Decision) : Nat :=
  log.finished.length + log.tail.toList.length

/-- The decided transactions with their generations, in generation order. -/
def decided (log : TransactionLog Payload Decision) : List ((Payload × Decision) × Nat) :=
  log.finished.zipIdx 1 ++ log.tail.toList.flatMap fun (payload, decision) =>
    decision.toList.map fun decision => ((payload, decision), log.current)

/-- Only the empty log has no event. -/
theorem eq_empty_of_entries {log : TransactionLog Payload Decision} (hentries : log.entries = []) :
    log = empty := by
  obtain ⟨finished, tail⟩ := log
  cases tail with
  | some transaction => simp [entries, tailEntries] at hentries
  | none =>
      cases finished with
      | nil => rfl
      | cons first rest => simp [entries, finishedEntries] at hentries

/-! ## One event more -/

/-- What the log is after one more event, when that event can come next. -/
inductive Extends (log : TransactionLog Payload Decision) :
    TransactionEntry Payload Decision → TransactionLog Payload Decision → Prop where
  | prepare (payload : Payload) (htail : log.tail = none) :
      Extends log ⟨log.current, .prepare payload⟩ ⟨log.finished, some (payload, none)⟩
  | decide (payload : Payload) (decision : Decision) (htail : log.tail = some (payload, none)) :
      Extends log ⟨log.current, .decide decision⟩
        ⟨log.finished, some (payload, some decision)⟩
  | finish (payload : Payload) (decision : Decision)
      (htail : log.tail = some (payload, some decision)) :
      Extends log ⟨log.current, .finish⟩ ⟨log.finished ++ [(payload, decision)], none⟩

theorem zipIdx_concat (finished : List (Payload × Decision)) (last : Payload × Decision) :
    (finished ++ [last]).zipIdx 1 = finished.zipIdx 1 ++ [(last, finished.length + 1)] := by
  rw [List.zipIdx_append, List.zipIdx_singleton, Nat.add_comm]

namespace Extends

variable {log next : TransactionLog Payload Decision} {entry : TransactionEntry Payload Decision}

theorem entries_eq (hextends : log.Extends entry next) : next.entries = log.entries ++ [entry] := by
  cases hextends with
  | prepare payload htail => simp [entries, current, htail, tailEntries]
  | decide payload decision htail => simp [entries, current, htail, tailEntries]
  | finish payload decision htail =>
      simp [entries, current, htail, tailEntries, zipIdx_concat, finishedEntries]

/-- A prepare is one more transaction, and no other event is. -/
theorem prepared_eq (hextends : log.Extends entry next) :
    next.prepared = log.prepared +
      match entry.event with
      | .prepare _ => 1
      | _ => 0 := by
  cases hextends with
  | prepare payload htail => simp [prepared, htail]
  | decide payload decision htail => simp [prepared, htail]
  | finish payload decision htail => simp [prepared, htail]

/-- A decision is one more decided transaction, and no other event is. -/
theorem decided_eq (hextends : log.Extends entry next) :
    next.decided = log.decided ++
      match log.tail, entry.event with
      | some (payload, _), .decide decision => [((payload, decision), log.current)]
      | _, _ => [] := by
  cases hextends with
  | prepare payload htail => simp [decided, htail]
  | decide payload decision htail => simp [decided, current, htail]
  | finish payload decision htail => simp [decided, current, htail, zipIdx_concat]

/-- An event has at most one outcome. -/
theorem unique {other : TransactionLog Payload Decision} (hextends : log.Extends entry next)
    (hother : log.Extends entry other) : next = other := by
  cases hextends with
  | prepare payload htail =>
      cases hother
      rfl
  | decide payload decision htail =>
      cases hother with
      | decide again _ hagain =>
          rw [htail] at hagain
          cases hagain
          rfl
  | finish payload decision htail =>
      cases hother with
      | finish again decisionAgain hagain =>
          rw [htail] at hagain
          cases hagain
          rfl

end Extends

/-- The last event of a log extends a log that lacks just that event. -/
theorem exists_extends {log : TransactionLog Payload Decision}
    {before : List (TransactionEntry Payload Decision)}
    {entry : TransactionEntry Payload Decision} (hentries : log.entries = before ++ [entry]) :
    ∃ shorter : TransactionLog Payload Decision,
      shorter.entries = before ∧ shorter.Extends entry log := by
  obtain ⟨shorter, last, hextends⟩ :
      ∃ (shorter : TransactionLog Payload Decision) (last : _), shorter.Extends last log := by
    obtain ⟨finished, tail⟩ := log
    cases tail with
    | some transaction =>
        obtain ⟨payload, decision⟩ := transaction
        cases decision with
        | none => exact ⟨⟨finished, none⟩, _, .prepare payload rfl⟩
        | some decision =>
            exact ⟨⟨finished, some (payload, none)⟩, _, .decide payload decision rfl⟩
    | none =>
        cases finished using List.reverseRecOn with
        | nil => simp [entries] at hentries
        | append_singleton finished last =>
            obtain ⟨payload, decision⟩ := last
            exact ⟨⟨finished, some (payload, some decision)⟩, _, .finish payload decision rfl⟩
  have hsame := hextends.entries_eq.symm.trans hentries
  obtain ⟨hbefore, hlast⟩ := List.append_inj' hsame rfl
  cases hlast
  exact ⟨shorter, hbefore, hextends⟩

end TransactionLog

end Foundation
