import Plasmosome.Foundation.TransactionLog
import Plasmosome.Journal.Identity

/-!
# A history is a transaction log

The records a history admits are exactly the events of a transaction log whose
prepares pass the identity check. What the history then says is read off the log.
-/

namespace Plasmosome.Journal

open Foundation Backend

/-- The event of a record as an event of a transaction. -/
def JournalEvent.transactionEvent : JournalEvent → TransactionEvent Prepare Decision
  | .prepare payload => .prepare payload
  | .commit => .decide .commit
  | .abort => .decide .abort
  | .finish => .finish

def CellJournalRecord.entry (record : CellJournalRecord) : TransactionEntry Prepare Decision :=
  ⟨record.generation.toNat, record.event.transactionEvent⟩

/-- The attachments after one change of a generation. -/
def installChange (generation : Nat) (attachments : PluginId → Option Attachment)
    (change : Change) : PluginId → Option Attachment :=
  Function.update attachments change.plugin
    (change.replacement.map (Attachment.mk (UInt64.ofNat generation)))

/-- The attachments after a decided transaction: only a commit changes them. -/
def install (attachments : PluginId → Option Attachment)
    (transaction : (Prepare × Decision) × Nat) : PluginId → Option Attachment :=
  match transaction with
  | ((prepare, .commit), generation) =>
      prepare.changes.foldl (installChange generation) attachments
  | ((_, .abort), _) => attachments

/-- The attachments of a log: its decided transactions installed in generation order. -/
def attachments (log : TransactionLog Prepare Decision) : PluginId → Option Attachment :=
  log.decided.foldl install fun _ => none

/-- The unfinished transaction of a log. -/
def unfinished (log : TransactionLog Prepare Decision) : Option OpenTransaction :=
  log.tail.map fun (prepare, decision) => ⟨UInt64.ofNat log.current, prepare, decision⟩

theorem unfinished_of_tail {log : TransactionLog Prepare Decision} {generation : UInt64}
    {prepare : Prepare} {decision : Option Decision} (htail : log.tail = some (prepare, decision))
    (hgeneration : generation.toNat = log.current) :
    unfinished log = some ⟨generation, prepare, decision⟩ := by
  rw [unfinished, htail, ← hgeneration, Option.map_some, UInt64.ofNat_toNat]

open CellHistory

/-- What a history says of the log it was built from. -/
structure Represents (log : TransactionLog Prepare Decision) (history : CellHistory) : Prop where
  generation : history.lastGeneration.toNat = log.prepared
  opened : history.openTransaction = unfinished log
  committed : ∀ plugin : PluginId, history.committed[plugin]? = attachments log plugin

theorem foldl_publishChange {generation : UInt64} {committed : Committed}
    {before : PluginId → Option Attachment} (changes : List Change)
    (hcommitted : ∀ plugin : PluginId, committed[plugin]? = before plugin) (plugin : PluginId) :
    (changes.foldl (publishChange generation) committed)[plugin]? =
      changes.foldl (installChange generation.toNat) before plugin := by
  induction changes generalizing committed before with
  | nil => exact hcommitted plugin
  | cons change rest ih =>
      apply ih
      intro other
      rw [publishChange_getElem?, installChange, UInt64.ofNat_toNat, Function.update_apply]
      by_cases hsame : change.plugin = other
      · simp [hsame]
      · simp [hsame, Ne.symm hsame, hcommitted]

theorem attachments_concat {log next : TransactionLog Prepare Decision}
    {last : List ((Prepare × Decision) × Nat)} (hdecided : next.decided = log.decided ++ last) :
    attachments next = last.foldl install (attachments log) := by
  rw [attachments, hdecided, List.foldl_append]
  rfl

namespace Represents

variable {log : TransactionLog Prepare Decision} {history : CellHistory}

theorem new (cell : CellId) : Represents .empty (CellHistory.new cell) := by
  refine ⟨rfl, rfl, ?_⟩
  intro plugin
  simp [CellHistory.new, attachments, TransactionLog.empty, TransactionLog.decided]

theorem tail_eq_none (hrepresents : Represents log history)
    (hclosed : history.openTransaction = none) : log.tail = none := by
  rw [hrepresents.opened, unfinished, Option.map_eq_none_iff] at hclosed
  exact hclosed

/-- The open transaction is the tail, under the current generation. -/
theorem tail_eq_some (hrepresents : Represents log history) {generation : UInt64}
    {prepare : Prepare} {decision : Option Decision}
    (hopen : history.openTransaction = some ⟨generation, prepare, decision⟩) :
    log.tail = some (prepare, decision) ∧ generation.toNat = log.current := by
  rw [hrepresents.opened, unfinished, Option.map_eq_some_iff] at hopen
  obtain ⟨⟨_, _⟩, htail, hopened⟩ := hopen
  cases hopened
  refine ⟨htail, ?_⟩
  -- The generation fits, as it is the history's last one.
  have hlast : history.lastGeneration.toNat = log.current := by
    rw [hrepresents.generation, TransactionLog.prepared, htail]
    rfl
  exact toNat_ofNat_of_fits (hlast ▸ history.lastGeneration.toNat_lt)

/-- An accepted record is the next event of the log, and applying it gives the longer log. -/
theorem of_accepts (hrepresents : Represents log history) (hsound : history.Sound)
    {record : CellJournalRecord} (haccepts : history.Accepts record) :
    ∃ longer next, log.Extends record.entry longer ∧ history.apply record = .ok next ∧
      Represents longer next := by
  cases haccepts with
  | prepare generation prepare hclosed hnext hidentities =>
      have htail := hrepresents.tail_eq_none hclosed
      have hgeneration : generation.toNat = log.current := by
        rw [checkedAdd_eq_some.mp hnext, hrepresents.generation, TransactionLog.prepared, htail]
        rfl
      have hextends : log.Extends ⟨generation.toNat, .prepare prepare⟩
          ⟨log.finished, some (prepare, none)⟩ := hgeneration ▸ .prepare prepare htail
      have hsame : attachments ⟨log.finished, some (prepare, none)⟩ = attachments log := by
        rw [attachments_concat hextends.decided_eq, htail]
        rfl
      refine ⟨_, { history with
        lastGeneration := generation
        identities := prepare.changes.foldl introduceChange history.identities
        openTransaction := some ⟨generation, prepare, none⟩ }, hextends, rfl, ?_, ?_, ?_⟩
      · exact hgeneration
      · exact Eq.symm (unfinished_of_tail rfl hgeneration)
      · intro plugin
        rw [hsame]
        exact hrepresents.committed plugin
  | commit generation prepare hopen =>
      obtain ⟨htail, hgeneration⟩ := hrepresents.tail_eq_some hopen
      have hextends : log.Extends ⟨generation.toNat, .decide .commit⟩
          ⟨log.finished, some (prepare, some .commit)⟩ := hgeneration ▸ .decide prepare .commit htail
      have hinstalled : attachments ⟨log.finished, some (prepare, some .commit)⟩ =
          prepare.changes.foldl (installChange generation.toNat) (attachments log) := by
        rw [attachments_concat hextends.decided_eq, htail, hgeneration]
        rfl
      obtain ⟨identities, happly, -⟩ := apply_commit hsound hopen
      refine ⟨_, _, hextends, happly, ?_, ?_, ?_⟩
      · rw [hextends.prepared_eq]
        exact hrepresents.generation
      · exact Eq.symm (unfinished_of_tail rfl hgeneration)
      · intro plugin
        rw [hinstalled]
        exact foldl_publishChange prepare.changes hrepresents.committed plugin
  | abort generation prepare hopen =>
      obtain ⟨htail, hgeneration⟩ := hrepresents.tail_eq_some hopen
      have hextends : log.Extends ⟨generation.toNat, .decide .abort⟩
          ⟨log.finished, some (prepare, some .abort)⟩ := hgeneration ▸ .decide prepare .abort htail
      have hsame : attachments ⟨log.finished, some (prepare, some .abort)⟩ = attachments log := by
        rw [attachments_concat hextends.decided_eq, htail]
        rfl
      refine ⟨_, { history with
        identities := history.identities.map fun _ identity => abandon identity
        openTransaction := some ⟨generation, prepare, some .abort⟩ }, hextends, ?_, ?_, ?_, ?_⟩
      · simp only [apply, hopen]
      · rw [hextends.prepared_eq]
        exact hrepresents.generation
      · exact Eq.symm (unfinished_of_tail rfl hgeneration)
      · intro plugin
        rw [hsame]
        exact hrepresents.committed plugin
  | finish generation prepare decision hopen =>
      obtain ⟨htail, hgeneration⟩ := hrepresents.tail_eq_some hopen
      have hextends : log.Extends ⟨generation.toNat, .finish⟩
          ⟨log.finished ++ [(prepare, decision)], none⟩ :=
        hgeneration ▸ .finish prepare decision htail
      have hsame : attachments ⟨log.finished ++ [(prepare, decision)], none⟩ =
          attachments log := by
        rw [attachments_concat hextends.decided_eq, htail]
        rfl
      refine ⟨_, { history with openTransaction := none }, hextends, rfl, ?_, rfl, ?_⟩
      · rw [hextends.prepared_eq]
        exact hrepresents.generation
      · intro plugin
        rw [hsame]
        exact hrepresents.committed plugin

/-- The next event of the log is a record the history accepts, if its identities are free. -/
theorem accepts_of_extends (hrepresents : Represents log history)
    {record : CellJournalRecord} {longer : TransactionLog Prepare Decision}
    (hextends : log.Extends record.entry longer)
    (hidentities : ∀ prepare, record.event = .prepare prepare →
      history.checkIdentities prepare = .ok ()) :
    record.generation ≠ 0 ∧ history.Accepts record := by
  obtain ⟨generation, event⟩ := record
  have hpositive : 0 < log.current := Nat.succ_pos _
  generalize hentry : CellJournalRecord.entry ⟨generation, event⟩ = entry at hextends
  have hzero : entry.generation = log.current → generation ≠ 0 := by
    rintro hcurrent rfl
    rw [← hentry] at hcurrent
    change 0 = log.current at hcurrent
    omega
  cases hextends with
  | prepare prepare htail =>
      refine ⟨hzero rfl, ?_⟩
      obtain ⟨hgeneration, hevent⟩ := TransactionEntry.mk.inj hentry
      cases event with
      | prepare stated =>
          cases hevent
          refine .prepare generation prepare ?_ ?_ (hidentities prepare rfl)
          · rw [hrepresents.opened, unfinished, htail]
            rfl
          · apply checkedAdd_eq_some.mpr
            rw [hrepresents.generation, TransactionLog.prepared, htail]
            exact hgeneration
      | commit | abort | finish => cases hevent
  | decide prepare decision htail =>
      refine ⟨hzero rfl, ?_⟩
      obtain ⟨hgeneration, hevent⟩ := TransactionEntry.mk.inj hentry
      have hopen := hrepresents.opened.trans (unfinished_of_tail htail hgeneration)
      cases event with
      | commit => exact .commit generation prepare hopen
      | abort => exact .abort generation prepare hopen
      | prepare stated => cases hevent
      | finish => cases hevent
  | finish prepare decision htail =>
      refine ⟨hzero rfl, ?_⟩
      obtain ⟨hgeneration, hevent⟩ := TransactionEntry.mk.inj hentry
      cases event with
      | finish =>
          exact .finish generation prepare decision
            (hrepresents.opened.trans (unfinished_of_tail htail hgeneration))
      | prepare stated => cases hevent
      | commit => cases hevent
      | abort => cases hevent

/-- Admitting succeeds on exactly the next events of the log whose identities are free. -/
theorem admitRecord (hrepresents : Represents log history) (hsound : history.Sound)
    (record : CellJournalRecord) :
    ((history.admitRecord record).1 = .ok (.ok ()) → ∃ longer, log.Extends record.entry longer ∧
        Represents longer (history.admitRecord record).2 ∧
        ∀ prepare, record.event = .prepare prepare →
          history.checkIdentities prepare = .ok ()) ∧
    ∀ longer, log.Extends record.entry longer →
      (∀ prepare, record.event = .prepare prepare → history.checkIdentities prepare = .ok ()) →
      (history.admitRecord record).1 = .ok (.ok ()) ∧
        Represents longer (history.admitRecord record).2 := by
  constructor
  · intro hadmitted
    cases hcheck : history.check record with
    | error error =>
        rw [CellHistory.admitRecord, hcheck] at hadmitted
        cases hadmitted
    | ok _ =>
        have haccepts := (check_eq_ok.mp hcheck).2
        obtain ⟨longer, next, hextends, happly, hnext⟩ := hrepresents.of_accepts hsound haccepts
        have hstep : history.admitRecord record = (.ok (.ok ()), next) := by
          rw [CellHistory.admitRecord, hcheck]
          simp only [happly]
        rw [hstep]
        refine ⟨longer, hextends, hnext, ?_⟩
        intro prepare hevent
        cases haccepts with
        | prepare _ _ _ _ hidentities =>
            cases hevent
            exact hidentities
        | commit | abort | finish => cases hevent
  · intro longer hextends hidentities
    obtain ⟨hgeneration, haccepts⟩ := hrepresents.accepts_of_extends hextends hidentities
    obtain ⟨other, next, hother, happly, hnext⟩ := hrepresents.of_accepts hsound haccepts
    have hstep : history.admitRecord record = (.ok (.ok ()), next) := by
      rw [CellHistory.admitRecord, check_eq_ok.mpr ⟨hgeneration, haccepts⟩]
      simp only [happly]
    rw [hstep, hextends.unique hother]
    exact ⟨rfl, hnext⟩

end Represents

/-! ## Every list of records -/

/-- Every record of the list was admitted. -/
def Admitted (cell : CellId) (records : List CellJournalRecord) : Prop :=
  ∀ reply ∈ machine.outputs (new cell) records, reply = .ok (.ok ())

/-- Every prepare of the list passes the identity check in the history before it. -/
def ChecksIdentities (cell : CellId) (records : List CellJournalRecord) : Prop :=
  ∀ before generation prepare after, records = before ++ ⟨generation, .prepare prepare⟩ :: after →
    (machine.final (new cell) before).checkIdentities prepare = .ok ()

variable {cell : CellId} {records : List CellJournalRecord}

theorem admitted_concat {record : CellJournalRecord} :
    Admitted cell (records ++ [record]) ↔ Admitted cell records ∧
      ((machine.final (new cell) records).admitRecord record).1 = .ok (.ok ()) := by
  unfold Admitted
  rw [Machine.outputs_append, List.forall_mem_append]
  refine and_congr_right fun _ => ?_
  exact List.forall_mem_singleton

theorem checksIdentities_concat {record : CellJournalRecord} :
    ChecksIdentities cell (records ++ [record]) ↔ ChecksIdentities cell records ∧
      ∀ prepare, record.event = .prepare prepare →
        (machine.final (new cell) records).checkIdentities prepare = .ok () := by
  constructor
  · intro hchecks
    refine ⟨?_, ?_⟩
    · rintro before generation prepare after rfl
      exact hchecks before generation prepare (after ++ [record]) (by simp)
    · intro prepare hevent
      obtain ⟨generation, event⟩ := record
      cases hevent
      exact hchecks records generation prepare [] rfl
  · rintro ⟨hchecks, hlast⟩ before generation prepare after hsplit
    cases after using List.reverseRecOn with
    | nil =>
        obtain ⟨rfl, hrecord⟩ := List.append_inj' hsplit rfl
        cases hrecord
        exact hlast prepare rfl
    | append_singleton after last =>
        have hsame : records ++ [record] =
            (before ++ ⟨generation, .prepare prepare⟩ :: after) ++ [last] := by
          simpa using hsplit
        obtain ⟨hrecords, -⟩ := List.append_inj' hsame rfl
        exact hchecks before generation prepare after hrecords

/-- Admitted records are the entries of a log, whose prepares pass the identity check. -/
theorem Admitted.exists_log (hadmitted : Admitted cell records) :
    ChecksIdentities cell records ∧ ∃ log, records.map CellJournalRecord.entry = log.entries ∧
      Represents log (machine.final (new cell) records) := by
  induction records using List.reverseRecOn with
  | nil =>
      refine ⟨?_, .empty, rfl, .new cell⟩
      intro before generation prepare after hsplit
      simp at hsplit
  | append_singleton records record ih =>
      obtain ⟨hbefore, hlast⟩ := admitted_concat.mp hadmitted
      obtain ⟨hchecks, log, hentries, hrepresents⟩ := ih hbefore
      obtain ⟨longer, hextends, hnext, hidentities⟩ :=
        (hrepresents.admitRecord (final_sound cell records) record).1 hlast
      refine ⟨checksIdentities_concat.mpr ⟨hchecks, hidentities⟩, longer, ?_, ?_⟩
      · rw [List.map_append, hentries, hextends.entries_eq]
        rfl
      · rw [Machine.final_concat]
        exact hnext

/-- Entries of a log whose prepares pass the identity check are admitted. -/
theorem admitted_of_log {log : TransactionLog Prepare Decision}
    (hentries : records.map CellJournalRecord.entry = log.entries)
    (hchecks : ChecksIdentities cell records) :
    Admitted cell records ∧ Represents log (machine.final (new cell) records) := by
  induction records using List.reverseRecOn generalizing log with
  | nil =>
      cases TransactionLog.eq_empty_of_entries hentries.symm
      exact ⟨nofun, .new cell⟩
  | append_singleton records record ih =>
      obtain ⟨hbefore, hlast⟩ := checksIdentities_concat.mp hchecks
      rw [List.map_append, List.map_singleton] at hentries
      obtain ⟨shorter, hshorter, hextends⟩ := TransactionLog.exists_extends hentries.symm
      obtain ⟨hadmitted, hrepresents⟩ := ih hshorter.symm hbefore
      obtain ⟨hreply, hnext⟩ :=
        (hrepresents.admitRecord (final_sound cell records) record).2 log hextends hlast
      refine ⟨admitted_concat.mpr ⟨hadmitted, hreply⟩, ?_⟩
      rw [Machine.final_concat]
      exact hnext

/-- A history admits exactly the transaction logs whose prepares pass the identity check, and
is then what the log says. A refused record changes nothing. -/
theorem admitted_iff_transaction_log (cell : CellId) (records : List CellJournalRecord) :
    let history := machine.final (new cell) records
    (Admitted cell records ↔ ChecksIdentities cell records ∧
      ∃ log : TransactionLog Prepare Decision,
        records.map CellJournalRecord.entry = log.entries) ∧
    (Admitted cell records → ∀ log : TransactionLog Prepare Decision,
      records.map CellJournalRecord.entry = log.entries →
        (∀ plugin : PluginId, history.committed[plugin]? = attachments log plugin) ∧
        history.lastGeneration.toNat = log.prepared ∧
        history.openTransaction = unfinished log) ∧
    ∀ (reached : CellHistory) record error,
      (reached.admitRecord record).1 = .ok (.error error) →
        (reached.admitRecord record).2 = reached := by
  intro history
  refine ⟨⟨?_, ?_⟩, ?_, ?_⟩
  · intro hadmitted
    obtain ⟨hchecks, log, hentries, -⟩ := hadmitted.exists_log
    exact ⟨hchecks, log, hentries⟩
  · rintro ⟨hchecks, log, hentries⟩
    exact (admitted_of_log hentries hchecks).1
  · intro hadmitted log hentries
    obtain ⟨-, hrepresents⟩ := admitted_of_log hentries hadmitted.exists_log.1
    exact ⟨hrepresents.committed, hrepresents.generation, hrepresents.opened⟩
  · intro reached record error hrefused
    unfold admitRecord at hrefused ⊢
    split
    · rfl
    next hcheck =>
      rw [hcheck] at hrefused
      cases happly : reached.apply record with
      | error panic => rfl
      | ok next =>
          simp only [happly] at hrefused
          cases hrefused

end Plasmosome.Journal
