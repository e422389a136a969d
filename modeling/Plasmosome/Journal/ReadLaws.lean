import Plasmosome.Foundation.Frames
import Plasmosome.Journal.ParseLaws
import Plasmosome.Journal.Read

/-!
# What a journal reads as

A journal whose every line is a record that the history admits reads as those records.
Otherwise the fault is at the first line that is not, and counts the records before it.
A journal cut short anywhere is read up to a record's end, or is told to be torn.
-/

namespace Plasmosome.Journal

open Backend Foundation
open Foundation.Frames
open Serde (Library newline)

/-! ## Admitting -/

/-- The history of admitted records is never left by a panic. -/
theorem CellHistory.extendBy_cases {cell : CellId} {records : List CellJournalRecord}
    (hadmitted : Admitted cell records) (record : CellJournalRecord) :
    (∃ refusal,
      (CellHistory.machine.final (.new cell) records).extendBy record = .ok (.error refusal) ∧
      ¬Admitted cell (records ++ [record])) ∨
    ((CellHistory.machine.final (.new cell) records).extendBy record =
        .ok (.ok (CellHistory.machine.final (.new cell) (records ++ [record]))) ∧
      Admitted cell (records ++ [record])) := by
  obtain ⟨-, log, -, hrepresents⟩ := hadmitted.exists_log
  have hsound := CellHistory.final_sound cell records
  have hfinal := Machine.final_concat CellHistory.machine (.new cell) records record
  rw [hfinal, admitted_concat]
  cases hcheck : (CellHistory.machine.final (.new cell) records).check record with
  | error refusal =>
      refine Or.inl ⟨refusal, ?_, ?_⟩
      · rw [extendBy, admitRecord, hcheck]
      · rintro ⟨-, hreply⟩
        rw [admitRecord, hcheck] at hreply
        cases hreply
  | ok _ =>
      obtain ⟨-, haccepts⟩ := check_eq_ok.mp hcheck
      obtain ⟨-, next, -, happly, -⟩ := hrepresents.of_accepts hsound haccepts
      have hstep : (CellHistory.machine.final (.new cell) records).admitRecord record =
          (.ok (.ok ()), next) := by
        rw [admitRecord, hcheck]
        simp only [happly]
      have hnext :
          (CellHistory.machine.step (CellHistory.machine.final (.new cell) records) record).2 =
          next := congrArg Prod.snd hstep
      refine Or.inr ⟨?_, hadmitted, ?_⟩
      · rw [extendBy, hstep, hnext]
      · rw [hstep]

/-! ## Lines -/

section Lines

variable {explain : Refused → String} {library : Library} {path : String} {cell : CellId}
  {line : Nat} {records : List CellJournalRecord} {history : CellHistory} {failure : Option String}

theorem takeWhile_of_free {content : List UInt8} (hcontent : newline ∉ content)
    (rest : List UInt8) : (content ++ newline :: rest).takeWhile (· ≠ newline) = content ∧
      (content ++ newline :: rest).dropWhile (· ≠ newline) = newline :: rest := by
  have hall : ∀ byte ∈ content, decide (byte ≠ newline) = true := by
    intro byte hbyte
    refine decide_eq_true ?_
    rintro rfl
    exact hcontent hbyte
  exact ⟨by rw [List.takeWhile_append_of_pos hall]; simp,
    by rw [List.dropWhile_append_of_pos hall]; simp⟩

theorem readUntil_line {content : List UInt8} (hcontent : newline ∉ content) (rest : List UInt8) :
    (Reader.mk (content ++ newline :: rest) failure).readUntil newline =
      (.ok (content ++ [newline]), ⟨rest, failure⟩) := by
  obtain ⟨htake, hdrop⟩ := takeWhile_of_free hcontent rest
  unfold Reader.readUntil
  simp only [htake, hdrop]

theorem takeWhile_rest {rest : List UInt8} (hrest : newline ∉ rest) :
    rest.takeWhile (· ≠ newline) = rest ∧ rest.dropWhile (· ≠ newline) = [] := by
  have hall : ∀ byte ∈ rest, decide (byte ≠ newline) = true := by
    intro byte hbyte
    refine decide_eq_true ?_
    rintro rfl
    exact hrest hbyte
  exact ⟨List.takeWhile_eq_self_iff.mpr hall, List.dropWhile_eq_nil_iff.mpr hall⟩

theorem readUntil_rest {rest : List UInt8} (hrest : newline ∉ rest) :
    (Reader.mk rest none).readUntil newline = (.ok rest, ⟨[], none⟩) := by
  obtain ⟨htake, hdrop⟩ := takeWhile_rest hrest
  unfold Reader.readUntil
  simp only [htake, hdrop]

theorem readUntil_failed {rest : List UInt8} (hrest : newline ∉ rest) (error : String) :
    (Reader.mk rest (some error)).readUntil newline = (.error error, ⟨[], some error⟩) := by
  obtain ⟨-, hdrop⟩ := takeWhile_rest hrest
  unfold Reader.readUntil
  simp only [hdrop]

theorem stripNewline_concat (content : List UInt8) :
    stripNewline (content ++ [newline]) = some content := by
  rw [stripNewline, if_pos (by simp), List.dropLast_concat]

/-- A line that is refused ends the reading. -/
theorem readRecords_refused {content : List UInt8} (hcontent : newline ∉ content)
    (rest : List UInt8)
    {refusal : JournalRuleError}
    (hline : admitLine explain library cell history content = .ok (.error refusal)) :
    readRecords explain library path cell line records history ⟨content ++ newline :: rest,
    failure⟩ =
      .ok (.error ⟨path, some line, records.length, refusal.kind, refusal.detail⟩) := by
  obtain ⟨byte, more, hbytes⟩ : ∃ byte more, content ++ [newline] = byte :: more :=
    List.exists_cons_of_ne_nil (by simp)
  have hread := @readUntil_line failure content hcontent rest
  have hstrip := stripNewline_concat content
  rw [hbytes] at hread hstrip
  rw [readRecords]
  split
  next heq =>
    rw [hread] at heq
    cases heq
  next heq =>
    rw [hread] at heq
    cases heq
  next heq =>
    rw [hread] at heq
    cases heq
    simp only [hstrip, hline]

/-- A line that is admitted gives the next record. -/
theorem readRecords_admitted {content : List UInt8} (hcontent : newline ∉ content)
    (rest : List UInt8) {record : CellJournalRecord} {next : CellHistory}
    (hline : admitLine explain library cell history content = .ok (.ok (record, next))) :
    readRecords explain library path cell line records history ⟨content ++ newline :: rest,
    failure⟩ =
      readRecords explain library path cell (line + 1) (records ++ [record]) next ⟨rest,
      failure⟩ := by
  obtain ⟨byte, more, hbytes⟩ : ∃ byte more, content ++ [newline] = byte :: more :=
    List.exists_cons_of_ne_nil (by simp)
  have hread := @readUntil_line failure content hcontent rest
  have hstrip := stripNewline_concat content
  rw [hbytes] at hread hstrip
  rw [readRecords]
  split
  next heq =>
    rw [hread] at heq
    cases heq
  next heq =>
    rw [hread] at heq
    cases heq
  next heq =>
    rw [hread] at heq
    cases heq
    simp only [hstrip, hline]

theorem readRecords_end :
    readRecords explain library path cell line records history ⟨[], none⟩ =
    .ok (.ok (records, history)) := by
  have hread := readUntil_rest (List.not_mem_nil)
  rw [readRecords]
  split
  next => rfl
  next heq =>
    rw [hread] at heq
    cases heq
  next heq =>
    rw [hread] at heq
    cases heq

theorem readRecords_torn {rest : List UInt8} (hrest : newline ∉ rest) (hne : rest ≠ []) :
    readRecords explain library path cell line records history ⟨rest, none⟩ =
      .ok (.error ⟨path, some line, records.length, .unparseable,
        "the last record has no final LF"⟩) := by
  have hread := readUntil_rest hrest
  have hstrip : stripNewline rest = none := by
    refine if_neg fun hlast => hrest ?_
    exact List.mem_of_getLast? hlast
  rw [readRecords]
  split
  next heq =>
    rw [hread] at heq
    cases heq
    exact absurd rfl hne
  next heq =>
    rw [hread] at heq
    cases heq
  next heq =>
    rw [hread] at heq
    cases heq
    simp only [hstrip]

theorem readRecords_failed {rest : List UInt8} (hrest : newline ∉ rest) (error : String) :
    readRecords explain library path cell line records history ⟨rest, some error⟩ =
      .ok (.error ⟨path, some line, records.length, .io, error⟩) := by
  have hread := readUntil_failed hrest error
  rw [readRecords]
  split
  next heq =>
    rw [hread] at heq
    cases heq
  next heq =>
    rw [hread] at heq
    cases heq
    rfl
  next heq =>
    rw [hread] at heq
    cases heq

/-! ## Whole journals -/

theorem admitted_of_append {first second : List CellJournalRecord}
    (hadmitted : Admitted cell (first ++ second)) : Admitted cell first := by
  intro reply hreply
  refine hadmitted reply ?_
  rw [Machine.outputs_append]
  exact List.mem_append_left _ hreply

/-- The lines are records that the history of the cell admits, one after the other. -/
inductive Spells (explain : Refused → String) (library : Library) (cell : CellId) :
    List (List UInt8) → List CellJournalRecord → Prop where
  | nil : Spells explain library cell [] []
  | concat {lines : List (List UInt8)} {records : List CellJournalRecord} {content : List UInt8}
      {record : CellJournalRecord} (hspells : Spells explain library cell lines records)
      (hparse : parseRecord explain library cell content = .ok record)
      (hadmitted : Admitted cell (records ++ [record])) :
      Spells explain library cell (lines ++ [content]) (records ++ [record])

theorem Spells.admitted {lines : List (List UInt8)}
    (hspells : Spells explain library cell lines records) :
    Admitted cell records := by
  cases hspells with
  | nil =>
      intro reply hreply
      cases hreply
  | concat _ _ hadmitted => exact hadmitted

theorem Spells.length_eq {lines : List (List UInt8)}
    (hspells : Spells explain library cell lines records) : lines.length = records.length := by
  induction hspells with
  | nil => rfl
  | concat _ _ _ ih => rw [List.length_append, List.length_append, ih, List.length_singleton,
      List.length_singleton]

/-- A line that the journal cannot go on with is refused, and nothing panics. -/
theorem admitLine_of_refused {lines : List (List UInt8)} {content : List UInt8}
    (hspells : Spells explain library cell lines records)
    (hrefused : ¬∃ record, Spells explain library cell (lines ++ [content]) (records ++ [record])) :
    ∃ refusal, admitLine explain library cell
    (CellHistory.machine.final (.new cell) records) content =
      .ok (.error refusal) := by
  cases hparse : parseRecord explain library cell content with
  | error refusal => exact ⟨refusal, by simp only [admitLine, hparse]⟩
  | ok record =>
      obtain ⟨refusal, hextend, -⟩ | ⟨-, hadmitted⟩ :=
        CellHistory.extendBy_cases hspells.admitted record
      · exact ⟨refusal, by simp only [admitLine, hparse, hextend]⟩
      · exact absurd ⟨record, hspells.concat hparse hadmitted⟩ hrefused

/-- The lines of admitted records are read past. -/
theorem readCellHistory_past {lines : List (List UInt8)} (hfree : Free newline lines)
    (hspells : Spells explain library cell lines records) (rest : List UInt8) :
    readCellHistory explain library path cell ⟨frames newline lines ++ rest, failure⟩ =
      readRecords explain library path cell (records.length + 1) records
        (CellHistory.machine.final (.new cell) records) ⟨rest, failure⟩ := by
  induction hspells generalizing rest with
  | nil => rfl
  | @concat lines records content record hspells hparse hadmitted ih =>
      obtain ⟨hlines, hcontent⟩ := free_append.mp hfree
      have hcontent : newline ∉ content := hcontent content List.mem_cons_self
      have hline : admitLine explain library cell
          (CellHistory.machine.final (.new cell) records) content =
          .ok (.ok (record, CellHistory.machine.final (.new cell) (records ++ [record]))) := by
        obtain ⟨_, -, hrefused⟩ | ⟨hextend, -⟩ := CellHistory.extendBy_cases hspells.admitted record
        · exact absurd hadmitted hrefused
        · simp only [admitLine, hparse, hextend]
      have hbytes : frames newline (lines ++ [content]) ++ rest =
          frames newline lines ++ (content ++ newline :: rest) := by simp
      rw [hbytes, ih hlines, readRecords_admitted hcontent rest hline, List.length_append,
        List.length_singleton]

/-- Lines are all records of the journal, or there is a first that is not. -/
theorem exists_spells (lines : List (List UInt8)) :
    (∃ records, Spells explain library cell lines records) ∨
    ∃ first content after records, lines = first ++ content :: after ∧
      Spells explain library cell first records ∧
      ¬∃ record, Spells explain library cell (first ++ [content]) (records ++ [record]) := by
  induction lines using List.reverseRecOn with
  | nil => exact Or.inl ⟨[], .nil⟩
  | append_singleton lines content ih =>
      obtain ⟨records, hspells⟩ | ⟨first, bad, after, records, rfl, hspells, hrefused⟩ := ih
      · by_cases hnext : ∃ record, Spells explain library cell (lines ++ [content])
          (records ++ [record])
        · obtain ⟨record, hnext⟩ := hnext
          exact Or.inl ⟨_, hnext⟩
        · exact Or.inr ⟨lines, content, [], records, rfl, hspells, hnext⟩
      · exact Or.inr ⟨first, bad, after ++ [content], records, by simp, hspells, hrefused⟩

end Lines

/-- Where a reading stops and why: at a line that the journal cannot go on with, in a line that
does not end, or where the bytes cannot be read. -/
inductive Stops (explain : Refused → String) (library : Library) (cell : CellId) (reader : Reader)
    (records : List CellJournalRecord) : JournalRuleError → Prop where
  | refused {refusal : JournalRuleError} {first after : List (List UInt8)}
      {content rest : List UInt8}
      (hbytes : reader.bytes = frames newline (first ++ content :: after) ++ rest)
      (hcontent : newline ∉ content) (hspells : Spells explain library cell first records)
      (hrefused : ¬∃ record, Spells explain library cell (first ++ [content]) (records ++ [record]))
      (hline : admitLine explain library cell (CellHistory.machine.final (.new cell) records)
        content = .ok (.error refusal)) :
      Stops explain library cell reader records refusal
  | torn {first : List (List UInt8)} {rest : List UInt8}
      (hbytes : reader.bytes = frames newline first ++ rest) (hrest : newline ∉ rest)
      (hne : rest ≠ [])
      (hend : reader.failure = none) (hspells : Spells explain library cell first records) :
      Stops explain library cell reader records ⟨.unparseable, "the last record has no final LF"⟩
  | failed {first : List (List UInt8)} {rest : List UInt8} {failure : String}
      (hbytes : reader.bytes = frames newline first ++ rest) (hrest : newline ∉ rest)
      (hend : reader.failure = some failure) (hspells : Spells explain library cell first records) :
      Stops explain library cell reader records ⟨.io, failure⟩

/-- A journal reads as the records its lines spell, when they are all of it. Any other reading ends
in a fault that counts the records before it and names the line after them. Nothing panics. -/
theorem read_cell_history_cases (explain : Refused → String) (library : Library) (path : String)
    (cell : CellId) (reader : Reader) :
    (∃ lines records, reader = ⟨frames newline lines, none⟩ ∧ Free newline lines ∧
      Spells explain library cell lines records ∧
      readCellHistory explain library path cell reader =
        .ok (.ok (records, CellHistory.machine.final (.new cell) records))) ∨
    ∃ records refusal, Stops explain library cell reader records refusal ∧
      readCellHistory explain library path cell reader =
        .ok (.error ⟨path, some (records.length + 1), records.length, refusal.kind,
          refusal.detail⟩) := by
  obtain ⟨bytes, failure⟩ := reader
  obtain ⟨lines, rest, hfree, hrest, rfl⟩ := exists_frames newline bytes
  obtain ⟨records, hspells⟩ | ⟨first, content, after, records, rfl, hspells, hrefused⟩ :=
    @exists_spells explain library cell lines
  · have hpast :=
      @readCellHistory_past explain library path cell records failure lines hfree hspells rest
    cases failure with
    | some failure =>
        rw [readRecords_failed hrest] at hpast
        exact Or.inr ⟨records, ⟨.io, failure⟩, .failed rfl hrest rfl hspells, hpast⟩
    | none =>
        by_cases hempty : rest = []
        · subst hempty
          rw [readRecords_end] at hpast
          exact Or.inl ⟨lines, records, by rw [List.append_nil], hfree, hspells, hpast⟩
        · rw [readRecords_torn hrest hempty] at hpast
          exact Or.inr ⟨records, _, .torn rfl hrest hempty rfl hspells, hpast⟩
  · obtain ⟨hfirst, hlater⟩ := free_append.mp hfree
    obtain ⟨hcontent, -⟩ := free_cons.mp hlater
    obtain ⟨refusal, hline⟩ := admitLine_of_refused hspells hrefused
    have hpast :=
      @readCellHistory_past explain library path cell records failure first hfirst hspells
      (content ++ newline :: (frames newline after ++ rest))
    rw [readRecords_refused hcontent _ hline] at hpast
    refine Or.inr ⟨records, refusal, .refused rfl hcontent hspells hrefused hline, ?_⟩
    rw [← hpast]
    simp

/-! ## Journals cut short -/

/-- The bytes of a journal, unless a record of it cannot be written. -/
def encodeRecords (library : Library) (records : List CellJournalRecord) : Option (List UInt8) :=
  (records.mapM (encodeRecord library)).map List.flatten

section Cut

variable {explain : Refused → String} {library : Library} {cell : CellId}

theorem Spells.append {before lines : List (List UInt8)} {old records : List CellJournalRecord}
    (hspells : Spells explain library cell before old)
    (hparsed : List.Forall₂ (fun line record => parseRecord explain library cell line = .ok record)
      lines records)
    (hadmitted : Admitted cell (old ++ records)) :
    Spells explain library cell (before ++ lines) (old ++ records) := by
  induction hparsed generalizing before old with
  | nil => simpa using hspells
  | @cons line record lines records hparse hrest ih =>
      have hsplit : old ++ record :: records = (old ++ [record]) ++ records := by simp
      rw [hsplit] at hadmitted ⊢
      have hnext := hspells.concat hparse (admitted_of_append hadmitted)
      have hall := ih hnext hadmitted
      rwa [List.append_assoc, List.singleton_append] at hall

theorem mapM_take {α β : Type} {f : α → Option β} {list : List α} {image : List β}
    (himage : list.mapM f = some image) (count : Nat) :
    (list.take count).mapM f = some (image.take count) := by
  induction list generalizing image count with
  | nil =>
      cases himage
      simp
  | cons a rest ih =>
      rw [List.mapM_cons] at himage
      obtain ⟨b, hb, himage⟩ := Option.bind_eq_some_iff.mp himage
      obtain ⟨others, hothers, himage⟩ := Option.bind_eq_some_iff.mp himage
      cases himage
      cases count with
      | zero => rfl
      | succ count =>
          rw [List.take_succ_cons, List.take_succ_cons, List.mapM_cons, hb, ih hothers]
          rfl

/-- The lines that records are written as. -/
theorem lines_of_encode (hlibrary : library.Documented) {records : List CellJournalRecord}
    (hobeys : ∀ record ∈ records, record.Obeys cell) {image : List (List UInt8)}
    (himage : records.mapM (encodeRecord library) = some image) :
    ∃ lines : List (List UInt8), image = lines.map (· ++ [newline]) ∧ Free newline lines ∧
      List.Forall₂ (fun line record => parseRecord explain library cell line = .ok record)
        lines records := by
  induction records generalizing image with
  | nil =>
      cases himage
      exact ⟨[], rfl, free_nil, .nil⟩
  | cons record rest ih =>
      rw [List.mapM_cons] at himage
      obtain ⟨bytes, hbytes, himage⟩ := Option.bind_eq_some_iff.mp himage
      obtain ⟨others, hothers, himage⟩ := Option.bind_eq_some_iff.mp himage
      cases himage
      obtain ⟨hrecord, hrest⟩ := List.forall_mem_cons.mp hobeys
      obtain ⟨value, hvalue, rfl⟩ := Option.map_eq_some_iff.mp hbytes
      obtain ⟨lines, rfl, hfree, hparsed⟩ := ih hrest hothers
      refine ⟨library.write value :: lines, rfl, ?_, .cons ?_ hparsed⟩
      · exact free_cons.mpr ⟨Serde.newline_not_mem_write value, hfree⟩
      · exact parseRecord_write hlibrary hrecord hvalue

end Cut

/-- However short a journal is cut, the records wholly before the cut are recognised. A cut after a
record reads as those records, and any other cut is a fault at the line it falls in. -/
theorem cut_journal_recognised {library : Library} (hlibrary : library.Documented)
    (explain : Refused → String) (path : String) {cell : CellId} {records : List CellJournalRecord}
    (hadmitted : Admitted cell records) (hobeys : ∀ record ∈ records, record.Obeys cell)
    {bytes cut : List UInt8} (hbytes : encodeRecords library records = some bytes)
    (hcut : cut <+: bytes) :
    let complete := cut.count newline
    readCellHistory explain library path cell ⟨cut, none⟩ =
      if encodeRecords library (records.take complete) = some cut then
        .ok (.ok (records.take complete,
          CellHistory.machine.final (.new cell) (records.take complete)))
      else .ok (.error ⟨path, some (complete + 1), complete, .unparseable,
        "the last record has no final LF"⟩) := by
  intro complete
  obtain ⟨image, himage, rfl⟩ := Option.map_eq_some_iff.mp hbytes
  obtain ⟨lines, rfl, hfree, hparsed⟩ :=
    @lines_of_encode explain library cell hlibrary records hobeys
    image himage
  have hframes : (lines.map (· ++ [newline])).flatten = frames newline lines := rfl
  rw [hframes] at hcut
  obtain ⟨first, part, rfl, hwhere⟩ := prefix_frames hcut
  -- the lines before the cut, and the unfinished one
  have hlines : first = lines.take first.length ∧ Free newline first ∧ newline ∉ part := by
    rcases hwhere with ⟨next, rest, rfl, hpart⟩ | ⟨rfl, rfl⟩
    · obtain ⟨hfirst, hnext⟩ := free_append.mp hfree
      refine ⟨by simp, hfirst, fun hmem => ?_⟩
      exact (free_cons.mp hnext).1 (hpart.subset hmem)
    · exact ⟨by simp, hfree, List.not_mem_nil⟩
  obtain ⟨hfirst, hfirstFree, hpart⟩ := hlines
  have hcomplete : complete = first.length := by
    change (frames newline first ++ part).count newline = first.length
    rw [List.count_append, count_frames hfirstFree, List.count_eq_zero_of_not_mem hpart,
      Nat.add_zero]
  have hadmittedFirst : Admitted cell (records.take first.length) := by
    rw [← List.take_append_drop first.length records] at hadmitted
    exact admitted_of_append hadmitted
  have hspells : Spells explain library cell first (records.take first.length) := by
    have htaken := List.forall₂_take first.length hparsed
    rw [← hfirst] at htaken
    exact Spells.nil.append htaken hadmittedFirst
  have hencode :
      encodeRecords library (records.take first.length) = some (frames newline first) := by
    rw [encodeRecords, mapM_take himage, ← List.map_take, ← hfirst]
    rfl
  have hlength : (records.take first.length).length = first.length := hspells.length_eq.symm
  have hread := @readCellHistory_past explain library path cell _ none first hfirstFree hspells part
  rw [hcomplete, hread, hencode, hlength]
  by_cases hempty : part = []
  · subst hempty
    rw [List.append_nil, if_pos rfl, readRecords_end]
  · have hother : some (frames newline first) ≠ some (frames newline first ++ part) := by
      intro hsame
      exact hempty (List.append_right_eq_self.mp (Option.some.inj hsame).symm)
    rw [if_neg hother, readRecords_torn hpart hempty, hlength]

/-- A journal of one transaction: the plugin is attached and the attachment committed. -/
def committedJournal : List CellJournalRecord := [firstAttachment, ⟨1, .commit⟩]

theorem committedJournal_obeys : ∀ record ∈ committedJournal, record.Obeys ⟨"cell"⟩ := by
  refine List.forall_mem_cons.mpr ⟨firstAttachment_obeys, List.forall_mem_singleton.mpr ?_⟩
  exact ⟨by decide, by rintro prepare ⟨⟩⟩

theorem committedJournal_admitted : Admitted ⟨"cell"⟩ committedJournal := by
  intro reply hreply
  rw [committedJournal, Machine.outputs_cons, Machine.outputs_cons, Machine.outputs_nil] at hreply
  rcases List.mem_cons.mp hreply with rfl | hlater
  · rfl
  · rw [List.mem_singleton.mp hlater]
    rfl

theorem cut_attachment_recognised :
    ∃ bytes, encodeRecords Serde.scanned committedJournal = some bytes ∧
    ∀ cut, cut <+: bytes → let complete := cut.count newline
      readCellHistory (fun _ => "") Serde.scanned "journal" ⟨"cell"⟩ ⟨cut, none⟩ =
        if encodeRecords Serde.scanned (committedJournal.take complete) = some cut then
          .ok (.ok (committedJournal.take complete,
            CellHistory.machine.final (.new ⟨"cell"⟩) (committedJournal.take complete)))
        else .ok (.error ⟨"journal", some (complete + 1), complete, .unparseable,
          "the last record has no final LF"⟩) := by
  obtain ⟨first, hfirst⟩ := firstAttachment_writes
  obtain ⟨second, hsecond⟩ : ∃ bytes, encodeRecord Serde.scanned ⟨1, .commit⟩ = some bytes :=
    ⟨_, rfl⟩
  have hbytes : encodeRecords Serde.scanned committedJournal = some (first ++ second) := by
    simp [encodeRecords, committedJournal, hfirst, hsecond]
  exact ⟨_, hbytes, fun cut hcut => cut_journal_recognised Serde.scanned_documented _ _
    committedJournal_admitted committedJournal_obeys hbytes hcut⟩

end Plasmosome.Journal
