import Plasmosome.Reversal.LogFileLaws
import Plasmosome.Serde.Scanned

/-!
# A log as an archive

An archive is what a log is for: the effects of one plugin, in the order they were
written. Every run of appends, each of which may be cut off, is a run of the archive.
-/

namespace Plasmosome.Reversal

open Backend Foundation
open Foundation.Frames
open Serde (Library newline)

/-- The effects kept, whose they are, and whether the last record is torn. -/
structure Archive where
  owner : Option PluginId
  effects : List Effect
  torn : Bool

/-- An append to the log, or one that stops once some bytes of its records are written. -/
inductive Attempt where
  | appended (ledger : Ledger)
  | interrupted (ledger : Ledger) (kept : Nat)

/-- Every effect can be written. -/
def Ledger.Writable (ledger : Ledger) : Prop :=
  ∀ effect ∈ ledger.effects, (LogRecord.codec.encode ⟨logFormat, ledger.plugin, effect⟩).isSome

instance (ledger : Ledger) : Decidable ledger.Writable := List.decidableBAll _ _

section Archiving

variable (library : Library)

/-- The length of an effect's record without the newline. -/
def lineLength (plugin : PluginId) (effect : Effect) : Nat :=
  ((LogRecord.codec.encode ⟨logFormat, plugin, effect⟩).map
    fun value => (library.write value).length).getD 0

/-- How many of the effects have a record in the first bytes that lacks no more than its newline. -/
def landed (plugin : PluginId) : List Effect → Nat → Nat
  | [], _ => 0
  | effect :: rest, kept =>
      let size := lineLength library plugin effect
      if size ≤ kept then landed plugin rest (kept - size - 1) + 1 else 0

/-- Whether the first bytes end within a record. -/
def endsWithin (plugin : PluginId) : List Effect → Nat → Bool
  | [], _ => false
  | effect :: rest, kept =>
      let size := lineLength library plugin effect
      if size < kept then endsWithin plugin rest (kept - size - 1) else 0 < kept

namespace Archive

def empty : Archive := ⟨none, [], false⟩

/-- Nothing is torn, and no effect is another plugin's. -/
def Accepts (archive : Archive) (ledger : Ledger) : Prop :=
  archive.torn = false ∧ (archive.owner = none ∨ archive.owner = some ledger.plugin)

instance (archive : Archive) (ledger : Ledger) : Decidable (archive.Accepts ledger) :=
  inferInstanceAs (Decidable (_ ∧ _))

def extend (archive : Archive) (ledger : Ledger) (count : Nat) (torn : Bool) : Archive :=
  if archive.Accepts ledger ∧ ledger.Writable then
    let effects := archive.effects ++ ledger.effects.take count
    ⟨ownerOf ledger.plugin effects, effects, torn⟩
  else archive

def attempt (archive : Archive) : Attempt → Archive
  | .appended ledger => archive.extend ledger ledger.effects.length false
  | .interrupted ledger kept =>
      archive.extend ledger (landed library ledger.plugin ledger.effects kept)
        (endsWithin library ledger.plugin ledger.effects kept)

end Archive

end Archiving

section Laws

variable {explain : Unusable → String} {library : Library} {eof : List UInt8 → Bool}

/-! ## Writing -/

section Writing

variable {plugin : PluginId}

theorem Line.length_eq {line : List UInt8} {effect : Effect}
    (hline : Line library plugin line effect) :
    lineLength library plugin effect = line.length := by
  obtain ⟨value, hencode, rfl⟩ := hline
  rw [lineLength, hencode]
  rfl

theorem encodeEffects_cases (total index : Nat) (effects : List Effect) :
    ((∀ effect ∈ effects, (LogRecord.codec.encode ⟨logFormat, plugin, effect⟩).isSome) ∧
      ∃ lines, List.Forall₂ (Line library plugin) lines effects ∧
        Ledger.encodeEffects explain library plugin total index effects =
        .ok (frames newline lines)) ∨
    (¬(∀ effect ∈ effects, (LogRecord.codec.encode ⟨logFormat, plugin, effect⟩).isSome) ∧
      ∃ refusal, Ledger.encodeEffects explain library plugin total index effects =
      .error refusal) := by
  induction effects generalizing index with
  | nil => exact Or.inl ⟨by simp, [], .nil, rfl⟩
  | cons effect rest ih =>
      rw [List.forall_mem_cons, Ledger.encodeEffects]
      cases hencode : LogRecord.codec.encode ⟨logFormat, plugin, effect⟩ with
      | none => exact Or.inr ⟨by simp, _, rfl⟩
      | some value =>
          rcases ih (index + 1) with ⟨hrest, lines, hlines, hok⟩ | ⟨hrest, refusal, herror⟩
          · refine Or.inl ⟨⟨rfl, hrest⟩, library.write value :: lines, ?_, ?_⟩
            · exact .cons ⟨value, hencode, rfl⟩ hlines
            · simp only [hok, frames_cons]
              rfl
          · refine Or.inr ⟨fun hall => hrest hall.2, refusal, ?_⟩
            simp only [herror]
            rfl

/-- A ledger is written as one line for each effect, or an effect cannot be written. -/
theorem encode_cases (explain : Unusable → String) (library : Library) (ledger : Ledger) :
    (ledger.Writable ∧ ∃ lines, List.Forall₂ (Line library ledger.plugin) lines ledger.effects ∧
      ledger.encode explain library = .ok (frames newline lines)) ∨
    (¬ledger.Writable ∧ ∃ refusal, ledger.encode explain library = .error refusal) :=
  encodeEffects_cases ledger.effects.length 0 ledger.effects

end Writing

/-! ## What a file holds -/

/-- A file's bytes and the archive they stand for. -/
inductive Holds (library : Library) : Archive → List UInt8 → Prop where
  | whole {plugin : PluginId} {effects : List Effect} {lines : List (List UInt8)}
      (hlines : List.Forall₂ (Line library plugin) lines effects) :
      Holds library ⟨ownerOf plugin effects, effects, false⟩ (frames newline lines)
  | torn {plugin : PluginId} {effects landed : List Effect} {effect : Effect}
      {lines : List (List UInt8)} {line tail : List UInt8}
      (hlines : List.Forall₂ (Line library plugin) lines effects)
      (hline : Line library plugin line effect) (htail : tail <+: line) (hne : tail ≠ [])
      (hlanded : landed = if tail = line then effects ++ [effect] else effects) :
      Holds library ⟨ownerOf plugin landed, landed, true⟩ (frames newline lines ++ tail)

/-- No line of a log has a newline within. -/
theorem lines_free {plugin : PluginId} {effects : List Effect} {lines : List (List UInt8)}
    (hlines : List.Forall₂ (Line library plugin) lines effects) : Free newline lines := by
  induction hlines with
  | nil => exact free_nil
  | cons hline _ ih => exact free_cons.mpr ⟨hline.free, ih⟩

/-- The lines of a log are read, and then what follows them. -/
theorem readPluginLog_lines (hlibrary : library.Documented) {plugin : PluginId}
    {effects : List Effect} {lines : List (List UInt8)}
    (hlines : List.Forall₂ (Line library plugin) lines effects) (tail : List UInt8) :
    readPluginLog explain library eof (frames newline lines ++ tail) =
      readLines explain library eof lines.length (ownerOf plugin effects) effects
        (splitInclusive newline tail) := by
  have hread := @readLines_lines explain library eof plugin hlibrary lines [] effects hlines 0
    (splitInclusive newline tail)
  rw [Nat.zero_add, List.nil_append] at hread
  rw [readPluginLog, splitInclusive_frames (lines_free hlines)]
  exact hread

/-- A log reads as the archive it holds. -/
theorem Holds.read (hlibrary : library.Documented) (htorn : TellsTorn library eof)
    {archive : Archive} {bytes : List UInt8} (hholds : Holds library archive bytes) :
    readPluginLog explain library eof bytes = .ok (archive.owner, archive.effects) := by
  cases hholds with
  | @whole plugin effects lines hlines =>
      have hread := @readPluginLog_lines explain library eof hlibrary plugin effects lines hlines []
      rw [List.append_nil] at hread
      rw [hread]
      rfl
  | torn hlines hline htail _ hlanded =>
      rw [readPluginLog_lines hlibrary hlines, readLines_tail hlibrary htorn hline htail, hlanded]

/-- An archive is torn when its log does not end with a newline. -/
theorem Holds.last {archive : Archive} {bytes : List UInt8} (hholds : Holds library archive bytes) :
    archive.torn = true ↔ ∃ last, bytes.getLast? = some last ∧ last ≠ newline := by
  cases hholds with
  | @whole plugin effects lines hlines =>
      refine iff_of_false (by simp) ?_
      rintro ⟨last, hlast, hne⟩
      rcases List.eq_nil_or_concat lines with rfl | ⟨before, line, rfl⟩
      · cases hlast
      · rw [List.concat_eq_append, frames_append, frames_cons, frames_nil, ← List.append_assoc,
          List.getLast?_concat] at hlast
        exact hne (Option.some.inj hlast).symm
  | @torn plugin effects landed effect lines line tail _ hline htail hne _ =>
      refine iff_of_true rfl ⟨tail.getLast hne, ?_, ?_⟩
      · rw [List.getLast?_append_of_ne_nil _ hne, List.getLast?_eq_some_getLast hne]
      · intro hlast
        exact hline.free (htail.subset (hlast ▸ List.getLast_mem hne))

/-- A ledger is accepted by a log as by the archive it holds. -/
theorem Holds.acceptsTarget (hlibrary : library.Documented) (htorn : TellsTorn library eof)
    {archive : Archive} {bytes : List UInt8} (hholds : Holds library archive bytes)
    (ledger : Ledger) :
    ledger.acceptsTarget explain library eof bytes = .ok () ↔ archive.Accepts ledger := by
  have hread := @Holds.read explain library eof hlibrary htorn archive bytes hholds
  have hlast := hholds.last
  rw [Ledger.acceptsTarget, Archive.Accepts]
  cases hend : bytes.getLast? with
  | none =>
      have hempty := List.getLast?_eq_none_iff.mp hend
      have hnone : readPluginLog explain library eof [] = .ok (none, []) := rfl
      rw [hempty, hnone] at hread
      obtain ⟨howner, -⟩ := Prod.mk.inj (Except.ok.inj hread)
      have htorn : archive.torn = false := by
        rw [← Bool.not_eq_true, hlast, hend]
        rintro ⟨last, hsome, -⟩
        cases hsome
      simp [htorn, ← howner]
  | some last =>
      by_cases hnewline : last = newline
      · have htorn : archive.torn = false := by
          rw [← Bool.not_eq_true, hlast, hend]
          rintro ⟨other, hsome, hne⟩
          exact hne ((Option.some.inj hsome).symm.trans hnewline)
        simp only [hnewline, ne_eq, not_true_eq_false, if_false, hread, htorn, true_and]
        cases archive.owner with
        | none => simp
        | some found => by_cases hsame : found = ledger.plugin <;> simp [hsame]
      · have htorn : archive.torn = true := hlast.mpr ⟨last, hend, hnewline⟩
        simp [hnewline, htorn]

/-! ## What a write leaves -/

theorem Holds.owner_cases {archive : Archive} {bytes : List UInt8}
    (hholds : Holds library archive bytes)
    {plugin : PluginId} (htorn : archive.torn = false)
    (howner : archive.owner = none ∨ archive.owner = some plugin) :
    ∃ lines, List.Forall₂ (Line library plugin) lines archive.effects ∧
    bytes = frames newline lines ∧
      archive.owner = ownerOf plugin archive.effects := by
  cases hholds with
  | @whole other effects lines hlines =>
      cases hlines with
      | nil => exact ⟨[], .nil, rfl, rfl⟩
      | @cons line effect lines effects hline hlines =>
          obtain rfl : other = plugin := by
            rcases howner with hnone | hsome
            · cases hnone
            · exact Option.some.inj hsome
          exact ⟨line :: lines, .cons hline hlines, rfl, rfl⟩
  | torn => cases htorn

theorem landed_zero (hlibrary : library.Documented) {plugin : PluginId} {effects : List Effect}
    {lines : List (List UInt8)} (hlines : List.Forall₂ (Line library plugin) lines effects) :
    landed library plugin effects 0 = 0 := by
  cases hlines with
  | nil => rfl
  | cons hline _ =>
      have hpos := List.length_pos_iff.mpr (hline.ne_nil hlibrary)
      rw [landed]
      exact if_neg (by rw [hline.length_eq]; omega)

/-- The first bytes of some records, after whole ones. -/
theorem holds_landed (hlibrary : library.Documented) {plugin : PluginId}
    {before effects : List Effect}
    {done lines : List (List UInt8)} (hdone : List.Forall₂ (Line library plugin) done before)
    (hlines : List.Forall₂ (Line library plugin) lines effects) (kept : Nat) :
    let held := before ++ effects.take (landed library plugin effects kept)
    Holds library ⟨ownerOf plugin held, held, endsWithin library plugin effects kept⟩
      (frames newline done ++ (frames newline lines).take kept) := by
  intro held
  induction hlines generalizing before done kept with
  | nil =>
      have hheld : held = before := List.append_nil _
      rw [hheld, frames_nil, List.take_nil, List.append_nil]
      exact .whole hdone
  | @cons line effect lines effects hline hlines ih =>
      have hsize := hline.length_eq
      have hpos := List.length_pos_iff.mpr (hline.ne_nil hlibrary)
      rw [endsWithin, frames_cons]
      by_cases hwhole : line.length < kept
      · -- the record and its newline are written
        obtain ⟨more, rfl⟩ : ∃ more, kept = (line ++ [newline]).length + more :=
          ⟨kept - line.length - 1, by simp; omega⟩
        have hmore : (line ++ [newline]).length + more - line.length - 1 = more := by simp; omega
        have hgrown : List.Forall₂ (Line library plugin) (done ++ [line]) (before ++ [effect]) :=
          List.rel_append hdone (.cons hline .nil)
        have htake : (line ++ newline :: frames newline lines).take
            ((line ++ [newline]).length + more) =
            line ++ [newline] ++ (frames newline lines).take more := by
          rw [List.append_cons line newline (frames newline lines), List.take_length_add_append]
        have hnext := ih hgrown more
        have hheld :
            held = before ++ [effect] ++ effects.take (landed library plugin effects more) := by
          change before ++ (effect :: effects).take
            (landed library plugin (effect :: effects) _) = _
          rw [landed, hsize, if_pos hwhole.le, hmore, List.take_succ_cons, List.append_assoc]
          rfl
        rw [hheld, hsize, if_pos hwhole, hmore, htake, ← List.append_assoc]
        rw [frames_append, frames_cons, frames_nil] at hnext
        exact hnext
      · have htake : (line ++ newline :: frames newline lines).take kept = line.take kept :=
          List.take_append_of_le_length (by omega)
        rw [hsize, if_neg hwhole, htake]
        by_cases hzero : kept = 0
        · have hheld : held = before := by
            change before ++ (effect :: effects).take
              (landed library plugin (effect :: effects) kept) = _
            rw [hzero, landed_zero hlibrary (.cons hline hlines), List.take_zero, List.append_nil]
          rw [hheld, hzero, List.take_zero, List.append_nil]
          exact .whole hdone
        · rw [decide_eq_true (Nat.pos_of_ne_zero hzero)]
          refine .torn hdone hline (List.take_prefix kept line) ?_ ?_
          · rw [ne_eq, List.take_eq_nil_iff]
            exact not_or.mpr ⟨hzero, hline.ne_nil hlibrary⟩
          · change before ++ (effect :: effects).take
              (landed library plugin (effect :: effects) kept) = _
            rw [landed, hsize]
            by_cases hall : line.length ≤ kept
            · have hrest : kept - line.length - 1 = 0 := by omega
              rw [if_pos hall, if_pos (List.take_of_length_le hall), hrest,
                landed_zero hlibrary hlines]
              rfl
            · rw [if_neg hall, if_neg (mt (List.take_eq_self_iff line).mp hall), List.take_zero,
                List.append_nil]

/-- All the bytes of some records are all the records. -/
theorem landed_all {plugin : PluginId} {effects : List Effect}
    {lines : List (List UInt8)} (hlines : List.Forall₂ (Line library plugin) lines effects) :
    landed library plugin effects (frames newline lines).length = effects.length ∧
      endsWithin library plugin effects (frames newline lines).length = false := by
  induction hlines with
  | nil => exact ⟨rfl, rfl⟩
  | @cons line effect lines effects hline hlines ih =>
      have hlength : (frames newline (line :: lines)).length =
          line.length + 1 + (frames newline lines).length := by
        rw [frames_cons, List.length_append, List.length_cons]
        omega
      have hrest : line.length + 1 + (frames newline lines).length - line.length - 1 =
          (frames newline lines).length := by omega
      rw [landed, endsWithin, hlength, hline.length_eq, if_pos (by omega), if_pos (by omega), hrest,
        ih.1, ih.2]
      exact ⟨rfl, rfl⟩

theorem length_frames_cons (line : List UInt8) (lines : List (List UInt8)) :
    (frames newline (line :: lines)).length = line.length + 1 + (frames newline lines).length := by
  rw [frames_cons, List.length_append, List.length_cons]
  omega

/-- An effect has landed when the bytes of the records up to its own reach its last newline. -/
theorem le_landed_iff (hlibrary : library.Documented) {plugin : PluginId} {effects : List Effect}
    {lines : List (List UInt8)} (hlines : List.Forall₂ (Line library plugin) lines effects)
    {whole : Nat} (hwhole : whole ≤ effects.length) (kept : Nat) :
    whole ≤ landed library plugin effects kept ↔
    (frames newline (lines.take whole)).length ≤ kept + 1 := by
  induction hlines generalizing whole kept with
  | nil =>
      obtain rfl : whole = 0 := Nat.le_zero.mp hwhole
      simp
  | @cons line effect lines effects hline hlines ih =>
      cases whole with
      | zero => simp
      | succ whole =>
          rw [landed, hline.length_eq, List.take_succ_cons, length_frames_cons]
          have hrest := ih (Nat.le_of_succ_le_succ hwhole) (kept - line.length - 1)
          by_cases hsize : line.length ≤ kept
          · rw [if_pos hsize, Nat.succ_le_succ_iff, hrest]
            by_cases hroom : line.length < kept
            · omega
            · -- only the newline is missing, so no further record has begun
              cases whole with
              | zero => simp; omega
              | succ whole =>
                  cases hlines with
                  | nil => simp at hwhole
                  | @cons next nextEffect lines effects hnext _ =>
                      have hpos := List.length_pos_iff.mpr (hnext.ne_nil hlibrary)
                      rw [List.take_succ_cons, length_frames_cons]
                      omega
          · rw [if_neg hsize]
            omega

/-- No more effects land than there are. -/
theorem landed_le (plugin : PluginId) (effects : List Effect) (kept : Nat) :
    landed library plugin effects kept ≤ effects.length := by
  induction effects generalizing kept with
  | nil => exact le_rfl
  | cons effect rest ih =>
      rw [landed, List.length_cons]
      split
      · exact Nat.succ_le_succ (ih _)
      · exact Nat.zero_le _

/-- Effects have one way to be written. -/
theorem lines_unique {plugin : PluginId} {effects : List Effect} {lines others : List (List UInt8)}
    (hlines : List.Forall₂ (Line library plugin) lines effects)
    (hothers : List.Forall₂ (Line library plugin) others effects) : others = lines := by
  induction hlines generalizing others with
  | nil =>
      cases hothers
      rfl
  | cons hline _ ih =>
      cases hothers with
      | cons hother hothers =>
          obtain ⟨value, hencode, rfl⟩ := hline
          obtain ⟨other, hotherEncode, rfl⟩ := hother
          obtain rfl := Option.some.inj (hotherEncode.symm.trans hencode)
          rw [ih hothers]

theorem lines_of_encode {ledger : Ledger} {bytes : List UInt8}
    (hencode : ledger.encode explain library = .ok bytes) :
    ∃ lines, List.Forall₂ (Line library ledger.plugin) lines ledger.effects ∧
      bytes = frames newline lines := by
  rcases encode_cases explain library ledger with ⟨-, lines, hlines, hok⟩ | ⟨-, _, hrefused⟩
  · exact ⟨lines, hlines, Except.ok.inj (hencode.symm.trans hok)⟩
  · cases hencode.symm.trans hrefused

/-- However many bytes of a ledger's records a log holds, it reads as the effects whose records
lack no more than their newline. -/
theorem cut_log_reads (hlibrary : library.Documented) (htorn : TellsTorn library eof)
    {ledger : Ledger}
    {bytes : List UInt8} (hencode : ledger.encode explain library = .ok bytes) (kept : Nat) :
    ∃ count ≤ ledger.effects.length,
      readPluginLog explain library eof (bytes.take kept) =
        .ok (ownerOf ledger.plugin (ledger.effects.take count), ledger.effects.take count) ∧
      ∀ whole ≤ ledger.effects.length, ∀ written,
        Ledger.encode explain library ⟨ledger.plugin, ledger.effects.take whole⟩ = .ok written →
          (whole ≤ count ↔ written.length ≤ kept + 1) := by
  obtain ⟨lines, hlines, rfl⟩ := lines_of_encode hencode
  refine ⟨landed library ledger.plugin ledger.effects kept, landed_le _ _ kept, ?_, ?_⟩
  · exact (holds_landed hlibrary .nil hlines kept).read hlibrary htorn
  · intro whole hwhole written hwritten
    obtain ⟨taken, htaken, rfl⟩ := lines_of_encode hwritten
    rw [lines_unique (List.forall₂_take whole hlines) htaken]
    exact le_landed_iff hlibrary hlines hwhole kept

/-- A library that has run out of bytes whenever it refuses a line. -/
def scannedEof (bytes : List UInt8) : Bool := (Serde.scanned.tree bytes).toOption.isNone

theorem scanned_tellsTorn : TellsTorn Serde.scanned scannedEof := by
  intro plugin line effect hline cut hcut hproper
  rw [scannedEof, hline.cut_tree Serde.scanned_documented hcut hproper]
  rfl

/-- An effect told outside, in letters of more than one byte, and a message already published. -/
def assertionLedger : Ledger :=
  ⟨⟨"plugin"⟩, [.external "erzählt", ⟨"told", .delayed ⟨"channel", "hello", true⟩⟩]⟩

theorem cut_assertion_reads :
    ∃ bytes, assertionLedger.encode (fun _ => "") Serde.scanned = .ok bytes ∧
    ∀ kept, ∃ count ≤ assertionLedger.effects.length,
      readPluginLog (fun _ => "") Serde.scanned scannedEof (bytes.take kept) =
        .ok (ownerOf assertionLedger.plugin (assertionLedger.effects.take count),
          assertionLedger.effects.take count) ∧
      ∀ whole ≤ assertionLedger.effects.length, ∀ written,
        Ledger.encode (fun _ => "") Serde.scanned
            ⟨assertionLedger.plugin, assertionLedger.effects.take whole⟩ = .ok written →
          (whole ≤ count ↔ written.length ≤ kept + 1) := by
  obtain ⟨bytes, hencode⟩ :
      ∃ bytes, assertionLedger.encode (fun _ => "") Serde.scanned = .ok bytes :=
    ⟨_, rfl⟩
  exact ⟨bytes, hencode, cut_log_reads Serde.scanned_documented scanned_tellsTorn hencode⟩

/-! ## Runs -/

/-- Bytes appended to a log extend the archive by what landed of them. -/
theorem Holds.extend (hlibrary : library.Documented) {archive : Archive} {bytes : List UInt8}
    (hholds : Holds library archive bytes) {ledger : Ledger} (haccepts : archive.Accepts ledger)
    (hwritable : ledger.Writable) {lines : List (List UInt8)}
    (hlines : List.Forall₂ (Line library ledger.plugin) lines ledger.effects) (kept : Nat) :
    Holds library (archive.extend ledger (landed library ledger.plugin ledger.effects kept)
      (endsWithin library ledger.plugin ledger.effects kept)) (bytes ++
      (frames newline lines).take kept) := by
  obtain ⟨done, hdone, rfl, -⟩ := hholds.owner_cases haccepts.1 haccepts.2
  rw [Archive.extend, if_pos ⟨haccepts, hwritable⟩]
  exact holds_landed hlibrary hdone hlines kept

/-- What an attempt leaves of a file. -/
def Attempt.run (explain : Unusable → String) (library : Library) (eof : List UInt8 → Bool)
    (file : Option (List UInt8)) : Attempt → Option (List UInt8)
  | .appended ledger => (ledger.appendToFile explain library eof file).2
  | .interrupted ledger kept => ledger.appendCut explain library eof kept file

theorem appendToFile_eq_cut (ledger : Ledger) {records : List UInt8}
    (hencode : ledger.encode explain library = .ok records) (file : Option (List UInt8)) :
    (ledger.appendToFile explain library eof file).2 =
      ledger.appendCut explain library eof records.length file := by
  simp only [Ledger.appendToFile, Ledger.appendCut, hencode]
  split
  · rfl
  · rw [List.take_length]

/-- An interrupted append leaves what had landed of it. -/
theorem Holds.interrupted (hlibrary : library.Documented) (htorn : TellsTorn library eof)
    {archive : Archive} {file : Option (List UInt8)} (hholds : Holds library archive (file.getD []))
    (ledger : Ledger) (kept : Nat) :
    Holds library (archive.attempt library (.interrupted ledger kept))
      ((ledger.appendCut explain library eof kept file).getD []) := by
  rw [Archive.attempt, Ledger.appendCut]
  rcases encode_cases explain library ledger with
      ⟨hwritable, lines, hlines, hok⟩ | ⟨hunwritable, _, hrefused⟩
  · simp only [hok]
    have htarget := @Holds.acceptsTarget explain library eof hlibrary htorn archive _ hholds ledger
    by_cases haccepts : archive.Accepts ledger
    · rw [htarget.mpr haccepts]
      exact hholds.extend hlibrary haccepts hwritable hlines kept
    · rw [Archive.extend, if_neg fun hboth => haccepts hboth.1]
      cases hanswer : ledger.acceptsTarget explain library eof (file.getD []) with
      | ok answer => exact absurd (htarget.mp hanswer) haccepts
      | error _ => exact hholds
  · simp only [hrefused]
    rw [Archive.extend, if_neg fun hboth => hunwritable hboth.2]
    exact hholds

/-- Every attempt keeps a log and its archive together. -/
theorem Holds.attempt (hlibrary : library.Documented) (htorn : TellsTorn library eof)
    {archive : Archive} {file : Option (List UInt8)} (hholds : Holds library archive (file.getD []))
    (attempt : Attempt) :
    Holds library (archive.attempt library attempt)
    ((attempt.run explain library eof file).getD []) := by
  cases attempt with
  | interrupted ledger kept => exact hholds.interrupted hlibrary htorn ledger kept
  | appended ledger =>
      rw [Attempt.run]
      rcases encode_cases explain library ledger with
          ⟨_, lines, hlines, hok⟩ | ⟨hunwritable, _, hrefused⟩
      · have hcut :=
          @Holds.interrupted explain library eof hlibrary htorn archive file hholds ledger
          (frames newline lines).length
        obtain ⟨hall, hends⟩ := landed_all hlines
        rw [Archive.attempt, hall, hends] at hcut
        rw [appendToFile_eq_cut ledger hok]
        exact hcut
      · rw [Archive.attempt, Archive.extend, if_neg fun hboth => hunwritable hboth.2,
          Ledger.appendToFile, hrefused]
        exact hholds

/-- An append succeeds exactly when the archive accepts the ledger. -/
theorem appendToFile_ok (hlibrary : library.Documented) (htorn : TellsTorn library eof)
    {archive : Archive} {file : Option (List UInt8)} (hholds : Holds library archive (file.getD []))
    (ledger : Ledger) :
    (ledger.appendToFile explain library eof file).1 = .ok ledger.effects.length ↔
      archive.Accepts ledger ∧ ledger.Writable := by
  have htarget := @Holds.acceptsTarget explain library eof hlibrary htorn archive _ hholds ledger
  rw [← htarget, Ledger.appendToFile]
  rcases encode_cases explain library ledger with
      ⟨hwritable, lines, -, hok⟩ | ⟨hunwritable, _, hrefused⟩
  · simp only [hok]
    cases ledger.acceptsTarget explain library eof (file.getD []) <;> simp [hwritable]
  · simp [hrefused, hunwritable]

/-- Every run of appends, some of them cut off, leaves a log that reads as the archive it built.
Only the archive decides which ledger is appended next. -/
theorem interrupted_appends_refine (hlibrary : library.Documented) (htorn : TellsTorn library eof)
    (explain : Unusable → String) (attempts : List Attempt) :
    let file := attempts.foldl (Attempt.run explain library eof) none
    let archive := attempts.foldl (Archive.attempt library) .empty
    readPluginLog explain library eof (file.getD []) = .ok (archive.owner, archive.effects) ∧
      ∀ ledger : Ledger, (ledger.appendToFile explain library eof file).1 =
      .ok ledger.effects.length ↔
        archive.Accepts ledger ∧ ledger.Writable := by
  intro file archive
  have hholds : Holds library archive (file.getD []) := by
    induction attempts using List.reverseRecOn with
    | nil => exact @Holds.whole library ⟨""⟩ [] [] .nil
    | append_singleton attempts attempt ih =>
        have hnext := @Holds.attempt explain library eof hlibrary htorn _ _ ih attempt
        simp only [file, archive, List.foldl_append, List.foldl_cons, List.foldl_nil]
        exact hnext
  exact ⟨hholds.read hlibrary htorn, appendToFile_ok hlibrary htorn hholds⟩

theorem interrupted_assertions_refine :
    let attempts : List Attempt :=
      [.appended assertionLedger, .interrupted assertionLedger 60, .appended assertionLedger]
    let file := attempts.foldl (Attempt.run (fun _ => "") Serde.scanned scannedEof) none
    let archive := attempts.foldl (Archive.attempt Serde.scanned) .empty
    readPluginLog (fun _ => "") Serde.scanned scannedEof (file.getD []) =
        .ok (archive.owner, archive.effects) ∧
      ∀ ledger : Ledger,
        (ledger.appendToFile (fun _ => "") Serde.scanned scannedEof file).1 =
            .ok ledger.effects.length ↔
          archive.Accepts ledger ∧ ledger.Writable :=
  interrupted_appends_refine Serde.scanned_documented scanned_tellsTorn _ _

end Laws

end Plasmosome.Reversal
