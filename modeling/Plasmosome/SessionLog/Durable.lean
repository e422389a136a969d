import Plasmosome.SessionLog.LogLaws
import Plasmosome.Serde.Scanned

/-!
# Acknowledged events stay in the log

Whatever calls fail, the file is event lines one after another, with increasing
numbers and after them at most a part of one more line. Every event that was
acknowledged is among them, in order.
-/

namespace Plasmosome.SessionLog

open Foundation
open Serde

variable {Path : Type} {library : Library} {path : Path}

abbrev Past (Path : Type) := List (Input Path × Output Path)

/-- The event an append acknowledged. -/
def acknowledgedOf : Input Path × Output Path → Option Event
  | (.append _ tsMs kind payload _, .appended (.ok seq)) => some ⟨tsMs, seq, kind, payload⟩
  | _ => none

/-- The acknowledged events of a run, in the order the appends returned. -/
def acknowledged (past : Past Path) : List Event := past.filterMap acknowledgedOf

/-- Some append of the run could not write its line. -/
def WriteFailed (path : Path) (past : Past Path) : Prop :=
  ∃ input answer, (input, .appended answer) ∈ past ∧ Appended.WriteBroken path answer

/-- The number after the last event's. -/
def nextOf (events : List Event) : Nat :=
  (events.getLast?.map fun event => event.seq.toNat + 1).getD 1

/-- The file's bytes are event lines with increasing numbers, then part of a line if a write of
the run failed. The acknowledged events are among the lines, in order. -/
structure Recorded (library : Library) (path : Path) (file : List UInt8) (past : Past Path)
    (events : List Event) (torn : List UInt8) : Prop where
  file_eq : file = events.flatMap (Event.line library) ++ torn
  fits : ∀ event ∈ events, event.Fits library
  increasing : (events.map Event.seq).Pairwise (· < ·)
  acknowledged_sublist : (acknowledged past).Sublist events
  torn_proper : torn ≠ [] → WriteFailed path past ∧
    ∃ event : Event, torn <+: event.line library ∧ torn ≠ event.line library

def Live (store : Store) (value : Nat) (state : LogState) : Prop :=
  store.values[value]? = some (some state) ∧ state.file = true

/-- A value that holds the file is the only one, and goes on after the last line. -/
structure Held (store : Store) (events : List Event) (torn : List UInt8) : Prop where
  whole : ∀ value state, Live store value state → torn = [] ∧ state.nextSeq.toNat = nextOf events
  only : ∀ value state other state', Live store value state → Live store other state' →
    value = other

def Consistent (library : Library) (path : Path) (store : Store) (past : Past Path) : Prop :=
  ∃ events torn, Recorded library path store.file past events torn ∧ Held store events torn

theorem newline_notMem_of_prefix {event : Event} {torn : List UInt8}
    (hinitial : torn <+: event.line library) (hproper : torn ≠ event.line library) :
    newline ∉ torn := by
  obtain ⟨rest, hrest⟩ := hinitial
  rcases List.eq_nil_or_concat rest with rfl | ⟨front, last, rfl⟩
  · rw [List.append_nil] at hrest
    exact (hproper hrest).elim
  · rw [Event.line, List.concat_eq_append, ← List.append_assoc] at hrest
    obtain ⟨hfront, -⟩ := List.append_inj' hrest rfl
    intro hmem
    exact write_no_newline library _ (hfront ▸ List.mem_append_left front hmem)

theorem Recorded.newline_notMem {file torn : List UInt8} {past : Past Path} {events : List Event}
    (hrecorded : Recorded library path file past events torn) : newline ∉ torn := by
  intro hmem
  have hnil : torn ≠ [] := List.ne_nil_of_mem hmem
  obtain ⟨-, event, hinitial, hproper⟩ := hrecorded.torn_proper hnil
  exact newline_notMem_of_prefix hinitial hproper hmem

theorem seq_lt_of_nextOf {events : List Event}
    (hincreasing : (events.map Event.seq).Pairwise (· < ·))
    {seq : UInt64} (hseq : seq.toNat = nextOf events) : ∀ event ∈ events, event.seq < seq := by
  intro event hevent
  rcases List.eq_nil_or_concat events with rfl | ⟨front, last, rfl⟩
  · cases hevent
  · rw [List.concat_eq_append] at hseq hevent hincreasing
    rw [nextOf, List.getLast?_concat, Option.map_some, Option.getD_some] at hseq
    rw [UInt64.lt_iff_toNat_lt, hseq]
    rcases List.mem_append.mp hevent with hfront | hlast
    · rw [List.map_append, List.pairwise_append] at hincreasing
      have hless := hincreasing.2.2 event.seq (List.mem_map_of_mem hfront) last.seq (by simp)
      rw [UInt64.lt_iff_toNat_lt] at hless
      omega
    · rw [List.mem_singleton.mp hlast]
      exact Nat.lt_succ_self _

/-- The next number is one more than that of the last event. -/
theorem nextOf_concat (events : List Event) (event : Event) :
    nextOf (events ++ [event]) = event.seq.toNat + 1 := by
  rw [nextOf, List.getLast?_concat]
  rfl

/-- An open that succeeds found nothing after the last line and goes on after it. -/
theorem validate_recorded (hlibrary : library.Documented) {file torn : List UInt8}
    {past : Past Path} {events : List Event}
    (hrecorded : Recorded library path file past events torn) {calls : OpenCalls Path}
    {nextSeq : UInt64} (hnext : Store.validate library path calls file = .ok nextSeq) :
    torn = [] ∧ nextSeq.toNat = nextOf events := by
  obtain ⟨scanned, hscan, hnumber⟩ := validate_ok hnext
  rw [scanLines, hrecorded.file_eq] at hscan
  obtain ⟨hnil, hlast⟩ := scanFrom_lines hlibrary hrecorded.fits hrecorded.newline_notMem
    (by simpa using hrecorded.increasing) hscan
  refine ⟨hnil, ?_⟩
  rw [numberAfter_ok hnumber, nextOf]
  have hseq : scanned.2.map Prod.snd = events.getLast?.map Event.seq := by simpa using hlast
  have hnat := congrArg (Option.map fun seq : UInt64 => seq.toNat + 1) hseq
  rw [Option.map_map, Option.map_map] at hnat
  exact congrArg (Option.getD · 1) hnat

/-! ## One step -/

section Steps

variable {file torn : List UInt8} {past : Past Path} {events : List Event}

theorem acknowledged_concat (past : Past Path) (entry : Input Path × Output Path) :
    acknowledged (past ++ [entry]) = acknowledged past ++ (acknowledgedOf entry).toList := by
  rw [acknowledged, List.filterMap_append]
  cases hentry : acknowledgedOf entry <;> simp [acknowledged, hentry]

theorem WriteFailed.mono (hfailed : WriteFailed path past) (entry : Input Path × Output Path) :
    WriteFailed path (past ++ [entry]) := by
  obtain ⟨input, answer, hmem, hbroken⟩ := hfailed
  exact ⟨input, answer, List.mem_append_left _ hmem, hbroken⟩

/-- A step that acknowledges nothing and leaves the file as it is. -/
theorem Recorded.extend (hrecorded : Recorded library path file past events torn)
    {entry : Input Path × Output Path} (hentry : acknowledgedOf entry = none) :
    Recorded library path file (past ++ [entry]) events torn where
  file_eq := hrecorded.file_eq
  fits := hrecorded.fits
  increasing := hrecorded.increasing
  acknowledged_sublist := by
    rw [acknowledged_concat, hentry, Option.toList_none, List.append_nil]
    exact hrecorded.acknowledged_sublist
  torn_proper htorn := by
    obtain ⟨hfailed, hproper⟩ := hrecorded.torn_proper htorn
    exact ⟨hfailed.mono entry, hproper⟩

/-- A step that writes a whole line after whole lines. -/
theorem Recorded.write (hrecorded : Recorded library path file past events [])
    {event : Event} (hfits : event.Fits library) (hseq : event.seq.toNat = nextOf events)
    {entry : Input Path × Output Path}
    (hentry : acknowledgedOf entry = none ∨ acknowledgedOf entry = some event) :
    Recorded library path (file ++ event.line library) (past ++ [entry]) (events ++ [event]) []
    where
  file_eq := by
    rw [hrecorded.file_eq, List.append_nil, List.flatMap_append, List.append_nil]
    simp
  fits other hother := by
    rcases List.mem_append.mp hother with hold | hnew
    · exact hrecorded.fits other hold
    · rw [List.mem_singleton.mp hnew]
      exact hfits
  increasing := by
    rw [List.map_append, List.map_singleton, List.pairwise_append]
    refine ⟨hrecorded.increasing, List.pairwise_singleton _ _, fun seq hmem last hlast => ?_⟩
    obtain ⟨other, hother, rfl⟩ := List.mem_map.mp hmem
    rw [List.mem_singleton.mp hlast]
    exact seq_lt_of_nextOf hrecorded.increasing hseq other hother
  acknowledged_sublist := by
    rw [acknowledged_concat]
    rcases hentry with hnone | hsome
    · rw [hnone, Option.toList_none, List.append_nil]
      exact hrecorded.acknowledged_sublist.trans (List.sublist_append_left _ _)
    · rw [hsome, Option.toList_some]
      exact hrecorded.acknowledged_sublist.append (List.Sublist.refl _)
  torn_proper htorn := (htorn rfl).elim

/-- A step that writes part of a line after whole lines. -/
theorem Recorded.tear (hrecorded : Recorded library path file past events [])
    {event : Event} {part : List UInt8} (hinitial : part <+: event.line library)
    (hproper : part ≠ event.line library) {input : Input Path} {answer : Appended Path}
    (hbroken : answer.WriteBroken path) (hentry : acknowledgedOf (input, .appended answer) = none) :
    Recorded library path (file ++ part) (past ++ [(input, .appended answer)]) events part where
  file_eq := by rw [hrecorded.file_eq, List.append_nil]
  fits := hrecorded.fits
  increasing := hrecorded.increasing
  acknowledged_sublist := by
    rw [acknowledged_concat, hentry, Option.toList_none, List.append_nil]
    exact hrecorded.acknowledged_sublist
  torn_proper _ := ⟨⟨input, answer, by simp, hbroken⟩, event, hinitial, hproper⟩

theorem Held.unlocked {store : Store} (hnone : ∀ value state, ¬Live store value state)
    (events : List Event) (torn : List UInt8) : Held store events torn where
  whole value state hlive := (hnone value state hlive).elim
  only value state _ _ hlive := (hnone value state hlive).elim

/-- A log is locked while one of its values is live. -/
theorem locked_iff {store : Store} : store.locked ↔ ∃ value state, Live store value state := by
  constructor
  · intro hlocked
    obtain ⟨held, hmem, hfile⟩ := List.any_eq_true.mp hlocked
    obtain ⟨state, rfl, hstate⟩ := (Option.any_eq_true _ _).mp hfile
    obtain ⟨value, hvalue⟩ := List.mem_iff_getElem?.mp hmem
    exact ⟨value, state, hvalue, hstate⟩
  · rintro ⟨value, state, hvalue, hstate⟩
    exact List.any_eq_true.mpr ⟨some state, List.mem_of_getElem? hvalue, hstate⟩

theorem live_set {store : Store} {file : List UInt8} {value other : Nat}
    {next : Option LogState} {state : LogState}
    (hlive : Live ⟨file, store.values.set value next⟩ other state) :
    (other = value ∧ next = some state ∧ state.file = true) ∨
      (other ≠ value ∧ Live store other state) := by
  obtain ⟨hvalue, hfile⟩ := hlive
  rw [List.getElem?_set] at hvalue
  split at hvalue
  next hsame =>
    split at hvalue
    next => exact .inl ⟨hsame.symm, Option.some_inj.mp hvalue, hfile⟩
    next => cases hvalue
  next hother => exact .inr ⟨fun heq => hother heq.symm, hvalue, hfile⟩

theorem value_of_join {store : Store} {value : Nat} {state : LogState}
    (hvalue : store.values[value]?.join = some state) :
    store.values[value]? = some (some state) := by
  cases hget : store.values[value]? with
  | none =>
      rw [hget] at hvalue
      cases hvalue
  | some held =>
      rw [hget] at hvalue
      exact congrArg some hvalue

theorem set_self {store : Store} {value : Nat} {state : LogState}
    (hvalue : store.values[value]? = some (some state)) :
    store.values.set value (some state) = store.values := by
  refine List.ext_getElem? fun index => ?_
  rw [List.getElem?_set]
  split
  next hsame =>
    subst hsame
    rw [if_pos (List.getElem?_eq_some_iff.mp hvalue).1, hvalue]
  next => rfl

end Steps

variable (library path) in
/-- What an append of a value that is there makes of the store. -/
theorem step_append {store : Store} {value : Nat} {state : LogState}
    (hvalue : store.values[value]? = some (some state)) (tsMs : UInt64) (kind : String)
    (payload : Payload) (calls : WriteCalls) {bytes : List UInt8} {next : LogState}
    {answer : Appended Path}
    (happend : state.append library path tsMs kind payload calls = (bytes, next, answer)) :
    (machine library path).step store (.append value tsMs kind payload calls) =
      (.appended answer, ⟨store.file ++ bytes, store.values.set value (some next)⟩) := by
  simp only [machine, hvalue, Option.join_some, happend]

/-- An append keeps the record, whether it is acknowledged, refused or cut. -/
theorem consistent_append {store : Store} {past : Past Path} {value : Nat} {state : LogState}
    (hconsistent : Consistent library path store past)
    (hvalue : store.values[value]? = some (some state)) (tsMs : UInt64) (kind : String)
    (payload : Payload) (calls : WriteCalls) :
    Consistent library path
      ((machine library path).step store (.append value tsMs kind payload calls)).2
      (past ++ [(.append value tsMs kind payload calls,
        ((machine library path).step store (.append value tsMs kind payload calls)).1)]) := by
  obtain ⟨events, torn, hrecorded, hheld⟩ := hconsistent
  rcases append_cases library path state tsMs kind payload calls rfl with
    ⟨-, happend⟩ | ⟨-, -, happend⟩ | ⟨hfile, hfits, count, answer, happend, hbroken, hpart⟩ |
      ⟨hfile, hfits, happend⟩
  · rw [step_append library path hvalue tsMs kind payload calls happend, set_self hvalue,
      List.append_nil]
    exact ⟨events, torn, hrecorded.extend rfl, hheld⟩
  · rw [step_append library path hvalue tsMs kind payload calls happend, set_self hvalue,
      List.append_nil]
    exact ⟨events, torn, hrecorded.extend rfl, hheld⟩
  · rw [step_append library path hvalue tsMs kind payload calls happend]
    obtain ⟨rfl, hseq⟩ := hheld.whole value state ⟨hvalue, hfile⟩
    have hentry : acknowledgedOf ((Input.append value tsMs kind payload calls : Input Path),
        Output.appended answer) = none := by
      rcases hbroken with rfl | ⟨step, rfl⟩ <;> rfl
    have hnone : ∀ file other held, ¬Live ⟨file, store.values.set value
        (some { state with file := false })⟩ other held := by
      intro file other held hlive
      rcases live_set hlive with ⟨-, hnext, hopen⟩ | ⟨hother, hlive⟩
      · cases hnext
        cases hopen
      · exact hother (hheld.only other held value state hlive ⟨hvalue, hfile⟩)
    by_cases hwhole : ((Event.mk tsMs state.nextSeq kind payload).line library).take count =
        (Event.mk tsMs state.nextSeq kind payload).line library
    · rw [hwhole]
      exact ⟨_, [], hrecorded.write hfits hseq (.inl hentry), Held.unlocked (hnone _) _ _⟩
    · exact ⟨events, _, hrecorded.tear (List.take_prefix _ _) hwhole (hpart hwhole) hentry,
        Held.unlocked (hnone _) _ _⟩
  · rw [step_append library path hvalue tsMs kind payload calls happend]
    obtain ⟨rfl, hseq⟩ := hheld.whole value state ⟨hvalue, hfile⟩
    refine ⟨_, [], hrecorded.write hfits hseq (.inr rfl), ?_, ?_⟩
    · intro other held hlive
      rcases live_set hlive with ⟨-, hnext, hopen⟩ | ⟨hother, hlive⟩
      · split at hnext
        next hless =>
          cases hnext
          exact ⟨rfl, by rw [nextOf_concat]; exact toNat_add_one hless⟩
        next =>
          cases hnext
          cases hopen
      · exact (hother (hheld.only other held value state hlive ⟨hvalue, hfile⟩)).elim
    · intro first held second held' hfirst hsecond
      rcases live_set hfirst with ⟨rfl, -⟩ | ⟨hother, hlive⟩
      · rcases live_set hsecond with ⟨rfl, -⟩ | ⟨hother, hlive⟩
        · rfl
        · exact (hother (hheld.only second held' first state hlive ⟨hvalue, hfile⟩)).elim
      · exact (hother (hheld.only first held value state hlive ⟨hvalue, hfile⟩)).elim

/-- Every input keeps the record, one case for each. -/
theorem consistent_step (hlibrary : library.Documented) (store : Store) (past : Past Path)
    (input : Input Path) (hconsistent : Consistent library path store past) :
    Consistent library path ((machine library path).step store input).2
      (past ++ [(input, ((machine library path).step store input).1)]) := by
  cases input with
  | openWith calls =>
      obtain ⟨events, torn, hrecorded, hheld⟩ := hconsistent
      cases hopen : store.openWith library path calls with
      | error error =>
          simp only [machine, hopen]
          exact ⟨events, torn, hrecorded.extend rfl, hheld⟩
      | ok state =>
          simp only [machine, hopen]
          obtain ⟨-, -, hunlocked, nextSeq, hnext, rfl⟩ := openWith_eq_ok.mp hopen
          obtain ⟨rfl, hseq⟩ := validate_recorded hlibrary hrecorded hnext
          have hlive : ∀ value state, Live ⟨store.file, store.values ++ [some ⟨true, nextSeq⟩]⟩
              value state → value = store.values.length ∧ state = ⟨true, nextSeq⟩ := by
            rintro value state ⟨hvalue, hfile⟩
            rw [List.getElem?_append] at hvalue
            split at hvalue
            next hold =>
              have hlocked := locked_iff.mpr ⟨value, state, hvalue, hfile⟩
              rw [hunlocked] at hlocked
              cases hlocked
            next hnew =>
              have hlength := (List.getElem?_eq_some_iff.mp hvalue).1
              have hindex : value - store.values.length = 0 := by
                simp only [List.length_singleton] at hlength
                omega
              rw [hindex] at hvalue
              exact ⟨by omega, by simpa using hvalue.symm⟩
          refine ⟨events, [], hrecorded.extend rfl, fun value state hmem => ?_,
            fun first _ second _ hfirst hsecond => ?_⟩
          · obtain ⟨-, rfl⟩ := hlive value state hmem
            exact ⟨rfl, hseq⟩
          · exact (hlive first _ hfirst).1.trans (hlive second _ hsecond).1.symm
  | append value tsMs kind payload calls =>
      cases hvalue : store.values[value]?.join with
      | none =>
          obtain ⟨events, torn, hrecorded, hheld⟩ := hconsistent
          simp only [machine, hvalue]
          exact ⟨events, torn, hrecorded.extend rfl, hheld⟩
      | some state =>
          exact consistent_append hconsistent (value_of_join hvalue) tsMs kind payload calls
  | drop value =>
      obtain ⟨events, torn, hrecorded, hheld⟩ := hconsistent
      have hlive : ∀ other state, Live ⟨store.file, store.values.set value none⟩ other state →
          Live store other state := by
        intro other state hmem
        rcases live_set hmem with ⟨-, hnext, -⟩ | ⟨-, hlive⟩
        · cases hnext
        · exact hlive
      exact ⟨events, torn, hrecorded.extend rfl,
        fun other state hmem => hheld.whole other state (hlive other state hmem),
        fun first state second state' hfirst hsecond =>
          hheld.only first state second state' (hlive _ _ hfirst) (hlive _ _ hsecond)⟩

/-! ## Runs -/

theorem consistent_empty : Consistent library path .empty [] := by
  refine ⟨[], [], ⟨rfl, fun event hevent => ?_, .nil, .slnil, fun htorn => (htorn rfl).elim⟩,
    Held.unlocked (fun value state hlive => ?_) _ _⟩
  · cases hevent
  · cases hlive.1

/-- Every run of inputs keeps the record. -/
theorem consistent_run (hlibrary : library.Documented) (inputs : List (Input Path)) :
    Consistent library path ((machine library path).final .empty inputs)
      ((machine library path).transcript .empty inputs) := by
  have hrun := (machine library path).transcript_invariant (consistent_step hlibrary)
    consistent_empty inputs
  rwa [List.nil_append] at hrun

/-- A value that takes no more appends: it gave up the file, or was dropped. -/
def Spent (store : Store) (value : Nat) : Prop :=
  ∃ held, store.values[value]? = some held ∧ ∀ state ∈ held, state.file = false

/-- A value that is spent stays spent. -/
theorem spent_step {store : Store} {value : Nat} (hspent : Spent store value)
    (input : Input Path) : Spent ((machine library path).step store input).2 value := by
  obtain ⟨held, hvalue, hfile⟩ := hspent
  cases input with
  | openWith calls =>
      cases hopen : store.openWith library path calls with
      | error error =>
          simp only [machine, hopen]
          exact ⟨held, hvalue, hfile⟩
      | ok state =>
          simp only [machine, hopen]
          refine ⟨held, ?_, hfile⟩
          rw [List.getElem?_append_left (List.getElem?_eq_some_iff.mp hvalue).1, hvalue]
  | append other tsMs kind payload calls =>
      cases hother : store.values[other]?.join with
      | none =>
          simp only [machine, hother]
          exact ⟨held, hvalue, hfile⟩
      | some state =>
          have hget := value_of_join hother
          by_cases hsame : other = value
          · subst hsame
            rw [hget] at hvalue
            cases hvalue
            have hclosed : state.file = false := hfile state rfl
            rcases append_cases library path state tsMs kind payload calls rfl with
              ⟨-, happend⟩ | ⟨hopen, -⟩ | ⟨hopen, -⟩ | ⟨hopen, -⟩
            · rw [step_append library path hget tsMs kind payload calls happend, set_self hget]
              exact ⟨some state, hget, hfile⟩
            all_goals
              rw [hclosed] at hopen
              cases hopen
          · simp only [machine, hother]
            refine ⟨held, ?_, hfile⟩
            rw [List.getElem?_set_ne hsame, hvalue]
  | drop other =>
      by_cases hsame : other = value
      · subst hsame
        refine ⟨none, ?_, fun state hstate => by cases hstate⟩
        change (store.values.set other none)[other]? = some none
        rw [List.getElem?_set_self (List.getElem?_eq_some_iff.mp hvalue).1]
      · refine ⟨held, ?_, hfile⟩
        change (store.values.set other none)[value]? = some held
        rw [List.getElem?_set_ne hsame, hvalue]

/-- An append on a spent value is refused, unless the value is dropped, and writes nothing. -/
theorem append_spent {store : Store} {value : Nat} (hspent : Spent store value) (tsMs : UInt64)
    (kind : String) (payload : Payload) (calls : WriteCalls) :
    (machine library path).step store (.append value tsMs kind payload calls) =
        (.appended (.error (.poisoned path)), store) ∨
      (machine library path).step store (.append value tsMs kind payload calls) =
        (.noValue, store) := by
  obtain ⟨held, hvalue, hfile⟩ := hspent
  cases held with
  | none =>
      refine .inr ?_
      simp only [machine, hvalue, Option.join_some]
  | some state =>
      refine .inl ?_
      have hclosed : state.file = false := hfile state rfl
      rcases append_cases library path state tsMs kind payload calls rfl with
        ⟨-, happend⟩ | ⟨hopen, -⟩ | ⟨hopen, -⟩ | ⟨hopen, -⟩
      · rw [step_append library path hvalue tsMs kind payload calls happend, set_self hvalue,
          List.append_nil]
      all_goals
        rw [hclosed] at hopen
        cases hopen

/-- A value whose append failed to write is spent. -/
theorem spent_of_io {store : Store} {value : Nat} {tsMs : UInt64} {kind : String}
    {payload : Payload} {calls : WriteCalls} {place : Path} {step : LogStep}
    (hio : ((machine library path).step store (.append value tsMs kind payload calls)).1 =
      .appended (.error (.io place step))) :
    Spent ((machine library path).step store (.append value tsMs kind payload calls)).2 value := by
  cases hvalue : store.values[value]?.join with
  | none => simp [machine, hvalue] at hio
  | some state =>
      have hget := value_of_join hvalue
      have hindex := (List.getElem?_eq_some_iff.mp hget).1
      rcases append_cases library path state tsMs kind payload calls rfl with
        ⟨-, happend⟩ | ⟨-, -, happend⟩ | ⟨-, -, count, answer, happend, -⟩ | ⟨-, -, happend⟩ <;>
        rw [step_append library path hget tsMs kind payload calls happend] at hio ⊢
      · cases hio
      · cases hio
      · refine ⟨_, List.getElem?_set_self hindex, fun state hstate => ?_⟩
        cases hstate
        rfl
      · cases hio

/-- An event over the cap leaves everything as it was. -/
theorem tooLong_unchanged {store : Store} {value : Nat} {tsMs : UInt64} {kind : String}
    {payload : Payload} {calls : WriteCalls} {place : Path} {bytes : Nat}
    (hlong : ((machine library path).step store (.append value tsMs kind payload calls)).1 =
      .appended (.error (.eventTooLong place bytes))) :
    ((machine library path).step store (.append value tsMs kind payload calls)).2 = store := by
  cases hvalue : store.values[value]?.join with
  | none => simp [machine, hvalue] at hlong
  | some state =>
      have hget := value_of_join hvalue
      rcases append_cases library path state tsMs kind payload calls rfl with
        ⟨-, happend⟩ | ⟨-, -, happend⟩ | ⟨-, -, count, answer, happend, hbroken, -⟩ |
          ⟨-, -, happend⟩ <;>
        rw [step_append library path hget tsMs kind payload calls happend] at hlong ⊢
      · cases hlong
      · rw [set_self hget, List.append_nil]
      · rcases hbroken with rfl | ⟨step, rfl⟩ <;> cases hlong
      · cases hlong

/-- What an open does where the file is the events' lines and a torn part: it fails and changes
nothing, or it starts from the number after the last event's and no part is torn. With no call
failing, and the file free, it fails only for what the file holds. -/
structure Opens (library : Library) (path : Path) (store : Store) (events : List Event)
    (torn : List UInt8) : Prop where
  answers : ∀ calls,
    (∃ error, (machine library path).step store (.openWith calls) = (.refused error, store)) ∨
    (torn = [] ∧ ∃ state : LogState, state.nextSeq.toNat = nextOf events ∧
      (machine library path).step store (.openWith calls) =
        (.opened store.values.length, { store with values := store.values ++ [some state] }))
  faults : store.locked = false → ∀ error,
    ((machine library path).step store (.openWith .succeed)).1 = .refused error →
      ∃ line fault, error = .malformed path line fault

/-- A file as recorded is opened and gives its events back. -/
theorem opens_of_recorded (hlibrary : library.Documented) {store : Store} {past : Past Path}
    {events : List Event} {torn : List UInt8}
    (hrecorded : Recorded library path store.file past events torn) :
    Opens library path store events torn where
  answers calls := by
    cases hopen : store.openWith library path calls with
    | error error =>
        refine .inl ⟨error, ?_⟩
        simp only [machine, hopen]
    | ok state =>
        obtain ⟨-, -, -, nextSeq, hnext, rfl⟩ := openWith_eq_ok.mp hopen
        obtain ⟨hnil, hseq⟩ := validate_recorded hlibrary hrecorded hnext
        refine .inr ⟨hnil, ⟨true, nextSeq⟩, hseq, ?_⟩
        simp only [machine, hopen]
  faults hunlocked error hrefused := by
    cases hopen : store.openWith library path .succeed with
    | error other =>
        simp only [machine, hopen, Output.refused.injEq] at hrefused
        subst hrefused
        exact openWith_succeed_error hunlocked hopen
    | ok state =>
        simp only [machine, hopen] at hrefused
        cases hrefused

/-- In every run the file is event lines with increasing numbers and at most a part of one more,
left by a failed write; every acknowledged event is among them, in order and under its number. An
append that failed is the last its value takes, one too long writes nothing, and an open leaves
the file as it is and numbers on from its last line. -/
theorem acknowledged_events_are_kept (hlibrary : library.Documented) (inputs : List (Input Path))
    {store : Store} (hstore : store = (machine library path).final .empty inputs) :
    (∃ events torn,
      Recorded library path store.file
      ((machine library path).transcript .empty inputs) events torn ∧
      Opens library path store events torn) ∧
    (∀ value tsMs kind payload calls place step,
      ((machine library path).step store (.append value tsMs kind payload calls)).1 =
        .appended (.error (.io place step)) →
      ∀ later after, after = (machine library path).final
          ((machine library path).step store (.append value tsMs kind payload calls)).2 later →
        ∀ tsMs kind payload calls,
          (machine library path).step after (.append value tsMs kind payload calls) =
              (.appended (.error (.poisoned path)), after) ∨
            (machine library path).step after (.append value tsMs kind payload calls) =
              (.noValue, after)) ∧
    (∀ value tsMs kind payload calls place bytes,
      ((machine library path).step store (.append value tsMs kind payload calls)).1 =
        .appended (.error (.eventTooLong place bytes)) →
      ((machine library path).step store (.append value tsMs kind payload calls)).2 = store) := by
  subst hstore
  refine ⟨?_, ?_, ?_⟩
  · obtain ⟨events, torn, hrecorded, -⟩ := consistent_run hlibrary inputs
    exact ⟨events, torn, hrecorded, opens_of_recorded hlibrary hrecorded⟩
  · rintro value tsMs kind payload calls place step hio later after rfl tsMs kind payload calls
    have hspent := @Machine.final_invariant _ _ _ (machine library path)
      (fun store => Spent store value) (fun _ input hspent => spent_step hspent input) _
      (spent_of_io hio) later
    exact append_spent hspent tsMs kind payload calls
  · intro value tsMs kind payload calls place bytes hlong
    exact tooLong_unchanged hlong

/-- An event is written between an open and a drop. -/
def oneAppend : List (Input String) :=
  [.openWith .succeed, .append 0 1000 "note" ⟨.null, .null, rfl⟩ .succeed, .drop 0]

theorem acknowledged_events_are_kept_sample :
    ∃ events torn, Recorded scanned "session.ndjson"
      ((machine scanned "session.ndjson").final .empty oneAppend).file
      ((machine scanned "session.ndjson").transcript .empty oneAppend) events torn ∧
      Opens scanned "session.ndjson" ((machine scanned "session.ndjson").final .empty oneAppend)
        events torn :=
  (acknowledged_events_are_kept scanned_documented _ rfl).1

theorem reopened_empty : (machine library path).final .empty [.openWith .succeed, .drop 0] =
    ⟨[], [none]⟩ := by
  have hopen : Store.empty.openWith library path .succeed = .ok ⟨true, 1⟩ :=
    openWith_succeed validate_nil
  have hstep : (machine library path).step .empty (.openWith .succeed) =
      (.opened 0, ⟨[], [some ⟨true, 1⟩]⟩) := by
    simp only [machine, hopen]
    rfl
  rw [Machine.final_cons, hstep]
  rfl

/-- A later open can also fail by a call of its own, with nothing wrong in the file. -/
theorem open_fails_without_a_fault :
    ¬∀ inputs calls,
      (∃ line fault, ((machine scanned "session.ndjson").step
        ((machine scanned "session.ndjson").final .empty inputs) (.openWith calls)).1 =
          .refused (.malformed "session.ndjson" line fault)) ∨
      ∃ value, ((machine scanned "session.ndjson").step
        ((machine scanned "session.ndjson").final .empty inputs) (.openWith calls)).1 =
          .opened value := by
  intro hopens
  have hvalidate : Store.validate scanned "session.ndjson" ⟨none, false, fun _ => false, true, none⟩
      [] = .error (.io "session.ndjson" .syncFile) := by
    rw [Store.validate, scanLines_nil]
    rfl
  have hopen : Store.openWith scanned "session.ndjson" ⟨none, false, fun _ => false, true, none⟩
      ⟨[], [none]⟩ = .error (.io "session.ndjson" .syncFile) := by
    have hunlocked : Store.locked ⟨[], [none]⟩ = false := rfl
    rw [Store.openWith, hunlocked, hvalidate]
    rfl
  rcases hopens [.openWith .succeed, .drop 0] ⟨none, false, fun _ => false, true, none⟩ with
    ⟨line, fault, hrefused⟩ | ⟨value, hopened⟩
  · rw [reopened_empty] at hrefused
    simp [machine, hopen] at hrefused
  · rw [reopened_empty] at hopened
    simp [machine, hopen] at hopened

end Plasmosome.SessionLog
