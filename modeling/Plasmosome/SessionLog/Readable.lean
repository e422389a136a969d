import Plasmosome.SessionLog.LogLaws
import Plasmosome.Serde.Scanned

/-!
# What a session log reads of what it acknowledged

An append checks the length of its line, and the reader checks more. A line that
was acknowledged is read back as it was given unless a field of it is nested too deep,
a float in one does not read back, or an object of it begins with the key that the
library keeps to itself.
-/

namespace Plasmosome.SessionLog

open Foundation
open Serde

variable {Path : Type} {library : Library} {path : Path}

/-- The reader accepts a file whose last line is the event: it reads the earlier events and then
this one, with its number, its kind and every field of its payload, and an open goes on from it
unless no number is left. -/
structure ReaderAccepts (library : Library) (path : Path) (earlier : List Value) (event : Event)
    (file : List UInt8) : Prop where
  read : ∃ entries, readEvents library path file = .ok (earlier ++ [.object entries]) ∧
    entries.lookup "seq" = some (.ofU64 event.seq) ∧
    entries.lookup "kind" = some (.string event.kind) ∧
    ∀ key value, event.Field key value → entries.lookup key = some value
  reopens : event.seq.toNat + 1 < 2 ^ 64 →
    ∃ state, Store.openWith library path .succeed ⟨file, []⟩ = .ok state ∧
      state.nextSeq = event.seq + 1

section Appended

variable {file : List UInt8} {scanned : Scanned} {event : Event}

theorem scanLines_concat {entries : List (String × Value)} (hreads : event.Reads library entries)
    (hscan : scanLines library path (fun _ => false) file = .ok scanned)
    (hfits : event.Fits library) (hlast : ∀ last ∈ scanned.2, last.2 < event.seq) :
    scanLines library path (fun _ => false) (file ++ event.line library) =
      .ok (scanned.1 ++ [.object entries], some (1 + scanned.1.length, event.seq)) := by
  have hline := @Event.scanFrom_line _ library path (fun _ => false) event _ hreads hfits
    (1 + scanned.1.length) rfl _ hlast []
  have hend : scanFrom library path (fun _ => false) (1 + scanned.1.length + 1)
      (some (1 + scanned.1.length, event.seq)) [] =
        .ok ([], some (1 + scanned.1.length, event.seq)) := by
    rw [scanFrom, if_neg Bool.false_ne_true, if_pos rfl]
  rw [List.append_nil, hend] at hline
  rw [scanLines, scanFrom_append hscan, hline]
  rfl

theorem readEvents_concat_unread
    (hunread : library.fromStr (library.write (.object event.members)) = none)
    (hscan : scanLines library path (fun _ => false) file = .ok scanned)
    (hfits : event.Fits library) :
    readEvents library path (file ++ event.line library) =
      .error (.malformed path (1 + scanned.1.length) .notJson) := by
  have hline := @Event.scanFrom_line_unread _ library path (fun _ => false) event hunread hfits
    (1 + scanned.1.length) rfl scanned.2 []
  rw [List.append_nil] at hline
  rw [readEvents, scanLines, scanFrom_append hscan, hline]
  rfl

end Appended

/-- An event that an append acknowledged is read back as it was given exactly when no field of its
payload is nested too deep for the reader, no object of its line begins with the library's own
key, and every field reads back from its own text. -/
theorem acknowledged_event_is_readable_iff (hlibrary : library.Documented) {file : List UInt8}
    {earlier : List Value} (hread : readEvents library path file = .ok earlier)
    {state next : LogState} (hopen : Store.validate library path .succeed file = .ok state.nextSeq)
    {tsMs seq : UInt64} {kind : String} {payload : Payload} {calls : WriteCalls}
    {bytes : List UInt8}
    (happend : state.append library path tsMs kind payload calls = (bytes, next, .ok seq)) :
    ReaderAccepts library path earlier ⟨tsMs, seq, kind, payload⟩ (file ++ bytes) ↔
      (Event.mk tsMs seq kind payload).Shallow ∧ (Event.mk tsMs seq kind payload).NoRaw ∧
        (Event.mk tsMs seq kind payload).Faithful library := by
  obtain ⟨hseq, hfits, hbytes⟩ := append_ok happend
  subst hbytes
  cases hscan : scanLines library path (fun _ => false) file with
  | error error =>
      rw [readEvents, hscan] at hread
      cases hread
  | ok scanned =>
      have hearlier : scanned.1 = earlier := by
        rw [readEvents, hscan] at hread
        exact Except.ok.inj hread
      have hlast : ∀ last ∈ scanned.2, last.2 < seq := by
        intro last hlast
        rw [validate_succeed hscan] at hopen
        have hnext := numberAfter_ok hopen
        rw [Option.mem_def.mp hlast, Option.map_some, Option.getD_some] at hnext
        rw [hseq, UInt64.lt_iff_toNat_lt, hnext]
        exact Nat.lt_succ_self _
      constructor
      · rintro ⟨⟨entries, hentries, -, -, hfields⟩, -⟩
        rcases (Event.mk tsMs seq kind payload).reads_or_unread hlibrary with
          hunread | ⟨read, hreads⟩
        · rw [readEvents_concat_unread hunread hscan hfits] at hentries
          cases hentries
        · rw [readEvents, scanLines_concat hreads hscan hfits hlast, hearlier] at hentries
          have hsame := List.append_cancel_left (Except.ok.inj hentries)
          cases Value.object.inj (List.singleton_inj.mp hsame)
          have hshallow : (Event.mk tsMs seq kind payload).Shallow := by
            by_contra hdeep
            have hunread := Event.unread_deep _ hlibrary hdeep
            rw [hreads.read] at hunread
            cases hunread
          have hraw := Event.noRaw_of_reads _ hlibrary hshallow hreads hfields
          refine ⟨hshallow, hraw, fun key value hfield => ?_⟩
          have hplain := (Event.reads_entries _ hlibrary hshallow hraw).read
          rw [hreads.read] at hplain
          have hvalue := hfields key value hfield
          rw [Value.object.inj (Option.some_inj.mp hplain),
            Event.lookup_entries_field _ hfield] at hvalue
          exact Option.some_inj.mp hvalue
      · rintro ⟨hshallow, hraw, hfaithful⟩
        have hreads := Event.reads_entries _ hlibrary hshallow hraw
        have hafter := scanLines_concat hreads hscan hfits hlast
        refine ⟨⟨Event.entries _ library, ?_, hreads.seq.trans rfl, hreads.kind, ?_⟩,
          fun hless => ?_⟩
        · rw [readEvents, hafter, hearlier]
          rfl
        · intro key value hfield
          rw [Event.lookup_entries_field _ hfield, hfaithful key value hfield]
        · have hvalidate := validate_succeed hafter
          rw [Store.numberAfter, if_pos hless] at hvalidate
          exact ⟨_, openWith_succeed hvalidate, rfl⟩

/-- `null` inside arrays, each the only item of the next. -/
def nested : Nat → Value
  | 0 => .null
  | count + 1 => .array [nested count]

theorem nested_depth (count : Nat) : (nested count).depth = count := by
  induction count with
  | zero => rfl
  | succ count ih => rw [nested, Value.depth, Value.itemsDepth, Value.itemsDepth, ih, Nat.max_zero]

theorem nested_valid (count : Nat) : (nested count).Valid := by
  induction count with
  | zero => exact .null
  | succ count ih =>
      refine .array fun item hitem => ?_
      rw [List.mem_singleton.mp hitem]
      exact ih

theorem nested_sorted (count : Nat) : (nested count).sorted = nested count := by
  induction count with
  | zero => rfl
  | succ count ih => rw [nested, Value.sorted, Value.sortedItems, Value.sortedItems, ih]

/-- One field that is nested as deep as asked for. -/
def nestedPayload (count : Nat) : Payload where
  value := .object [("deep", nested count)]
  valid := by
    refine .object (List.nodup_singleton _) fun member hmember => ?_
    rw [List.mem_singleton.mp hmember]
    exact nested_valid count
  ordered := by
    rw [Value.sorted, Value.sortedMembers, Value.sortedMembers, nested_sorted]
    rfl

theorem nested_fits : (Event.mk 0 1 "note" (nestedPayload 127)).Fits scanned := by
  rw [Event.Fits]
  decide +kernel

theorem nested_shallow_iff (tsMs seq : UInt64) (kind : String) (count : Nat) :
    (Event.mk tsMs seq kind (nestedPayload count)).Shallow ↔ count < maxDepth := by
  have hkey : "deep" ∉ envelopeKeys := by decide
  constructor
  · intro hshallow
    have hless := hshallow "deep" (nested count) ⟨List.mem_singleton_self _, hkey⟩
    rwa [nested_depth] at hless
  · intro hless key value hfield
    cases List.mem_singleton.mp hfield.1
    rwa [nested_depth]

theorem nested_noRaw (count : Nat) : (nested count).NoRaw := by
  induction count with
  | zero => exact .null
  | succ count ih =>
      refine .array fun item hitem => ?_
      rw [List.mem_singleton.mp hitem]
      exact ih

theorem note_noRaw (count : Nat) : (Event.mk 0 1 "note" (nestedPayload count)).NoRaw := by
  refine .object (fun hraw => ?_) ?_
  · have hnone : (Event.mk 0 1 "note" (nestedPayload count)).members.lookup rawToken = none := by
      rw [Event.lookup_members, lookup_envelope_eq_none (by decide), Option.none_or]
      rfl
    obtain ⟨value, hvalue⟩ := RawFirst.lookup hraw
    rw [hnone] at hvalue
    cases hvalue
  · rintro ⟨key, value⟩ hmember
    rcases Event.member_cases _ hmember with rfl | rfl | rfl | ⟨hfield, -⟩
    · exact .string _
    · exact .number _
    · exact .number _
    · cases List.mem_singleton.mp hfield
      exact nested_noRaw count

theorem acknowledged_event_is_readable_iff_nested :
    ReaderAccepts scanned "session.ndjson" [] ⟨0, 1, "note", nestedPayload 3⟩
      ([] ++ (Event.mk 0 1 "note" (nestedPayload 3)).line scanned) :=
  (acknowledged_event_is_readable_iff scanned_documented readEvents_nil validate_nil
    (append_succeed (by rw [Event.Fits]; decide +kernel))).mpr
      ⟨(nested_shallow_iff 0 1 "note" 3).mpr (by decide), note_noRaw 3, by
        intro key value hfield
        cases List.mem_singleton.mp hfield.1
        rfl⟩

/-- One hundred and twenty-seven arrays and the event's object are one level too many. -/
theorem acknowledged_event_is_unreadable :
    ∃ bytes next,
      readEvents scanned "session.ndjson" [] = .ok [] ∧
      Store.validate scanned "session.ndjson" .succeed [] = .ok 1 ∧
      (LogState.mk true 1).append scanned "session.ndjson" 0 "note" (nestedPayload 127) .succeed =
        (bytes, next, .ok 1) ∧
      ¬ReaderAccepts scanned "session.ndjson" [] ⟨0, 1, "note", nestedPayload 127⟩ bytes := by
  refine ⟨_, _, readEvents_nil, validate_nil, append_succeed nested_fits, ?_⟩
  rintro ⟨⟨entries, hentries, -⟩, -⟩
  have hdeep : ¬(Event.mk 0 1 "note" (nestedPayload 127)).Shallow := fun hshallow =>
    absurd ((nested_shallow_iff 0 1 "note" 127).mp hshallow) (by decide)
  have hread := readEvents_concat_unread (Event.unread_deep _ scanned_documented hdeep)
    (@scanLines_nil _ scanned "session.ndjson") nested_fits
  rw [List.nil_append, hentries] at hread
  cases hread

end Plasmosome.SessionLog
