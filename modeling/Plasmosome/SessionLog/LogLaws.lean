import Plasmosome.Foundation.Checks
import Plasmosome.SessionLog.LineLaws
import Plasmosome.SessionLog.Log

/-!
# What a session log's calls can do

An append either refuses and writes nothing, or writes its whole line, or gives up
the file after a part of it. An open whose calls all succeed is decided by the scan.
-/

namespace Plasmosome.SessionLog

open Foundation
open Serde

variable {Path : Type} {library : Library} {path : Path}

/-- The numbering that an open of the file starts from, when no call fails. -/
theorem validate_succeed {file : List UInt8} {scanned : Scanned}
    (hscan : scanLines library path (fun _ => false) file = .ok scanned) :
    Store.validate library path .succeed file = Store.numberAfter path scanned.2 := by
  have hreads : (OpenCalls.succeed : OpenCalls Path).readFails = fun _ => false := rfl
  rw [Store.validate, hreads, hscan]
  cases hnumber : Store.numberAfter path scanned.2 with
  | error error => simp only [bind, Except.bind, hnumber]
  | ok nextSeq =>
      simp only [bind, Except.bind, hnumber]
      rfl

theorem toNat_add_one {seq : UInt64} (hseq : seq.toNat + 1 < 2 ^ 64) :
    (seq + 1).toNat = seq.toNat + 1 := by
  rw [UInt64.toNat_add]
  exact Nat.mod_eq_of_lt hseq

theorem numberAfter_ok {last : Option (Nat × UInt64)} {nextSeq : UInt64}
    (hnext : Store.numberAfter path last = .ok nextSeq) :
    nextSeq.toNat = (last.map fun line => line.2.toNat + 1).getD 1 := by
  cases last with
  | none =>
      cases hnext
      rfl
  | some last =>
      rcases last with ⟨line, seq⟩
      rw [Store.numberAfter] at hnext
      split at hnext
      next hless =>
        cases hnext
        exact toNat_add_one hless
      next => cases hnext

theorem openWith_eq_ok {calls : OpenCalls Path} {store : Store} {state : LogState} :
    store.openWith library path calls = .ok state ↔
      calls.createParents = none ∧ calls.openFails = false ∧ store.locked = false ∧
        ∃ nextSeq, Store.validate library path calls store.file = .ok nextSeq ∧
          state = ⟨true, nextSeq⟩ := by
  rw [Store.openWith]
  cases calls.createParents with
  | some directory => simp
  | none =>
      cases calls.openFails with
      | true => simp
      | false =>
          cases store.locked with
          | true => simp
          | false =>
              cases Store.validate library path calls store.file <;>
                simp [bind, Except.bind, pure, Except.pure, eq_comm]

theorem validate_ok {calls : OpenCalls Path} {file : List UInt8} {nextSeq : UInt64}
    (hnext : Store.validate library path calls file = .ok nextSeq) :
    ∃ scanned, scanLines library path calls.readFails file = .ok scanned ∧
      Store.numberAfter path scanned.2 = .ok nextSeq := by
  rw [Store.validate] at hnext
  obtain ⟨scanned, hscan, hrest⟩ := bind_eq_ok.mp hnext
  obtain ⟨number, hnumber, hsyncs⟩ := bind_eq_ok.mp hrest
  refine ⟨scanned, hscan, hnumber.trans ?_⟩
  split at hsyncs
  next => cases hsyncs
  next =>
    split at hsyncs
    next => cases hsyncs
    next => exact hsyncs

theorem openWith_succeed {file : List UInt8} {nextSeq : UInt64}
    (hnext : Store.validate library path .succeed file = .ok nextSeq) :
    Store.openWith library path .succeed ⟨file, []⟩ = .ok ⟨true, nextSeq⟩ :=
  openWith_eq_ok.mpr ⟨rfl, rfl, rfl, nextSeq, hnext, rfl⟩

/-- A scan whose reads succeed fails only by what it read. -/
theorem scanFrom_error {bytes : List UInt8} {line : Nat} {last : Option (Nat × UInt64)}
    {error : SessionLogError Path}
    (hscan : scanFrom library path (fun _ => false) line last bytes = .error error) :
    ∃ line fault, error = .malformed path line fault := by
  induction hlength : bytes.length using Nat.strong_induction_on generalizing bytes line last with
  | _ length ih =>
  rw [scanFrom, if_neg Bool.false_ne_true] at hscan
  split at hscan
  next => cases hscan
  next =>
    split at hscan
    next segment rest hread =>
      have happend := congrArg List.length (readUntil_append (maxLineBytes + 1) bytes)
      rw [hread, List.length_append] at happend
      split at hscan
      next hnewline =>
        have hpositive : 0 < segment.length := by
          refine List.length_pos_iff.mpr ?_
          rintro rfl
          cases hnewline
        split at hscan
        next fault _ =>
          cases hscan
          exact ⟨line, fault, rfl⟩
        next event seq _ =>
          split at hscan
          next =>
            cases hscan
            exact ⟨line, _, rfl⟩
          next =>
            split at hscan
            next hafter =>
              cases hscan
              exact ih rest.length (by simp only at happend; omega) hafter rfl
            next => cases hscan
      next =>
        cases hscan
        exact ⟨line, _, rfl⟩

/-- An open whose calls all succeed, of a file that is free, is refused only for what it holds. -/
theorem openWith_succeed_error {store : Store} {error : SessionLogError Path}
    (hunlocked : store.locked = false)
    (hopen : store.openWith library path .succeed = .error error) :
    ∃ line fault, error = .malformed path line fault := by
  have hvalidate : Store.validate library path .succeed store.file = .error error := by
    rw [Store.openWith, hunlocked] at hopen
    cases hnext : Store.validate library path .succeed store.file with
    | error other =>
        rw [hnext] at hopen
        have hsame : (Except.error other : Except (SessionLogError Path) LogState) =
            .error error := hopen
        cases hsame
        rfl
    | ok nextSeq =>
        rw [hnext] at hopen
        cases hopen
  cases hscan : scanLines library path (fun _ => false) store.file with
  | error other =>
      have hreads : (OpenCalls.succeed : OpenCalls Path).readFails = fun _ => false := rfl
      rw [Store.validate, hreads, hscan] at hvalidate
      cases hvalidate
      exact scanFrom_error hscan
  | ok scanned =>
      rw [validate_succeed hscan] at hvalidate
      rcases scanned with ⟨events, last⟩
      cases last with
      | none => cases hvalidate
      | some last =>
          rw [Store.numberAfter] at hvalidate
          split at hvalidate
          next => cases hvalidate
          next =>
            cases hvalidate
            exact ⟨_, _, rfl⟩

/-- A line is written whole, or a call before it was durable did not succeed. Less than the whole
is left only by a write. -/
theorem writeDurably_cases (calls : WriteCalls) (bytes : List UInt8) :
    writeDurably calls bytes = (bytes, .done) ∨
      ∃ count written, writeDurably calls bytes = (bytes.take count, written) ∧
        (written = .panicked ∨ ∃ step, written = .failed step) ∧
        (bytes.take count ≠ bytes → written = .panicked ∨ written = .failed .write) := by
  have hwhole : bytes.take bytes.length = bytes := List.take_length
  cases hwrite : calls.write with
  | succeeds =>
      rw [writeDurably, if_pos hwrite, hwrite]
      cases hflush : calls.flush with
      | succeeds =>
          cases hsync : calls.sync with
          | succeeds => exact .inl rfl
          | fails =>
              exact .inr ⟨bytes.length, .failed .syncFile, by rw [hwhole]; rfl, .inr ⟨_, rfl⟩,
                fun hpart => (hpart hwhole).elim⟩
          | panics =>
              exact .inr ⟨bytes.length, .panicked, by rw [hwhole]; rfl, .inl rfl,
                fun hpart => (hpart hwhole).elim⟩
      | fails =>
          exact .inr ⟨bytes.length, .failed .flush, by rw [hwhole]; rfl, .inr ⟨_, rfl⟩,
            fun hpart => (hpart hwhole).elim⟩
      | panics =>
          exact .inr ⟨bytes.length, .panicked, by rw [hwhole]; rfl, .inl rfl,
            fun hpart => (hpart hwhole).elim⟩
  | fails =>
      refine .inr ⟨calls.wrote, .failed .write, ?_, .inr ⟨_, rfl⟩, fun _ => .inr rfl⟩
      rw [writeDurably, hwrite]
      rfl
  | panics =>
      refine .inr ⟨calls.wrote, .panicked, ?_, .inl rfl, fun _ => .inl rfl⟩
      rw [writeDurably, hwrite]
      rfl

/-- The answer of an append whose write, flush or sync did not succeed. -/
def Appended.Broken (path : Path) (answer : Appended Path) : Prop :=
  answer = .panicked ∨ ∃ step, answer = .error (.io path step)

/-- The answer of an append whose write did not succeed. -/
def Appended.WriteBroken (path : Path) (answer : Appended Path) : Prop :=
  answer = .panicked ∨ answer = .error (.io path .write)

/-- Everything an append can do. -/
theorem append_cases (library : Library) (path : Path) (state : LogState) (tsMs : UInt64)
    (kind : String) (payload : Payload) (calls : WriteCalls) {event : Event}
    (hevent : event = ⟨tsMs, state.nextSeq, kind, payload⟩) :
    (state.file = false ∧
      state.append library path tsMs kind payload calls = ([], state, .error (.poisoned path))) ∨
    (state.file = true ∧ ¬event.Fits library ∧
      state.append library path tsMs kind payload calls =
        ([], state, .error (.eventTooLong path ((event.line library).length - 1)))) ∨
    (state.file = true ∧ event.Fits library ∧ ∃ count answer,
      state.append library path tsMs kind payload calls =
        ((event.line library).take count, { state with file := false }, answer) ∧
      answer.Broken path ∧
      ((event.line library).take count ≠ event.line library → answer.WriteBroken path)) ∨
    (state.file = true ∧ event.Fits library ∧
      state.append library path tsMs kind payload calls =
        (event.line library,
          if state.nextSeq.toNat + 1 < 2 ^ 64 then { state with nextSeq := state.nextSeq + 1 }
          else { state with file := false }, .ok state.nextSeq)) := by
  subst hevent
  cases hfile : state.file with
  | false =>
      refine .inl ⟨rfl, ?_⟩
      rw [LogState.append, hfile]
      rfl
  | true =>
      refine .inr ?_
      by_cases hfits : (Event.mk tsMs state.nextSeq kind payload).Fits library
      · refine .inr ?_
        have hlength : ¬maxLineBytes <
            ((Event.mk tsMs state.nextSeq kind payload).line library).length - 1 := not_lt.mpr hfits
        simp only [LogState.append, hfile, Bool.not_true, Bool.false_eq_true, if_false, hlength]
        rcases writeDurably_cases calls ((Event.mk tsMs state.nextSeq kind payload).line library)
          with hdone | ⟨count, written, hwritten, hbroken, hpart⟩
        · refine .inr ⟨trivial, hfits, ?_⟩
          rw [hdone]
          simp only
          split <;> rfl
        · refine .inl ⟨trivial, hfits, count, ?_⟩
          rw [hwritten]
          rcases hbroken with rfl | ⟨step, rfl⟩
          · exact ⟨.panicked, rfl, .inl rfl, fun _ => .inl rfl⟩
          · refine ⟨.error (.io path step), rfl, .inr ⟨step, rfl⟩, fun hless => .inr ?_⟩
            rcases hpart hless with hpanicked | hwrite
            · cases hpanicked
            · cases hwrite
              rfl
      · refine .inl ⟨rfl, hfits, ?_⟩
        have hlength : maxLineBytes <
            ((Event.mk tsMs state.nextSeq kind payload).line library).length - 1 := not_le.mp hfits
        simp only [LogState.append, hfile, Bool.not_true, Bool.false_eq_true, if_false, hlength,
          if_true]

/-- What an append that answers `Ok` adds to the file. -/
theorem append_ok {state next : LogState} {tsMs seq : UInt64} {kind : String} {payload : Payload}
    {calls : WriteCalls} {bytes : List UInt8}
    (happend : state.append library path tsMs kind payload calls = (bytes, next, .ok seq)) :
    seq = state.nextSeq ∧ (Event.mk tsMs seq kind payload).Fits library ∧
      bytes = (Event.mk tsMs seq kind payload).line library := by
  rcases append_cases library path state tsMs kind payload calls rfl with
    ⟨-, hcase⟩ | ⟨-, -, hcase⟩ | ⟨-, -, count, answer, hcase, hbroken, -⟩ | ⟨-, hfits, hcase⟩
  · rw [hcase] at happend
    cases happend
  · rw [hcase] at happend
    cases happend
  · rw [hcase] at happend
    rcases hbroken with rfl | ⟨step, rfl⟩ <;> cases happend
  · rw [hcase] at happend
    obtain ⟨rfl, hrest⟩ := Prod.mk.inj happend
    obtain ⟨-, hseq⟩ := Prod.mk.inj hrest
    cases hseq
    exact ⟨rfl, hfits, rfl⟩

/-- An append that nothing stops is acknowledged. -/
theorem append_succeed {tsMs seq : UInt64} {kind : String} {payload : Payload}
    (hfits : (Event.mk tsMs seq kind payload).Fits library) :
    (LogState.mk true seq).append library path tsMs kind payload .succeed =
      ((Event.mk tsMs seq kind payload).line library,
        if seq.toNat + 1 < 2 ^ 64 then ⟨true, seq + 1⟩ else ⟨false, seq⟩, .ok seq) := by
  have hlength : ¬maxLineBytes < ((Event.mk tsMs seq kind payload).line library).length - 1 :=
    not_lt.mpr hfits
  simp only [LogState.append, Bool.not_true, Bool.false_eq_true, if_false, hlength, writeDurably,
    WriteCalls.succeed, Call.written, if_true]
  split <;> rfl

theorem scanLines_nil : scanLines library path (fun _ => false) [] = .ok ([], none) := by
  rw [scanLines, scanFrom, if_neg Bool.false_ne_true, if_pos rfl]

theorem readEvents_nil : readEvents library path [] = .ok [] := by
  rw [readEvents, scanLines_nil]
  rfl

theorem validate_nil : Store.validate library path .succeed [] = .ok 1 := by
  rw [validate_succeed scanLines_nil]
  rfl

end Plasmosome.SessionLog
