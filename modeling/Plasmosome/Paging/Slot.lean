import Plasmosome.Foundation.Machine
import Plasmosome.Paging.Page

/-!
# The responder's half of paging

A slot holds at most one frozen capture and serves it in pages until its
deadline. It reads no clock: every reading is given.
-/

namespace Plasmosome.Paging

open Foundation Backend

/-- Why a responder refused a capture or a page. -/
inductive PagingError where
  | invalidCursor (snapshot offset : UInt64)
  | unknownSnapshot (snapshot : UInt64)
  | scopeChanged (snapshot : UInt64)
  | offsetOutOfRange (offset total : UInt64)
  | expired
  | snapshotsExhausted
  | badPageSize (pageBytes : Nat)
  | encode (detail : String)
deriving DecidableEq, Repr

/-- The error code of the wire protocol. -/
def PagingError.code : PagingError → Int
  | .invalidCursor .. | .unknownSnapshot _ | .scopeChanged _ | .offsetOutOfRange .. => -32602
  | .expired | .snapshotsExhausted | .badPageSize _ | .encode _ => -32603

/-- Encodes a value and hashes the bytes. The encoder and the hash are given. -/
def FrozenAccount.freeze {Value : Type} (sha256 : List UInt8 → Digest)
    (encode : Value → Except String AccountBytes) (value : Value) :
    Except PagingError FrozenAccount :=
  match encode value with
  | .error detail => .error (.encode detail)
  | .ok bytes => .ok (.hashed sha256 bytes)

/-- Why a capture returned no page: a paging rule, or the server's collection. -/
inductive CaptureError (Failure : Type) where
  | paging (error : PagingError)
  | collect (failure : Failure)
deriving DecidableEq, Repr

structure Capture (Scope Instant : Type) where
  snapshot : UInt64
  scope : Scope
  account : FrozenAccount
  expires : Instant

def Capture.pageAt {Scope Instant : Type} (capture : Capture Scope Instant) (offset : UInt64)
    (pageBytes : Nat) : ObservationPage :=
  Paging.pageAt capture.snapshot capture.account offset pageBytes

structure CaptureSlot (Scope Instant : Type) where
  pageBytes : Nat
  lastSnapshot : UInt64
  current : Option (Capture Scope Instant)
  ended : Option (UInt64 × Scope)
  sized : 1 ≤ pageBytes ∧ pageBytes ≤ maxPageBytes

namespace CaptureSlot

variable {Scope Instant Failure : Type}

def new : CaptureSlot Scope Instant where
  pageBytes := maxPageBytes
  lastSnapshot := 0
  current := none
  ended := none
  sized := by decide

def withPageBytes (pageBytes : Nat) : Except PagingError (CaptureSlot Scope Instant) :=
  if hsized : 1 ≤ pageBytes ∧ pageBytes ≤ maxPageBytes then
    .ok { CaptureSlot.new with pageBytes, sized := hsized }
  else .error (.badPageSize pageBytes)

/-- Drops the capture, if any, and remembers which one it was. -/
def «end» (slot : CaptureSlot Scope Instant) : CaptureSlot Scope Instant :=
  match slot.current with
  | none => slot
  | some held => { slot with current := none, ended := some (held.snapshot, held.scope) }

def discard (slot : CaptureSlot Scope Instant) : CaptureSlot Scope Instant := slot.end

variable [LinearOrder Instant]

/-- Answers a zero/zero request. The clock reads `before` and `after` around the collection. -/
def capture (slot : CaptureSlot Scope Instant) (scope : Scope) (expires before after : Instant)
    (collected : Except Failure FrozenAccount) :
    Except (CaptureError Failure) ObservationPage × CaptureSlot Scope Instant :=
  let slot := { slot with current := none, ended := none }
  if before ≥ expires then (.error (.paging .expired), slot)
  else
    match collected with
    | .error failure => (.error (.collect failure), slot)
    | .ok account =>
        if after ≥ expires then (.error (.paging .expired), slot)
        else
          match checkedAdd slot.lastSnapshot 1 with
          | none => (.error (.paging .snapshotsExhausted), slot)
          | some snapshot =>
              let capture : Capture Scope Instant := ⟨snapshot, scope, account, expires⟩
              (.ok (capture.pageAt 0 slot.pageBytes),
                { slot with lastSnapshot := snapshot, current := some capture })

/-- Answers a request for a page of the capture the slot holds. -/
def page [DecidableEq Scope] (slot : CaptureSlot Scope Instant) (scope : Scope)
    (cursor : PageCursor) (requestExpires now : Instant) :
    Except PagingError ObservationPage × CaptureSlot Scope Instant :=
  if cursor.snapshot = 0 then (.error (.invalidCursor cursor.snapshot cursor.offset), slot)
  else
    match slot.current.filter fun held => held.snapshot = cursor.snapshot with
    | none =>
        match slot.ended with
        | some (ended, held) =>
            if ended = cursor.snapshot ∧ held ≠ scope then
              (.error (.scopeChanged cursor.snapshot), slot)
            else if ended = cursor.snapshot then (.error .expired, slot)
            else (.error (.unknownSnapshot cursor.snapshot), slot)
        | none => (.error (.unknownSnapshot cursor.snapshot), slot)
    | some capture =>
        if capture.scope ≠ scope then (.error (.scopeChanged cursor.snapshot), slot)
        else
          let capture := { capture with expires := min capture.expires requestExpires }
          let slot := { slot with current := some capture }
          if now ≥ capture.expires then (.error .expired, slot.end)
          else if cursor.offset ≥ capture.account.total then
            -- The request named this capture, so its deadline counts all the same.
            (.error (.offsetOutOfRange cursor.offset capture.account.total), slot)
          else (.ok (capture.pageAt cursor.offset slot.pageBytes), slot)

/-- Drops the capture if the reading is at or past its deadline. -/
def expire (slot : CaptureSlot Scope Instant) (now : Instant) : CaptureSlot Scope Instant :=
  if slot.current.any fun held => now ≥ held.expires then slot.end else slot

end CaptureSlot

/-! ## Runs of slot calls -/

/-- A call of one slot, with every reading of the clock and the result of the collection. -/
inductive SlotCall (Scope Instant Failure : Type) where
  | capture (scope : Scope) (expires before after : Instant)
      (collected : Except Failure FrozenAccount)
  | page (scope : Scope) (cursor : PageCursor) (requestExpires now : Instant)
  | expire (now : Instant)
  | discard

inductive SlotReply (Failure : Type) where
  | capture (result : Except (CaptureError Failure) ObservationPage)
  | page (result : Except PagingError ObservationPage)
  | done

/-- The page a reply carries, if it carries one. -/
def SlotReply.page? {Failure : Type} : SlotReply Failure → Option ObservationPage
  | .capture result => result.toOption
  | .page result => result.toOption
  | .done => none

namespace CaptureSlot

variable {Scope Instant Failure : Type} [LinearOrder Instant] [DecidableEq Scope]

def step (slot : CaptureSlot Scope Instant) :
    SlotCall Scope Instant Failure → SlotReply Failure × CaptureSlot Scope Instant
  | .capture scope expires before after collected =>
      (slot.capture scope expires before after collected).map .capture id
  | .page scope cursor requestExpires now =>
      (slot.page scope cursor requestExpires now).map .page id
  | .expire now => (.done, slot.expire now)
  | .discard => (.done, slot.discard)

def machine (Scope Instant Failure : Type) [LinearOrder Instant] [DecidableEq Scope] :
    Machine (CaptureSlot Scope Instant) (SlotCall Scope Instant Failure) (SlotReply Failure) :=
  ⟨step⟩

end CaptureSlot

end Plasmosome.Paging
