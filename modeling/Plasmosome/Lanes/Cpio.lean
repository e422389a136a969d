import Plasmosome.Membrane.InitramfsFormat
import Plasmosome.Serde.Value

/-!
# The lanes' newc archives

Entries are written as an uncompressed newc archive, and read back by a cursor that
takes the next bytes. Padding is counted within an entry, and the entry that is named
as the trailer ends the archive. A place in the archive is a number of 64 bits.
-/

namespace Plasmosome.Lanes.Cpio

open Foundation
open Membrane.Initramfs (hexNumber)

def S_IFREG : UInt32 := 0o100000
def S_IFDIR : UInt32 := 0o040000

/-- One member of a newc archive. -/
structure Entry where
  name : List Char
  mode : UInt32
  uid : UInt32
  gid : UInt32
  rdevMajor : UInt32
  rdevMinor : UInt32
  data : List UInt8
deriving DecidableEq

/-- Why an archive could not be written or read. -/
structure CpioError where
  text : List Char
deriving DecidableEq

/-- How a walk over an archive ends without its entries. -/
inductive Stop where
  | panicked
  | failed (error : CpioError)
deriving DecidableEq

def MAGIC : List UInt8 := [48, 55, 48, 55, 48, 49]

def HEADER : Nat := 110

def TRAILER : List Char := ['T', 'R', 'A', 'I', 'L', 'E', 'R', '!', '!', '!']

def padding (length : Nat) : Nat := (4 - length % 4) % 4

def decimal (number : Nat) : List Char := (toString number).toList

/-- The value of an option, or the error that its absence is. -/
def okOr {ε α : Type} (value : Option α) (error : ε) : Except ε α :=
  match value with
  | some value => .ok value
  | none => .error error

@[simp] theorem okOr_eq_ok {ε α : Type} {option : Option α} {error : ε} {value : α} :
    okOr option error = .ok value ↔ option = some value := by
  cases option <;> simp [okOr]

/-! ## Writing -/

/-- A length as a number of 32 bits, if it fits. -/
def toU32 (value : Nat) : Option UInt32 :=
  if value < 2 ^ 32 then some (UInt32.ofNat value) else none

def checkName (name : List Char) : Except CpioError Unit :=
  let plain := (name.splitOn '/').all fun part =>
    !part.isEmpty && part != ['.'] && part != ['.', '.']
  if !plain || name.contains '\x00' || name == TRAILER then
    .error ⟨"`".toList ++ name ++
      "` is not a relative name of plain parts: no `.`, `..`, empty part or trailing `/`".toList⟩
  else .ok ()

/-- The eight lower-case hexadecimal digits of a field, the highest first. -/
def hexBytes (field : UInt32) : List UInt8 :=
  [7, 6, 5, 4, 3, 2, 1, 0].map fun place =>
    UInt8.ofNat (Serde.hexDigit (field.toNat / 16 ^ place % 16)).toNat

def pushHeader (out : List UInt8) (fields : List UInt32) : List UInt8 :=
  fields.foldl (fun out field => out ++ hexBytes field) (out ++ MAGIC)

def pushMember (out : List UInt8) (ino : UInt32) (entry : Entry) (nlink : UInt32) :
    Except CpioError (List UInt8) := do
  let tooBig : String → CpioError := fun what =>
    ⟨"`".toList ++ entry.name ++ "`: ".toList ++ what.toList ++ " does not fit newc".toList⟩
  let size ← okOr (toU32 entry.data.length) (tooBig "its size")
  let nameSize ← okOr (toU32 (Utf8.size entry.name + 1)) (tooBig "its name")
  let out := pushHeader out [ino, entry.mode, entry.uid, entry.gid, nlink, 0, size, 0, 0,
    entry.rdevMajor, entry.rdevMinor, nameSize, 0]
  let out := out ++ Utf8.encode entry.name
  let out := out ++ [0]
  let out := out ++ List.replicate (padding (HEADER + Utf8.size entry.name + 1)) 0
  let out := out ++ entry.data
  .ok (out ++ List.replicate (padding entry.data.length) 0)

/-- The entries from an index on, after those whose names were seen. -/
def writeEntries (seen : List (List Char)) (index : Nat) (out : List UInt8) :
    List Entry → Except CpioError (List UInt8)
  | [] => .ok out
  | entry :: rest => do
      checkName entry.name
      if entry.name ∈ seen then
        .error ⟨"`".toList ++ entry.name ++ "` appears more than once".toList⟩
      else do
        let nlink := if entry.mode &&& 0o170000 = S_IFDIR then 2 else 1
        let ino ← okOr (toU32 (index + 1)) ⟨"too many entries for newc".toList⟩
        let out ← pushMember out ino entry nlink
        writeEntries (entry.name :: seen) (index + 1) out rest

def trailer : Entry := ⟨TRAILER, 0, 0, 0, 0, 0, []⟩

def writeNewc (entries : List Entry) : Except CpioError (List UInt8) := do
  let out ← writeEntries [] 0 [] entries
  pushMember out 0 trailer 1

/-! ## Reading -/

abbrev Walk := Except Stop

def fail {α : Type} (text : List Char) : Walk α := .error (.failed ⟨text⟩)

@[simp] theorem fail_ne_ok {α : Type} (text : List Char) (value : α) :
    fail text = .ok value ↔ False := by
  simp [fail]

/-- A number that has to fit 64 bits. -/
def word (number : Option Nat) : Walk Nat := okOr number .panicked

structure Cursor where
  bytes : List UInt8
  offset : Nat
deriving DecidableEq

namespace Cursor

def take (cursor : Cursor) (length : Nat) : Walk (List UInt8 × Cursor) := do
  let stop ← okOr ((Words.add cursor.offset length).filter (· ≤ cursor.bytes.length))
    (.failed ⟨"the archive ends early at byte ".toList ++ decimal cursor.offset⟩)
  -- A slice whose ends are not in order within the bytes panics.
  if cursor.offset ≤ stop ∧ stop ≤ cursor.bytes.length then
    .ok (window cursor.bytes cursor.offset stop, { cursor with offset := stop })
  else .error .panicked

/-- A number in base 16, which may have a plus sign. -/
def fromStrRadix16 (text : List UInt8) : Option UInt32 :=
  match text with
  | [] => none
  | [43] => none
  | 43 :: digits => (hexNumber digits).bind toU32
  | digits => (hexNumber digits).bind toU32

def field (cursor : Cursor) : Walk (UInt32 × Cursor) := do
  let (raw, cursor) ← cursor.take 8
  match Utf8.decode raw 0 with
  | .error _ => fail "a header field is not ASCII".toList
  | .ok text =>
      match fromStrRadix16 raw with
      | some value => .ok (value, cursor)
      | none => fail ("header field `".toList ++ text ++ "` is not hexadecimal".toList)

/-- The next fields, as many as a count. -/
def fields : Nat → Cursor → Walk (List UInt32 × Cursor)
  | 0, cursor => .ok ([], cursor)
  | count + 1, cursor => do
      let (value, cursor) ← cursor.field
      let (rest, cursor) ← fields count cursor
      .ok (value :: rest, cursor)

/-- The bytes without the one NUL that may end them. -/
def stripNul (raw : List UInt8) : List UInt8 :=
  if raw.getLast? = some 0 then raw.dropLast else raw

/-- The next entry, or nothing at the trailer, where the cursor stays after its name. -/
def readEntry (cursor : Cursor) : Walk (Option Entry × Cursor) := do
  let (magic, cursor) ← cursor.take 6
  if magic ≠ MAGIC then do
    let place ← word (Words.sub cursor.offset 6)
    fail ("no newc magic at byte ".toList ++ decimal place)
  else do
    let (fields, cursor) ← cursor.fields 13
    match fields with
    | [_, mode, uid, gid, _, _, size, _, _, rdevMajor, rdevMinor, nameSize, _] => do
        let (nameBytes, cursor) ← cursor.take nameSize.toNat
        match Utf8.decode (stripNul nameBytes) 0 with
        | .error _ => fail "a name is not UTF-8".toList
        | .ok name => do
            let laid ← word (Words.add HEADER nameSize.toNat)
            let (_, cursor) ← cursor.take (padding laid)
            if name = TRAILER then .ok (none, cursor)
            else do
              let (data, cursor) ← cursor.take size.toNat
              let (_, cursor) ← cursor.take (padding size.toNat)
              .ok (some ⟨name, mode, uid, gid, rdevMajor, rdevMinor, data⟩, cursor)
    | _ => .error .panicked

/-! ## Moving forward -/

/-- A later place of the same walk, still within the bytes. -/
structure Before (cursor next : Cursor) : Prop where
  bytes_eq : next.bytes = cursor.bytes
  offset_le : cursor.offset ≤ next.offset
  within : next.offset ≤ next.bytes.length

variable {cursor middle next : Cursor}

theorem Before.trans (hfirst : Before cursor middle) (hnext : Before middle next) :
    Before cursor next :=
  ⟨hnext.bytes_eq.trans hfirst.bytes_eq, hfirst.offset_le.trans hnext.offset_le, hnext.within⟩

theorem take_before {length : Nat} {part : List UInt8}
    (htake : cursor.take length = .ok (part, next)) :
    Before cursor next ∧ next.offset = cursor.offset + length := by
  simp only [take, bind_eq_ok, okOr_eq_ok, Option.filter_eq_some_iff, decide_eq_true_eq,
    Words.add, Option.ite_none_right_eq_some, Option.some.injEq] at htake
  obtain ⟨stop, ⟨⟨-, hstop⟩, hwithin⟩, htake⟩ := htake
  split at htake
  next hrange =>
    cases htake
    exact ⟨⟨rfl, hrange.1, hrange.2⟩, hstop.symm⟩
  next => cases htake

theorem field_before {value : UInt32} (hfield : cursor.field = .ok (value, next)) :
    Before cursor next := by
  simp only [field, bind_eq_ok, Prod.exists] at hfield
  obtain ⟨raw, middle, htake, hread⟩ := hfield
  split at hread
  next => simp at hread
  next =>
    split at hread
    next =>
      cases hread
      exact (take_before htake).1
    next => simp at hread

theorem fields_before {count : Nat} {values : List UInt32}
    (hwithin : cursor.offset ≤ cursor.bytes.length)
    (hfields : cursor.fields count = .ok (values, next)) : Before cursor next := by
  induction count generalizing cursor values with
  | zero =>
      cases hfields
      exact ⟨rfl, le_rfl, hwithin⟩
  | succ count ih =>
      simp only [fields, bind_eq_ok, Prod.exists] at hfields
      obtain ⟨value, middle, hfield, rest, after, hrest, hvalues⟩ := hfields
      cases hvalues
      have hfirst := field_before hfield
      exact hfirst.trans (ih hfirst.within hrest)

/-- An entry that is read takes bytes. -/
theorem readEntry_before {entry : Option Entry} (hread : cursor.readEntry = .ok (entry, next)) :
    Before cursor next ∧ cursor.offset < next.offset := by
  simp only [readEntry, bind_eq_ok, Prod.exists] at hread
  obtain ⟨magic, afterMagic, hmagic, hread⟩ := hread
  obtain ⟨hfirst, hsix⟩ := take_before hmagic
  suffices hrest : Before afterMagic next by
    have hle := hrest.offset_le
    exact ⟨hfirst.trans hrest, by omega⟩
  split at hread
  next => simp [bind_eq_ok] at hread
  next =>
    simp only [bind_eq_ok, Prod.exists] at hread
    obtain ⟨fields, afterFields, hfields, hread⟩ := hread
    have hheader := fields_before hfirst.within hfields
    split at hread
    next =>
      simp only [bind_eq_ok, Prod.exists] at hread
      obtain ⟨raw, afterName, hraw, hread⟩ := hread
      have hname := hheader.trans (take_before hraw).1
      split at hread
      next => simp at hread
      next =>
        simp only [bind_eq_ok, Prod.exists] at hread
        obtain ⟨laid, -, zeros, afterGap, hgap, hread⟩ := hread
        have hlaid := hname.trans (take_before hgap).1
        split at hread
        next =>
          cases hread
          exact hlaid
        next =>
          simp only [bind_eq_ok, Prod.exists] at hread
          obtain ⟨data, afterData, hdata, zeros, after, hzeros, hentry⟩ := hread
          cases hentry
          exact (hlaid.trans (take_before hdata).1).trans (take_before hzeros).1
    next => cases hread

end Cursor

/-- The entries up to the trailer, after those already read, and where the cursor stays. -/
def readFrom (cursor : Cursor) (entries : List Entry) : Walk (List Entry × Cursor) :=
  match _hread : cursor.readEntry with
  | .error stop => .error stop
  | .ok (none, next) => .ok (entries, next)
  | .ok (some entry, next) => readFrom next (entries ++ [entry])
termination_by cursor.bytes.length - cursor.offset
decreasing_by
  obtain ⟨hbefore, hforward⟩ := Cursor.readEntry_before _hread
  have hbytes := hbefore.bytes_eq
  have hwithin := hbefore.within
  rw [hbytes] at hwithin ⊢
  omega

def readNewc (bytes : List UInt8) : Walk (List Entry) :=
  (readFrom ⟨bytes, 0⟩ []).map Prod.fst

end Plasmosome.Lanes.Cpio
