import Plasmosome.Foundation.Windows
import Plasmosome.Foundation.Words
import Plasmosome.Foundation.Checks
import Plasmosome.Foundation.Utf8
import Plasmosome.Membrane.Hello

/-!
# The audit of an initramfs

A newc archive is read entry by entry from offset 0 to its trailer. Each entry is
judged against those before it, and the archive has to hold an executable `init`
and the expected guest policy. Sums and differences are those of 64 bits, where one
that does not fit panics.
-/

namespace Plasmosome.Membrane.Initramfs

open Foundation

/-- What an accepted archive holds. -/
structure InitramfsBinding where
  initSize : Nat
  initDigest : Digest
  policyDigest : Digest
  entries : Nat
deriving DecidableEq

/-- Why an archive is refused. -/
inductive InitramfsRefusal where
  | notNewc (offset : Nat)
  | badHeaderField (offset : Nat) (field : String)
  | nonzeroCheck (offset : Nat)
  | badName (offset : Nat) (reason : String)
  | duplicateEntry (name : List Char)
  | symlinkEntry (name : List Char)
  | unsupportedType (name : List Char) (mode : UInt32)
  | hardLink (name : List Char) (nlink : UInt32)
  | missingParent (name : List Char)
  | truncated (offset : Nat)
  | nonzeroPadding (offset : Nat)
  | dataAfterTrailer (offset : Nat)
  | missingTrailer
  | missingInit
  | initNotExecutable (mode : UInt32)
  | initEmpty
  | missingGuestPolicy
  | guestPolicyMismatch (expected actual : Digest)
deriving DecidableEq

/-- The offset a refusal names, if it names one. -/
def InitramfsRefusal.offset? : InitramfsRefusal → Option Nat
  | .notNewc offset | .badHeaderField offset _ | .nonzeroCheck offset | .badName offset _
  | .truncated offset | .nonzeroPadding offset | .dataAfterTrailer offset => some offset
  | _ => none

/-- Why an audit ends without a binding. -/
inductive Stop where
  | panicked
  | refused (refusal : InitramfsRefusal)
deriving DecidableEq

abbrev Audit := Except Stop

def refuse {α : Type} (refusal : InitramfsRefusal) : Audit α := .error (.refused refusal)

/-- A number that has to fit 64 bits. -/
def word : Option Nat → Audit Nat
  | some value => .ok value
  | none => .error .panicked

/-! ## Bytes -/

def MAGIC : List UInt8 := [48, 55, 48, 55, 48, 49]

def HEADER_BYTES : Nat := 110

def PATH_MAX : Nat := 4096

def TRAILER : List Char := ['T', 'R', 'A', 'I', 'L', 'E', 'R', '!', '!', '!']

def INIT_NAME : List Char := ['i', 'n', 'i', 't']

def POLICY_NAME : List Char := "plasmosome/guest-policy".toList

def FIELDS : List String :=
  ["ino", "mode", "uid", "gid", "nlink", "mtime", "filesize", "devmajor", "devminor", "rdevmajor",
    "rdevminor", "namesize", "check"]

def TYPE_BITS : UInt32 := 0o170000
def REGULAR : UInt32 := 0o100000
def DIRECTORY : UInt32 := 0o040000
def SYMLINK : UInt32 := 0o120000

def take (bytes : List UInt8) (start length : Nat) : Audit (List UInt8) :=
  match Words.add start length with
  | some stop =>
      if stop ≤ bytes.length then .ok (window bytes start stop) else refuse (.truncated start)
  | none => refuse (.truncated start)

def nextMultipleOf (value factor : Nat) : Option Nat :=
  if value % factor = 0 then some value else Words.add value (factor - value % factor)

def padded (bytes : List UInt8) (start : Nat) : Audit Nat := do
  let stop ← word (nextMultipleOf start 4)
  let gap ← word (Words.sub stop start)
  let zeros ← take bytes start gap
  match zeros.findIdx? (· ≠ 0) with
  | some index => do
      let offset ← word (Words.add start index)
      refuse (.nonzeroPadding offset)
  | none => .ok stop

/-- The value of an ASCII hexadecimal digit of either case. -/
def toDigit16 (byte : UInt8) : Option UInt32 :=
  if 48 ≤ byte ∧ byte ≤ 57 then some (byte - 48).toUInt32
  else if 97 ≤ byte ∧ byte ≤ 102 then some (byte - 97 + 10).toUInt32
  else if 65 ≤ byte ∧ byte ≤ 70 then some (byte - 65 + 10).toUInt32
  else none

def hexField (text : List UInt8) : Option UInt32 :=
  text.foldlM (fun value byte => (toDigit16 byte).map fun digit => (value <<< 4) ||| digit) 0

/-! ## Entries -/

structure Entry where
  start : Nat
  mode : UInt32
  nlink : UInt32
  name : List Char
  data : List UInt8
  stop : Nat
deriving DecidableEq

/-- The eight bytes of a header from one on. -/
def fieldText (header : List UInt8) (first : Nat) : Option (List UInt8) :=
  if first + 8 ≤ header.length then some (window header first (first + 8)) else none

/-- The header's field of an index, by the name that a refusal gives it. -/
def readField (header : List UInt8) (start : Nat) (field : String × Nat) : Audit UInt32 :=
  match (fieldText header (MAGIC.length + field.2 * 8)).bind hexField with
  | some value => .ok value
  | none => refuse (.badHeaderField start field.1)

def checkMagic (bytes : List UInt8) (start : Nat) : Audit Unit :=
  let rest := bytes.drop start
  if rest = [] then refuse .missingTrailer
  else if MAGIC.length ≤ rest.length then
    if rest.take MAGIC.length = MAGIC then .ok () else refuse (.notNewc start)
  else if rest.isPrefixOf MAGIC then refuse (.truncated start)
  else refuse (.notNewc start)

/-- The name in a name's bytes, which end in their only NUL. -/
def readName (start : Nat) (raw : List UInt8) : Audit (List Char) :=
  if raw.getLast? = some 0 then
    if 0 ∈ raw.dropLast then refuse (.badName start "holds a NUL before its end")
    else
      match Utf8.decode raw.dropLast 0 with
      | .ok name => .ok name
      | .error _ => refuse (.badName start "is not UTF-8")
  else refuse (.badName start "does not end in NUL")

/-- The name, the data and the end of an entry whose header says these sizes. -/
def readBody (bytes : List UInt8) (start : Nat) (mode nlink : UInt32) (filesize namesize : Nat) :
    Audit Entry := do
  let nameAt ← word (Words.add start HEADER_BYTES)
  let raw ← take bytes nameAt namesize
  let name ← readName start raw
  let afterName ← word (Words.add nameAt namesize)
  let dataAt ← padded bytes afterName
  let data ← take bytes dataAt filesize
  let afterData ← word (Words.add dataAt data.length)
  let stop ← padded bytes afterData
  .ok ⟨start, mode, nlink, name, data, stop⟩

def readEntry (bytes : List UInt8) (start : Nat) : Audit Entry := do
  checkMagic bytes start
  let header ← take bytes start HEADER_BYTES
  let fields ← FIELDS.zipIdx.mapM (readField header start)
  match fields with
  | [_, mode, _, _, nlink, _, filesize, _, _, _, _, namesize, check] =>
      if check ≠ 0 then refuse (.nonzeroCheck start)
      else if namesize.toNat < 2 then refuse (.badName start "is empty")
      else if namesize.toNat > PATH_MAX then refuse (.badName start "is longer than PATH_MAX")
      else readBody bytes start mode nlink filesize.toNat namesize.toNat
  | _ => .error .panicked

/-! ## Judging -/

/-- The names seen so far, and whether each is a directory's. -/
abbrev Seen := List (List Char × Bool)

def Seen.insert (seen : Seen) (name : List Char) (directory : Bool) : Seen :=
  (name, directory) :: List.filter (fun entry => entry.1 != name) seen

/-- What stands before the last slash of a name. -/
def parentOf (name : List Char) : Option (List Char) :=
  match name.reverse.dropWhile (· != '/') with
  | [] => none
  | _ :: before => some before.reverse

def nameFault (name : List Char) : Option String :=
  if name.head? = some '/' then some "is absolute"
  else if name.getLast? = some '/' then some "ends in /"
  else if (name.splitOn '/').any List.isEmpty then some "has an empty part"
  else if (name.splitOn '/').any (fun part => part == ['.'] || part == ['.', '.']) then
    some "has a . or .. part"
  else none

def judgeName (entry : Entry) : Audit Unit :=
  match nameFault entry.name with
  | some reason => refuse (.badName entry.start reason)
  | none => .ok ()

def judgeType (entry : Entry) : Audit Unit :=
  let kind := entry.mode &&& TYPE_BITS
  if kind = REGULAR then
    if entry.nlink ≠ 1 then refuse (.hardLink entry.name entry.nlink) else .ok ()
  else if kind = DIRECTORY then
    if entry.data ≠ [] then refuse (.badHeaderField entry.start "filesize") else .ok ()
  else if kind = SYMLINK then refuse (.symlinkEntry entry.name)
  else refuse (.unsupportedType entry.name entry.mode)

def judgeParent (entry : Entry) (seen : Seen) : Audit Unit :=
  match parentOf entry.name with
  | some parent =>
      if List.lookup parent seen ≠ some true then refuse (.missingParent entry.name) else .ok ()
  | none => .ok ()

def judge (entry : Entry) (seen : Seen) : Audit Unit := do
  judgeName entry
  judgeType entry
  judgeParent entry seen
  if (List.lookup entry.name seen).isSome then refuse (.duplicateEntry entry.name) else .ok ()

/-! ## The audit -/

section Audit

variable (sha256 : List UInt8 → Digest)

def bindPolicy (init : Option (UInt32 × List UInt8)) (policy : Option (List UInt8))
    (expected : Digest) (entries : Nat) : Audit InitramfsBinding :=
  match init with
  | none => refuse .missingInit
  | some (mode, data) =>
      if mode &&& 0o111 = 0 then refuse (.initNotExecutable mode)
      else if data = [] then refuse .initEmpty
      else
        match policy with
        | none => refuse .missingGuestPolicy
        | some policyData =>
            if sha256 policyData ≠ expected then
              refuse (.guestPolicyMismatch expected (sha256 policyData))
            else .ok ⟨data.length, sha256 data, sha256 policyData, entries⟩

/-- What the loop keeps of the entries it passed. -/
structure Passed where
  seen : Seen
  init : Option (UInt32 × List UInt8)
  policy : Option (List UInt8)

def Passed.keep (passed : Passed) (entry : Entry) : Passed :=
  let regular := decide (entry.mode &&& TYPE_BITS = REGULAR)
  { seen := passed.seen.insert entry.name (!regular)
    init := if entry.name = INIT_NAME ∧ regular then some (entry.mode, entry.data) else passed.init
    policy := if entry.name = POLICY_NAME ∧ regular then some entry.data else passed.policy }

/-- The end of the audit at an entry that is named as the trailer is. -/
def auditTrailer (bytes : List UInt8) (expected : Digest) (passed : Passed) (entry : Entry) :
    Audit InitramfsBinding :=
  if entry.mode &&& TYPE_BITS = SYMLINK then refuse (.symlinkEntry entry.name)
  else if entry.data ≠ [] then refuse (.badHeaderField entry.start "filesize")
  else
    match (bytes.drop entry.stop).findIdx? (· ≠ 0) with
    | some index => do
        let offset ← word (Words.add entry.stop index)
        refuse (.dataAfterTrailer offset)
    | none => bindPolicy sha256 passed.init passed.policy expected passed.seen.length

end Audit

end Plasmosome.Membrane.Initramfs
