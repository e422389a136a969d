import Plasmosome.Foundation.Machine
import Plasmosome.Paging.Page

/-!
# The caller's half of paging

The assembler checks each page against the rules and against the pages before
it, and yields the decoded account only when every byte arrived and matches the
stated length and hash.
-/

namespace Plasmosome.Paging

open Foundation Backend

/-- Why a page or a finished account was refused. -/
inductive AssemblyFault where
  | page (fault : PageFault)
  | firstPageNotAtZero (offset : UInt64)
  | snapshotChanged (expected found : UInt64)
  | totalChanged (expected found : UInt64)
  | hashChanged
  | outOfOrder (expected found : UInt64)
  | afterComplete
  | incomplete (received : UInt64) (total : Option UInt64)
  | hashMismatch (stated computed : Digest)
  | whitespace
  | decode (detail : String)
deriving DecidableEq

/-- What the accepted pages stated. -/
structure Started where
  snapshot : UInt64
  total : UInt64
  sha256 : Digest
  complete : Bool
deriving DecidableEq

structure PageAssembler where
  started : Option Started
  buffer : List UInt8
deriving DecidableEq

def isAsciiWhitespace (byte : UInt8) : Bool :=
  byte = 0x20 || byte = 0x09 || byte = 0x0A || byte = 0x0C || byte = 0x0D

namespace PageAssembler

def new : PageAssembler := ⟨none, []⟩

def received (assembler : PageAssembler) : UInt64 := UInt64.ofNat assembler.buffer.length

/-- The cursor to request next, or `none` once the completing page was accepted. -/
def next (assembler : PageAssembler) : Option PageCursor :=
  match assembler.started with
  | none => some .start
  | some started =>
      if started.complete then none else some ⟨started.snapshot, assembler.received⟩

/-- Checks a page against the pages before it. -/
def follows (assembler : PageAssembler) (started : Started) (page : ObservationPage) :
    Except AssemblyFault Unit :=
  if started.complete then .error .afterComplete
  else if page.snapshot ≠ started.snapshot then
    .error (.snapshotChanged started.snapshot page.snapshot)
  else if page.total ≠ started.total then .error (.totalChanged started.total page.total)
  else if page.sha256 ≠ started.sha256 then .error .hashChanged
  else if page.offset ≠ assembler.received then
    .error (.outOfOrder assembler.received page.offset)
  else .ok ()

/-- The checks of `accept`, in order. -/
def admits (assembler : PageAssembler) (page : ObservationPage) : Except AssemblyFault Unit :=
  match page.check with
  | .error fault => .error (.page fault)
  | .ok () =>
      match assembler.started with
      | none => if page.offset ≠ 0 then .error (.firstPageNotAtZero page.offset) else .ok ()
      | some started => assembler.follows started page

/-- Keeps the bytes of a page that passes every check. -/
def accept (assembler : PageAssembler) (page : ObservationPage) :
    Except AssemblyFault Unit × PageAssembler :=
  match assembler.admits page with
  | .error fault => (.error fault, assembler)
  | .ok () =>
      (.ok (),
        { buffer := assembler.buffer ++ page.bytes
          started := some ⟨page.snapshot, page.total, page.sha256, page.complete⟩ })

/-- Yields the decoded account once every byte arrived. The hash and the decoder are given. -/
def finish {Account : Type} (sha256 : List UInt8 → Digest)
    (decode : List UInt8 → Except String Account) (assembler : PageAssembler) :
    Except AssemblyFault Account :=
  match assembler.started.filter fun started => assembler.received = started.total with
  | none => .error (.incomplete assembler.received (assembler.started.map Started.total))
  | some started =>
      let computed := sha256 assembler.buffer
      if computed ≠ started.sha256 then .error (.hashMismatch started.sha256 computed)
      else if (assembler.buffer.head?.toList ++ assembler.buffer.getLast?.toList).any
          isAsciiWhitespace then .error .whitespace
      else (decode assembler.buffer).mapError .decode

/-- An assembler driven by the pages that arrive. -/
def machine : Machine PageAssembler ObservationPage (Except AssemblyFault Unit) := ⟨accept⟩

end PageAssembler

end Plasmosome.Paging
