import Plasmosome.Foundation.Utf8
import Plasmosome.Runtime.LoadName

/-!
# Mach-O images

An image is read by index: the fat table, the header, and the load commands one
behind the other. An index out of range or a sum past the machine's word would
end the process, so both are outcomes here; every other fault refuses the image.
-/

namespace Plasmosome.Runtime

open Foundation

/-- How a reading ends without a value. -/
inductive Halt (ε : Type) where
  | panic
  | refused (error : ε)

def Halt.map {ε ε' : Type} (wrap : ε → ε') : Halt ε → Halt ε'
  | .panic => .panic
  | .refused error => .refused (wrap error)

abbrev Reading (ε α : Type) : Type := Except (Halt ε) α

section Bytes

variable {ε : Type}

def refuse {α : Type} (error : ε) : Reading ε α := .error (.refused error)

/-- The number some bytes spell, the first byte the lowest. -/
def little : List UInt8 → Nat
  | [] => 0
  | byte :: rest => byte.toNat + 256 * little rest

/-- The bytes from one index to another, when both are in range. -/
def slice? (bytes : List UInt8) (start stop : Nat) : Option (List UInt8) :=
  if start ≤ stop ∧ stop ≤ bytes.length then some ((bytes.drop start).take (stop - start)) else none

def slice (bytes : List UInt8) (start stop : Nat) : Reading ε (List UInt8) :=
  match slice? bytes start stop with
  | some part => .ok part
  | none => .error .panic

end Bytes

inductive LoadKind where
  | load
  | weak
  | reexport
  | lazy
  | upward
deriving DecidableEq, Repr

structure CpuType where
  value : UInt32
deriving DecidableEq, Repr

structure MachOImage where
  names : List (LoadKind × String) := []
  rpaths : List String := []
  hasDyldEnvironment : Bool := false
  dylinkers : List String := []
  requiredUnknown : List UInt32 := []
deriving DecidableEq, Repr

/-! ## The fat table -/

def malformed (at_ : Nat) (what : String) : ClosureFault := .malformed (UInt64.ofNat at_) what

def loadKind (cmd : UInt32) : Option LoadKind :=
  if cmd = 0xc then some .load
  else if cmd = 0x80000018 then some .weak
  else if cmd = 0x8000001f then some .reexport
  else if cmd = 0x20 then some .lazy
  else if cmd = 0x80000023 then some .upward
  else none

def rpathCommand : UInt32 := 0x8000001c

def dylinkerCommand : UInt32 := 0xe

def environmentCommand : UInt32 := 0x27

end Plasmosome.Runtime
