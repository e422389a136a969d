import Plasmosome.Backend.Lifetime
import Plasmosome.Foundation.Instants

/-!
# The moment a lifetime ends

A bound is a deadline on the wall clock and one on the continuous clock of a boot
session, and has passed when either is reached. Signed arithmetic is checked against
128 bits: an operation answers `none` where a number does not fit.
-/

namespace Plasmosome.Backend.Lifetime

open Foundation

def nsPerMs : Nat := 1000000

/-- The host boot session a continuous reading belongs to. -/
structure BootSession where
  uuid : BitVec 128
deriving DecidableEq

/-- A reading of the continuous clock, or a deadline on it, within one boot session. -/
structure Continuous where
  boot : BootSession
  ns : UInt64
deriving DecidableEq

/-- One reading of the three clocks, taken together. -/
structure ClockReading where
  wall : WallMs
  continuous : Continuous
  wait : WaitInstant

structure Bound where
  notAfter : WallMs
  continuous : Continuous
deriving DecidableEq

namespace Bound

def passed (bound : Bound) (now : ClockReading) : Bool :=
  bound.notAfter.unixMs ≤ now.wall.unixMs ||
    (now.continuous.boot = bound.continuous.boot && bound.continuous.ns ≤ now.continuous.ns)

def remainingNs (bound : Bound) (now : ClockReading) : Option Int := do
  let wallMs ← I128.sub bound.notAfter.unixMs.toNat now.wall.unixMs.toNat
  let wall ← I128.mul wallMs nsPerMs
  if now.continuous.boot ≠ bound.continuous.boot then some wall
  else
    let left ← I128.sub bound.continuous.ns.toNat now.continuous.ns.toNat
    some (min wall left)

/-- Milliseconds left, rounded up. A negative rest counts as none. -/
def remainingMs (bound : Bound) (now : ClockReading) : Option UInt64 := do
  let left ← bound.remainingNs now
  let ms := (left.toNat + (nsPerMs - 1)) / nsPerMs
  some (if ms < UInt64.size then UInt64.ofNat ms else UInt64.ofNat (UInt64.size - 1))

/-- The earlier of two bounds, each reading taken separately within one boot session. -/
def earlier (bound other : Bound) : Bound :=
  if bound.continuous.boot ≠ other.continuous.boot then
    if other.notAfter.unixMs < bound.notAfter.unixMs then other else bound
  else
    { notAfter := if other.notAfter.unixMs < bound.notAfter.unixMs then other.notAfter
        else bound.notAfter
      continuous :=
        { boot := bound.continuous.boot
          ns := min bound.continuous.ns other.continuous.ns } }

/-- Where the bound and so many milliseconds fall on the wait clock, or the reading itself when
no instant holds that. -/
def waitDeadline (bound : Bound) (now : ClockReading) (extraMs : UInt64) : Option WaitInstant := do
  let left ← bound.remainingNs now
  let extra ← I128.mul extraMs.toNat nsPerMs
  let ns ← I128.add left extra
  let shift := Duration.ofNs ns.natAbs
  let deadline := if 0 ≤ ns then now.wait.checkedAdd shift else now.wait.checkedSub shift
  some (deadline.getD now.wait)

/-- The bound whose continuous deadline is moved to where it fell at a reading: the continuous
value there less the time overdue, in the boot session of the reading. -/
def fenced (bound : Bound) (fence : ClockReading) : Option Bound := do
  let deadline ← bound.waitDeadline fence 0
  let overdue := (fence.wait.ns - deadline.ns).toNat
  some
    { notAfter := bound.notAfter
      continuous :=
        { boot := fence.continuous.boot
          ns := UInt64.ofNat (fence.continuous.ns.toNat - overdue) } }

end Bound

end Plasmosome.Backend.Lifetime
