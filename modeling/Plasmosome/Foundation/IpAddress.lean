import Mathlib

/-!
# Internet addresses as text

The text forms of the Rust standard library: dotted decimal IPv4 without
leading zeros, and RFC 5952 IPv6. A reader consumes characters from the front
and gives nothing back when it fails.
-/

namespace Foundation

structure Ipv4Addr where
  a : UInt8
  b : UInt8
  c : UInt8
  d : UInt8
deriving DecidableEq, Repr

structure Ipv6Addr where
  segments : Vector UInt16 8
deriving DecidableEq, Repr

inductive IpAddr where
  | v4 (address : Ipv4Addr)
  | v6 (address : Ipv6Addr)
deriving DecidableEq, Repr

namespace IpAddress

/-- A value read from the front of the text, and the text after it. -/
abbrev Reader (Value : Type) := List Char → Option (Value × List Char)

/-- The value of a digit in `radix`, letters of either case standing for ten and above. -/
def toDigit (radix : Nat) (char : Char) : Option Nat :=
  let digit :=
    if '0' ≤ char ∧ char ≤ '9' then char.toNat - '0'.toNat
    else if 'a' ≤ char ∧ char ≤ 'z' then char.toNat - 'a'.toNat + 10
    else if 'A' ≤ char ∧ char ≤ 'Z' then char.toNat - 'A'.toNat + 10
    else radix
  if digit < radix then some digit else none

def readDigits (radix : Nat) : List Char → List Nat × List Char
  | [] => ([], [])
  | char :: rest =>
      match toDigit radix char with
      | some digit =>
          let (digits, rest) := readDigits radix rest
          (digit :: digits, rest)
      | none => ([], char :: rest)

/-- One to `maxDigits` digits whose value is below `bound`. -/
def readNumber (radix maxDigits : Nat) (allowZeroPrefix : Bool) (bound : Nat) : Reader Nat :=
  fun text =>
    let (digits, rest) := readDigits radix text
    let value := digits.foldl (fun value digit => value * radix + digit) 0
    let zeroPrefixed := text.head? = some '0' ∧ 1 < digits.length
    if digits = [] ∨ maxDigits < digits.length then none
    else if !allowZeroPrefix ∧ zeroPrefixed then none
    else if value < bound then some (value, rest)
    else none

def readGivenChar (expected : Char) : List Char → Option (List Char)
  | [] => none
  | char :: rest => if char = expected then some rest else none

/-- Reads the separator first, except before the group of index zero. -/
def readSeparator {Value : Type} (separator : Char) (index : Nat) (inner : Reader Value) :
    Reader Value :=
  fun text => if 0 < index then (readGivenChar separator text).bind inner else inner text

def readOctet (index : Nat) : Reader UInt8 := fun text =>
  (readSeparator '.' index (readNumber 10 3 false 256) text).map fun (value, rest) =>
    (UInt8.ofNat value, rest)

def readIpv4Addr : Reader Ipv4Addr := fun text => do
  let (a, text) ← readOctet 0 text
  let (b, text) ← readOctet 1 text
  let (c, text) ← readOctet 2 text
  let (d, text) ← readOctet 3 text
  pure (⟨a, b, c, d⟩, text)

/-- Two bytes, the first the more significant. -/
def fromBeBytes (high low : UInt8) : UInt16 := UInt16.ofNat (high.toNat * 256 + low.toNat)

/-- Reads at most `limit` groups, of which `index` were read. The flag reports a trailing IPv4
address, which takes the place of two groups. -/
def readGroups : (limit index : Nat) → List Char → (List UInt16 × Bool) × List Char
  | 0, _, text => (([], false), text)
  | limit + 1, index, text =>
      match if 0 < limit then readSeparator ':' index readIpv4Addr text else none with
      | some (ipv4, rest) =>
          (([fromBeBytes ipv4.a ipv4.b, fromBeBytes ipv4.c ipv4.d], true), rest)
      | none =>
          match readSeparator ':' index (readNumber 16 4 true 65536) text with
          | some (group, rest) =>
              let ((groups, ipv4), rest) := readGroups limit (index + 1) rest
              ((UInt16.ofNat group :: groups, ipv4), rest)
          | none => (([], false), text)

def ofGroups (groups : List UInt16) : Ipv6Addr :=
  ⟨Vector.ofFn fun index => groups.getD index 0⟩

def readIpv6Addr : Reader Ipv6Addr := fun text =>
  let ((head, headIpv4), rest) := readGroups 8 0 text
  if head.length = 8 then some (ofGroups head, rest)
  -- An IPv4 part may only end the address, so never stands before `::`.
  else if headIpv4 then none
  else do
    let rest ← readGivenChar ':' rest
    let rest ← readGivenChar ':' rest
    let ((tail, _), rest) := readGroups (8 - (head.length + 1)) 0 rest
    let zeroes := List.replicate (8 - head.length - tail.length) 0
    pure (ofGroups (head ++ zeroes ++ tail), rest)

end IpAddress

open IpAddress

/-- Reads a whole text as one address. -/
def IpAddr.parse (text : String) : Option IpAddr :=
  let read :=
    match readIpv4Addr text.toList with
    | some (address, rest) => some (IpAddr.v4 address, rest)
    | none => (readIpv6Addr text.toList).map fun (address, rest) => (IpAddr.v6 address, rest)
  match read with
  | some (address, []) => some address
  | _ => none

def Ipv4Addr.display (address : Ipv4Addr) : String :=
  ".".intercalate
    [toString address.a.toNat, toString address.b.toNat, toString address.c.toNat,
      toString address.d.toNat]

namespace Ipv6Addr

/-- The address of an IPv4-mapped form, whose first ten bytes are zero and next two all ones. -/
def toIpv4Mapped (address : Ipv6Addr) : Option Ipv4Addr :=
  match address.segments.toList with
  | [0, 0, 0, 0, 0, 65535, high, low] =>
      some ⟨(high >>> 8).toUInt8, high.toUInt8, (low >>> 8).toUInt8, low.toUInt8⟩
  | _ => none

/-- The address of an IPv4-mapped or IPv4-compatible form. -/
def toIpv4 (address : Ipv6Addr) : Option Ipv4Addr :=
  match address.segments.toList with
  | [0, 0, 0, 0, 0, marker, high, low] =>
      if marker = 0 ∨ marker = 65535 then
        some ⟨(high >>> 8).toUInt8, high.toUInt8, (low >>> 8).toUInt8, low.toUInt8⟩
      else none
  | _ => none

def isUnspecified (address : Ipv6Addr) : Bool :=
  address.segments.toList = [0, 0, 0, 0, 0, 0, 0, 0]

def isLoopback (address : Ipv6Addr) : Bool :=
  address.segments.toList = [0, 0, 0, 0, 0, 0, 0, 1]

/-- A run of zero segments. -/
structure Span where
  start : Nat
  len : Nat

/-- The first longest run of zero segments, where `current` is the run the walk is in. -/
def longestZeroes : (segments : List UInt16) → (index : Nat) → (current longest : Span) → Span
  | [], _, _, longest => longest
  | segment :: rest, index, current, longest =>
      if segment = 0 then
        let start := if current.len = 0 then index else current.start
        let current : Span := ⟨start, current.len + 1⟩
        longestZeroes rest (index + 1) current
        (if longest.len < current.len then current else longest)
      else longestZeroes rest (index + 1) ⟨0, 0⟩ longest

def displaySegments (segments : List UInt16) : String :=
  ":".intercalate (segments.map fun segment => String.ofList (Nat.toDigits 16 segment.toNat))

def display (address : Ipv6Addr) : String :=
  match address.toIpv4Mapped with
  | some ipv4 => "::ffff:" ++ ipv4.display
  | none =>
      let segments := address.segments.toList
      let zeroes := longestZeroes segments 0 ⟨0, 0⟩ ⟨0, 0⟩
      if 1 < zeroes.len then
        displaySegments (segments.take zeroes.start) ++ "::" ++
          displaySegments (segments.drop (zeroes.start + zeroes.len))
      else displaySegments segments

end Ipv6Addr

def IpAddr.display : IpAddr → String
  | .v4 address => address.display
  | .v6 address => address.display

end Foundation
