import Plasmosome.Backend.Recipe
import Plasmosome.Foundation.Decimal
import Plasmosome.Foundation.IpAddressText
import Plasmosome.Foundation.IpNumber
import Plasmosome.Foundation.LeadingBits
import Plasmosome.Foundation.Pieces

/-!
# Networks of a manifest

An IP network written as address and prefix. An operation whose arithmetic would
overflow has no value.
-/

namespace Plasmosome.Manifest

open Foundation Backend

/-- The address with the bits past the prefix clear, or `none` when the width of its family is
below the prefix. -/
def masked (address : IpAddr) (prefixLen : UInt8) : Option IpAddr :=
  match address with
  | .v4 v4 =>
      (leadingBits prefixLen.toNat v4.toBits).map fun word => .v4 (Ipv4Addr.fromBits word)
  | .v6 v6 =>
      (leadingBits prefixLen.toNat v6.toBits).map fun word => .v6 (Ipv6Addr.fromBits word)

/-- A prefix in decimal digits, with no sign and no leading zero, of at most `width`. -/
def prefixLength (text : List Char) (width : Nat) : Option UInt8 :=
  let digits := !text.isEmpty && text.all Char.isDigit
  if !digits || (1 < text.length && text.head? = some '0') then none
  else
    let value := Nat.ofDigitChars 10 text 0
    if value < UInt8.size ∧ value ≤ width then some (UInt8.ofNat value) else none

section Masked

variable {address kept : IpAddr} {prefixLen : UInt8}

theorem masked_eq_none : masked address prefixLen = none ↔ address.width < prefixLen.toNat := by
  cases address <;> simp [masked, IpAddr.width, leadingBits_eq_none]

/-- The words of an address and of the address it is masked to. -/
theorem masked_eq_some : masked address prefixLen = some kept ↔
    (∃ v4 word, address = .v4 v4 ∧ leadingBits prefixLen.toNat v4.toBits = some word ∧
      kept = .v4 (Ipv4Addr.fromBits word)) ∨
    (∃ v6 word, address = .v6 v6 ∧ leadingBits prefixLen.toNat v6.toBits = some word ∧
      kept = .v6 (Ipv6Addr.fromBits word)) := by
  cases address with
  | v4 v4 => simp [masked, eq_comm]
  | v6 v6 => simp [masked, eq_comm]

theorem masked_masked (hkept : masked address prefixLen = some kept) :
    masked kept prefixLen = some kept := by
  rcases masked_eq_some.mp hkept with ⟨v4, word, -, hword, rfl⟩ | ⟨v6, word, -, hword, rfl⟩
  · rw [masked, Ipv4Addr.toBits_fromBits, leadingBits_leadingBits hword, Option.map_some]
  · rw [masked, Ipv6Addr.toBits_fromBits, leadingBits_leadingBits hword, Option.map_some]

theorem isIpv4_masked (hkept : masked address prefixLen = some kept) :
    kept.isIpv4 = address.isIpv4 := by
  rcases masked_eq_some.mp hkept with ⟨v4, word, rfl, -, rfl⟩ | ⟨v6, word, rfl, -, rfl⟩ <;> rfl

theorem bit_masked (hkept : masked address prefixLen = some kept) (index : Nat) :
    kept.bit index = (address.bit index && decide (index < prefixLen.toNat)) := by
  rcases masked_eq_some.mp hkept with ⟨v4, word, rfl, hword, rfl⟩ | ⟨v6, word, rfl, hword, rfl⟩
  · rw [IpAddr.bit, IpAddr.bit, Ipv4Addr.toBits_fromBits, getMsbD_leadingBits hword]
  · rw [IpAddr.bit, IpAddr.bit, Ipv6Addr.toBits_fromBits, getMsbD_leadingBits hword]

end Masked

structure Cidr where
  network : IpAddr
  prefixLen : UInt8
  clear : masked network prefixLen = some network
deriving DecidableEq, Repr

/-- Why a text is no network. -/
inductive CidrError where
  | malformed
  | hostBitsSet (network : Cidr)
deriving DecidableEq, Repr

namespace Cidr

def parse (text : String) : Option (Except CidrError Cidr) :=
  match Pieces.splitOnce '/' text.toList with
  | none => some (.error .malformed)
  | some (written, lengthText) =>
      match canonicalIpLiteral (String.ofList written) with
      | none => some (.error .malformed)
      | some address =>
          match prefixLength lengthText address.width with
          | none => some (.error .malformed)
          | some prefixLen =>
              match hmasked : masked address prefixLen with
              | none => none
              | some network =>
                  let network : Cidr := ⟨network, prefixLen, masked_masked hmasked⟩
                  if network.network ≠ address then some (.error (.hostBitsSet network))
                  else some (.ok network)

/-- An address of the other family is not masked. -/
def contains (cidr : Cidr) (address : IpAddr) : Option Bool :=
  if address.isIpv4 = cidr.network.isIpv4 then
    (masked address cidr.prefixLen).map fun network => network = cidr.network
  else some false

def display (cidr : Cidr) : String := cidr.network.display ++ "/" ++ toString cidr.prefixLen.toNat

end Cidr

end Plasmosome.Manifest
