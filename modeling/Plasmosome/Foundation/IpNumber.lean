import Plasmosome.Foundation.IpAddress

/-!
# Addresses as numbers

The big-endian number of an address and the address of a number. Bits are counted
from the front of an address.
-/

namespace Foundation

namespace Ipv4Addr

def number (address : Ipv4Addr) : Nat :=
  ((address.a.toNat * 256 + address.b.toNat) * 256 + address.c.toNat) * 256 + address.d.toNat

def ofNumber (number : Nat) : Ipv4Addr :=
  ⟨UInt8.ofNat (number / 256 ^ 3), UInt8.ofNat (number / 256 ^ 2), UInt8.ofNat (number / 256),
    UInt8.ofNat number⟩

theorem number_lt (address : Ipv4Addr) : address.number < 2 ^ 32 := by
  have ha := address.a.toNat_lt
  have hb := address.b.toNat_lt
  have hc := address.c.toNat_lt
  have hd := address.d.toNat_lt
  unfold number
  omega

theorem number_ofNumber {number : Nat} (hnumber : number < 2 ^ 32) :
    (ofNumber number).number = number := by
  simp only [ofNumber, Ipv4Addr.number, UInt8.toNat_ofNat']
  omega

theorem ofNumber_number (address : Ipv4Addr) : ofNumber address.number = address := by
  obtain ⟨a, b, c, d⟩ := address
  have ha := a.toNat_lt
  have hb := b.toNat_lt
  have hc := c.toNat_lt
  have hd := d.toNat_lt
  simp only [ofNumber, number, Ipv4Addr.mk.injEq, ← UInt8.toNat_inj, UInt8.toNat_ofNat']
  omega

def toBits (address : Ipv4Addr) : BitVec 32 := BitVec.ofNat 32 address.number

def fromBits (word : BitVec 32) : Ipv4Addr := ofNumber word.toNat

theorem toNat_toBits (address : Ipv4Addr) : address.toBits.toNat = address.number := by
  rw [toBits, BitVec.toNat_ofNat, Nat.mod_eq_of_lt address.number_lt]

@[simp] theorem fromBits_toBits (address : Ipv4Addr) : fromBits address.toBits = address := by
  rw [fromBits, toNat_toBits, ofNumber_number]

@[simp] theorem toBits_fromBits (word : BitVec 32) : (fromBits word).toBits = word := by
  rw [← BitVec.toNat_inj, toNat_toBits, fromBits, number_ofNumber word.isLt]

end Ipv4Addr

namespace Ipv6Addr

def number (address : Ipv6Addr) : Nat :=
  address.segments.toList.foldl (fun number segment => number * 65536 + segment.toNat) 0

def ofNumber (number : Nat) : Ipv6Addr :=
  ⟨#v[UInt16.ofNat (number / 65536 ^ 7), UInt16.ofNat (number / 65536 ^ 6),
    UInt16.ofNat (number / 65536 ^ 5), UInt16.ofNat (number / 65536 ^ 4),
    UInt16.ofNat (number / 65536 ^ 3), UInt16.ofNat (number / 65536 ^ 2),
    UInt16.ofNat (number / 65536), UInt16.ofNat number]⟩

/-- The eight segments of an address. -/
theorem exists_segments (address : Ipv6Addr) : ∃ s₀ s₁ s₂ s₃ s₄ s₅ s₆ s₇,
    address = ⟨#v[s₀, s₁, s₂, s₃, s₄, s₅, s₆, s₇]⟩ := by
  obtain ⟨⟨⟨segments⟩, hlength⟩⟩ := address
  match segments, hlength with
  | [s₀, s₁, s₂, s₃, s₄, s₅, s₆, s₇], _ => exact ⟨s₀, s₁, s₂, s₃, s₄, s₅, s₆, s₇, rfl⟩

theorem number_mk (s₀ s₁ s₂ s₃ s₄ s₅ s₆ s₇ : UInt16) :
    (Ipv6Addr.mk #v[s₀, s₁, s₂, s₃, s₄, s₅, s₆, s₇]).number =
      ((((((s₀.toNat * 65536 + s₁.toNat) * 65536 + s₂.toNat) * 65536 + s₃.toNat) * 65536 +
        s₄.toNat) * 65536 + s₅.toNat) * 65536 + s₆.toNat) * 65536 + s₇.toNat := by
  simp [number]

theorem number_lt (address : Ipv6Addr) : address.number < 2 ^ 128 := by
  obtain ⟨s₀, s₁, s₂, s₃, s₄, s₅, s₆, s₇, rfl⟩ := exists_segments address
  have h₀ := s₀.toNat_lt
  have h₁ := s₁.toNat_lt
  have h₂ := s₂.toNat_lt
  have h₃ := s₃.toNat_lt
  have h₄ := s₄.toNat_lt
  have h₅ := s₅.toNat_lt
  have h₆ := s₆.toNat_lt
  have h₇ := s₇.toNat_lt
  rw [number_mk]
  omega

theorem number_ofNumber {number : Nat} (hnumber : number < 2 ^ 128) :
    (ofNumber number).number = number := by
  have hsegment : ∀ index, number / 65536 ^ (index + 1) * 65536 + number / 65536 ^ index % 65536 =
      number / 65536 ^ index := by
    intro index
    rw [pow_succ, ← Nat.div_div_eq_div_mul]
    exact Nat.div_add_mod' _ _
  have hfirst : number / 65536 ^ 7 % 65536 = number / 65536 ^ 7 := by
    refine Nat.mod_eq_of_lt (Nat.div_lt_of_lt_mul ?_)
    exact hnumber
  rw [ofNumber, number_mk]
  have hsize : ∀ number, (UInt16.ofNat number).toNat = number % 65536 := fun _ => rfl
  simp only [hsize]
  have h₁ := hsegment 0
  have h₂ := hsegment 1
  rw [zero_add, pow_one, pow_zero, Nat.div_one] at h₁
  rw [pow_one] at h₂
  rw [hfirst, hsegment 6, hsegment 5, hsegment 4, hsegment 3, hsegment 2, h₂, h₁]

theorem mk_congr {s₀ s₁ s₂ s₃ s₄ s₅ s₆ s₇ t₀ t₁ t₂ t₃ t₄ t₅ t₆ t₇ : UInt16} (h₀ : s₀ = t₀)
    (h₁ : s₁ = t₁) (h₂ : s₂ = t₂) (h₃ : s₃ = t₃) (h₄ : s₄ = t₄) (h₅ : s₅ = t₅) (h₆ : s₆ = t₆)
    (h₇ : s₇ = t₇) : Ipv6Addr.mk #v[s₀, s₁, s₂, s₃, s₄, s₅, s₆, s₇] =
      Ipv6Addr.mk #v[t₀, t₁, t₂, t₃, t₄, t₅, t₆, t₇] := by
  subst h₀ h₁ h₂ h₃ h₄ h₅ h₆ h₇
  rfl

theorem ofNumber_number (address : Ipv6Addr) : ofNumber address.number = address := by
  obtain ⟨s₀, s₁, s₂, s₃, s₄, s₅, s₆, s₇, rfl⟩ := exists_segments address
  have hhigher : ∀ (number : Nat) (segment : UInt16),
      (number * 65536 + segment.toNat) / 65536 = number := by
    intro number segment
    have hsegment := segment.toNat_lt
    omega
  have hlowest : ∀ (number : Nat) (segment : UInt16),
      UInt16.ofNat (number * 65536 + segment.toNat) = segment := by
    intro number segment
    rw [← UInt16.toNat_inj, UInt16.toNat_ofNat', Nat.mul_add_mod_of_lt segment.toNat_lt]
  rw [number_mk]
  -- A power of the base divides as often as its exponent says, one segment each time.
  refine mk_congr ?_ ?_ ?_ ?_ ?_ ?_ ?_ ?_
  all_goals
    simp only [pow_succ, pow_zero, one_mul, ← Nat.div_div_eq_div_mul, hhigher, hlowest,
      UInt16.ofNat_toNat]

def toBits (address : Ipv6Addr) : BitVec 128 := BitVec.ofNat 128 address.number

def fromBits (word : BitVec 128) : Ipv6Addr := ofNumber word.toNat

theorem toNat_toBits (address : Ipv6Addr) : address.toBits.toNat = address.number := by
  rw [toBits, BitVec.toNat_ofNat, Nat.mod_eq_of_lt address.number_lt]

@[simp] theorem fromBits_toBits (address : Ipv6Addr) : fromBits address.toBits = address := by
  rw [fromBits, toNat_toBits, ofNumber_number]

@[simp] theorem toBits_fromBits (word : BitVec 128) : (fromBits word).toBits = word := by
  rw [← BitVec.toNat_inj, toNat_toBits, fromBits, number_ofNumber word.isLt]

theorem number_fromBits (word : BitVec 128) : (fromBits word).number = word.toNat := by
  rw [fromBits, number_ofNumber word.isLt]

/-- An address carries an IPv4 address when its first 96 bits are those of `::` or `::ffff:0:0`. -/
theorem toIpv4_eq_none {address : Ipv6Addr} : address.toIpv4 = none ↔
    address.number / 2 ^ 32 ≠ 0 ∧ address.number / 2 ^ 32 ≠ 65535 := by
  obtain ⟨s₀, s₁, s₂, s₃, s₄, s₅, s₆, s₇, rfl⟩ := exists_segments address
  have h₅ := s₅.toNat_lt
  have h₆ := s₆.toNat_lt
  have h₇ := s₇.toNat_lt
  have hzero : ∀ segment : UInt16, segment.toNat = 0 → segment = 0 := by
    intro segment hsegment
    rwa [← UInt16.toNat_inj]
  rw [number_mk]
  unfold toIpv4
  split
  next marker high low hsegments =>
    simp only [Vector.toList_mk, List.cons.injEq, and_true] at hsegments
    obtain ⟨rfl, rfl, rfl, rfl, rfl, rfl, rfl, rfl⟩ := hsegments
    simp only [UInt16.toNat_zero, ite_eq_right_iff, reduceCtorEq, imp_false, not_or,
      ← UInt16.toNat_inj, UInt16.reduceToNat]
    omega
  next hother =>
    have hlarge : ¬(s₀.toNat = 0 ∧ s₁.toNat = 0 ∧ s₂.toNat = 0 ∧ s₃.toNat = 0 ∧ s₄.toNat = 0) := by
      rintro ⟨h₀, h₁, h₂, h₃, h₄⟩
      refine hother s₅ s₆ s₇ ?_
      rw [hzero s₀ h₀, hzero s₁ h₁, hzero s₂ h₂, hzero s₃ h₃, hzero s₄ h₄]
      rfl
    simp only [true_iff]
    omega

theorem isUnspecified_iff {address : Ipv6Addr} :
    address.isUnspecified = true ↔ address.number = 0 := by
  obtain ⟨s₀, s₁, s₂, s₃, s₄, s₅, s₆, s₇, rfl⟩ := exists_segments address
  rw [number_mk]
  simp only [isUnspecified, Vector.toList_mk, decide_eq_true_eq, List.cons.injEq, and_true,
    ← UInt16.toNat_inj, UInt16.reduceToNat]
  omega

theorem isLoopback_iff {address : Ipv6Addr} : address.isLoopback = true ↔ address.number = 1 := by
  obtain ⟨s₀, s₁, s₂, s₃, s₄, s₅, s₆, s₇, rfl⟩ := exists_segments address
  rw [number_mk]
  simp only [isLoopback, Vector.toList_mk, decide_eq_true_eq, List.cons.injEq, and_true,
    ← UInt16.toNat_inj, UInt16.reduceToNat]
  omega

end Ipv6Addr

namespace IpAddr

def isIpv4 : IpAddr → Bool
  | .v4 _ => true
  | .v6 _ => false

/-- The number of bits of an address of the family. -/
def width : IpAddr → Nat
  | .v4 _ => 32
  | .v6 _ => 128

/-- A bit of the address, counted from the first. -/
def bit : IpAddr → Nat → Bool
  | .v4 address, index => address.toBits.getMsbD index
  | .v6 address, index => address.toBits.getMsbD index

end IpAddr

end Foundation
