import Mathlib

/-!
# Numerals of a fixed width

Decimal numerals as ASCII bytes, padded with zeros on the left. Numerals of one
width read back as their numbers, and order as them.
-/

namespace Foundation.Numerals

/-- The ASCII digit of a number below ten. -/
def digit (value : Nat) : UInt8 := UInt8.ofNat (48 + value)

def isDigit (byte : UInt8) : Bool := 48 ≤ byte && byte ≤ 57

/-- The number that a row of ASCII digits writes. -/
def read (digits : List UInt8) : Option Nat :=
  digits.foldlM
    (fun value byte => if isDigit byte then some (value * 10 + (byte - 48).toNat) else none) 0

/-- The last `width` digits of a number. -/
def fixed : Nat → Nat → List UInt8
  | 0, _ => []
  | width + 1, value => fixed width (value / 10) ++ [digit (value % 10)]

/-- The digits of a number, with zeros on the left up to a width. -/
def zeroPadded (width value : Nat) : List UInt8 :=
  let digits := (Nat.toDigits 10 value).map Char.toUInt8
  List.replicate (width - digits.length) 48 ++ digits

/-! ## Digits -/

theorem toNat_digit {value : Nat} (hvalue : value < 10) : (digit value).toNat = 48 + value := by
  rw [digit, UInt8.toNat_ofNat_of_lt']
  simp only [UInt8.size]
  omega

theorem isDigit_iff {byte : UInt8} : isDigit byte = true ↔ 48 ≤ byte.toNat ∧ byte.toNat ≤ 57 := by
  simp [isDigit, UInt8.le_iff_toNat_le]

theorem isDigit_digit {value : Nat} (hvalue : value < 10) : isDigit (digit value) = true := by
  rw [isDigit_iff, toNat_digit hvalue]
  omega

theorem toNat_sub_zero {byte : UInt8} (hbyte : 48 ≤ byte.toNat) :
    (byte - 48).toNat = byte.toNat - 48 := by
  have hle : 48 ≤ byte := UInt8.le_iff_toNat_le.mpr hbyte
  rw [UInt8.toNat_sub_of_le _ _ hle]
  rfl

theorem digit_of_isDigit {byte : UInt8} (hbyte : isDigit byte = true) :
    (byte - 48).toNat < 10 ∧ digit (byte - 48).toNat = byte := by
  rw [isDigit_iff] at hbyte
  have hvalue := toNat_sub_zero hbyte.1
  have hsmall : (byte - 48).toNat < 10 := by omega
  refine ⟨hsmall, UInt8.toNat_inj.mp ?_⟩
  rw [toNat_digit hsmall]
  omega

theorem digit_lt_digit {first second : Nat} (hlt : first < second) (hsecond : second < 10) :
    digit first < digit second := by
  rw [UInt8.lt_iff_toNat_lt, toNat_digit hsecond, toNat_digit (hlt.trans hsecond)]
  omega

/-! ## Reading -/

theorem read_append_singleton (digits : List UInt8) (byte : UInt8) :
    read (digits ++ [byte]) =
      (read digits).bind fun value =>
        if isDigit byte then some (value * 10 + (byte - 48).toNat) else none := by
  rw [read, List.foldlM_append]
  cases hread : read digits with
  | none =>
      rw [read] at hread
      rw [hread]
      rfl
  | some value =>
      rw [read] at hread
      rw [hread]
      simp [List.foldlM_cons]

theorem read_append_digit {digits : List UInt8} {value last : Nat}
    (hread : read digits = some value) (hlast : last < 10) :
    read (digits ++ [digit last]) = some (value * 10 + last) := by
  have hvalue : (digit last - 48).toNat = last := by
    rw [toNat_sub_zero (by rw [toNat_digit hlast]; omega), toNat_digit hlast]
    omega
  rw [read_append_singleton, hread, Option.bind_some, if_pos (isDigit_digit hlast), hvalue]

/-- Zeros on the right scale what is read. -/
theorem read_append_zeros (digits : List UInt8) (count : Nat) :
    read (digits ++ List.replicate count 48) =
    (read digits).map (fun value => value * 10 ^ count) := by
  induction count with
  | zero => simp
  | succ count ih =>
      rw [List.replicate_succ', ← List.append_assoc, read_append_singleton, ih]
      cases read digits with
      | none => rfl
      | some value =>
          have hzero : isDigit 48 = true := by decide
          simp only [Option.map_some, Option.bind_some, hzero, if_true]
          congr 1
          rw [pow_succ]
          simp [Nat.mul_assoc]

/-! ## Fixed width -/

@[simp] theorem length_fixed (width value : Nat) : (fixed width value).length = width := by
  induction width generalizing value with
  | zero => rfl
  | succ width ih => simp [fixed, ih]

theorem fixed_zero (width : Nat) : fixed width 0 = List.replicate width 48 := by
  induction width with
  | zero => rfl
  | succ width ih =>
      rw [fixed, Nat.zero_div, ih, List.replicate_succ']
      rfl

/-- A number below the power of its width reads back. -/
theorem read_fixed {width value : Nat} (hvalue : value < 10 ^ width) :
    read (fixed width value) = some value := by
  induction width generalizing value with
  | zero =>
      have hzero : value = 0 := by simpa using hvalue
      rw [hzero]
      rfl
  | succ width ih =>
      have hrest : value / 10 < 10 ^ width := by
        rw [pow_succ] at hvalue
        omega
      rw [fixed, read_append_digit (ih hrest) (Nat.mod_lt _ (by decide))]
      congr 1
      omega

/-- What is read is below the power of the length, and writes the same digits. -/
theorem fixed_of_read {digits : List UInt8} {value : Nat} (hread : read digits = some value) :
    value < 10 ^ digits.length ∧ fixed digits.length value = digits := by
  induction digits using List.reverseRecOn generalizing value with
  | nil =>
      cases hread
      exact ⟨by decide, rfl⟩
  | append_singleton digits byte ih =>
      rw [read_append_singleton, Option.bind_eq_some_iff] at hread
      obtain ⟨shorter, hshorter, hlast⟩ := hread
      split at hlast
      next hdigit =>
        obtain ⟨hsmall, hbyte⟩ := digit_of_isDigit hdigit
        obtain ⟨hbound, hfixed⟩ := ih hshorter
        cases hlast
        have hquotient : (shorter * 10 + (byte - 48).toNat) / 10 = shorter := by omega
        have hremainder : (shorter * 10 + (byte - 48).toNat) % 10 = (byte - 48).toNat := by omega
        rw [List.length_append, List.length_singleton]
        refine ⟨by rw [pow_succ]; omega, ?_⟩
        rw [fixed, hquotient, hremainder, hfixed, hbyte]
      next => cases hlast

/-- A number below the power of a width takes exactly that width. -/
theorem zeroPadded_eq_fixed {width value : Nat} (hwidth : 0 < width)
    (hvalue : value < 10 ^ width) : zeroPadded width value = fixed width value := by
  induction width generalizing value with
  | zero => omega
  | succ width ih =>
      by_cases hsmall : value < 10
      · have hdigit : (Nat.digitChar value).toUInt8 = digit value := by
          interval_cases value <;> rfl
        simp only [zeroPadded, Nat.toDigits_of_lt_base hsmall, List.map_cons, List.map_nil,
          List.length_singleton, Nat.add_sub_cancel, fixed, Nat.div_eq_of_lt hsmall,
          Nat.mod_eq_of_lt hsmall, fixed_zero, hdigit]
      · have hrest : value / 10 < 10 ^ width := by
          rw [pow_succ] at hvalue
          omega
        have hpositive : 0 < width := by
          rcases Nat.eq_zero_or_pos width with rfl | hpositive
          · simp at hrest
            omega
          · exact hpositive
        have hdigit : (Nat.digitChar (value % 10)).toUInt8 = digit (value % 10) := by
          have hlast : value % 10 < 10 := Nat.mod_lt _ (by decide)
          interval_cases value % 10 <;> rfl
        rw [fixed, ← ih hpositive hrest]
        simp [zeroPadded, Nat.toDigits_of_base_le (by decide) (Nat.le_of_not_lt hsmall), hdigit]

/-! ## Order -/

/-- Texts order as their first parts do, when these have one length. -/
theorem append_lt_append_of_lt {first second : List UInt8} (hlt : first < second)
    (hlength : first.length = second.length) (rest rest' : List UInt8) :
    first ++ rest < second ++ rest' := by
  induction hlt with
  | nil => simp at hlength
  | rel hhead => exact List.Lex.rel hhead
  | cons _ ih =>
      simp only [List.length_cons, Nat.add_right_cancel_iff] at hlength
      exact List.Lex.cons (ih hlength)

theorem fixed_lt_fixed {width first second : Nat} (hlt : first < second)
    (hsecond : second < 10 ^ width) : fixed width first < fixed width second := by
  induction width generalizing first second with
  | zero => simp at hsecond; omega
  | succ width ih =>
      rw [fixed, fixed]
      rcases Nat.lt_or_ge (first / 10) (second / 10) with hquotient | hquotient
      · have hrest : second / 10 < 10 ^ width := by
          rw [pow_succ] at hsecond
          omega
        exact append_lt_append_of_lt (ih hquotient hrest) (by simp) _ _
      · have heq : first / 10 = second / 10 := by omega
        rw [heq]
        refine List.append_left_lt (List.Lex.rel (digit_lt_digit ?_ ?_)) <;> omega

end Foundation.Numerals
