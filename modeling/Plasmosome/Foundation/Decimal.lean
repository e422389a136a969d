import Mathlib

/-!
# Decimal digits

The decimal text of a number: digits, without a leading zero, that read back as it.
-/

namespace Foundation

theorem toString_toList (number : Nat) : (toString number).toList = Nat.toDigits 10 number := by
  simp [toString, Nat.repr]

theorem head_toDigits {number : Nat} (hpositive : 0 < number) :
    (Nat.toDigits 10 number).head? ≠ some '0' := by
  induction number using Nat.strong_induction_on with
  | _ number ih =>
      by_cases hsmall : number < 10
      · rw [Nat.toDigits_of_lt_base hsmall]
        interval_cases number <;> decide
      · rw [Nat.toDigits_of_base_le (by decide) (by omega), List.head?_append]
        have hfirst := ih (number / 10) (by omega) (by omega)
        cases hhead : (Nat.toDigits 10 (number / 10)).head? with
        | none =>
            have hlength := Nat.length_toDigits_pos (b := 10) (n := number / 10)
            rw [List.head?_eq_none_iff] at hhead
            simp [hhead] at hlength
        | some first =>
            rw [hhead] at hfirst
            simpa using hfirst

theorem all_isDigit_toDigits (number : Nat) : (Nat.toDigits 10 number).all Char.isDigit := by
  rw [List.all_eq_true]
  intro digit hdigit
  exact Nat.isDigit_of_mem_toDigits (by decide) (by decide) hdigit

theorem toNat?_toString (number : Nat) :
    (String.ofList (toString number).toList).toNat? = some number := by
  rw [String.ofList_toList]
  exact Nat.toNat?_repr number

theorem toDigits_ne_nil (number : Nat) : Nat.toDigits 10 number ≠ [] :=
  List.ne_nil_of_length_pos Nat.length_toDigits_pos

theorem toDigits_zero : Nat.toDigits 10 0 = ['0'] := rfl

theorem digitChar_of_isDigit {char : Char} (hchar : char.isDigit = true) :
    char.toNat - '0'.toNat < 10 ∧ (char.toNat - '0'.toNat).digitChar = char := by
  have hbounds : 48 ≤ char.toNat ∧ char.toNat ≤ 57 := by
    unfold Char.isDigit at hchar
    rw [Bool.and_eq_true, decide_eq_true_eq, decide_eq_true_eq] at hchar
    exact ⟨UInt32.le_iff_toNat_le.mp hchar.1, UInt32.le_iff_toNat_le.mp hchar.2⟩
  have hzero : '0'.toNat = 48 := rfl
  obtain ⟨digit, hdigit⟩ : ∃ digit, char.toNat - '0'.toNat = digit := ⟨_, rfl⟩
  have hsmall : digit < 10 := by omega
  have hcode : char.toNat = 48 + digit := by omega
  rw [hdigit]
  refine ⟨hsmall, Char.toNat_inj.mp ?_⟩
  rw [hcode]
  interval_cases digit <;> rfl

/-- Digits after those of a positive number. -/
theorem toDigits_append_digits {digits : List Char} (hdigits : ∀ char ∈ digits, char.isDigit = true)
    {value : Nat} (hvalue : 0 < value) :
    Nat.toDigits 10 (Nat.ofDigitChars 10 digits value) = Nat.toDigits 10 value ++ digits := by
  induction digits generalizing value with
  | nil => simp [Nat.ofDigitChars_nil]
  | cons char rest ih =>
      obtain ⟨hsmall, hchar⟩ := digitChar_of_isDigit (hdigits char List.mem_cons_self)
      have hnext : 0 < 10 * value + (char.toNat - '0'.toNat) := by omega
      rw [Nat.ofDigitChars_cons, ih (fun other hother => hdigits other (List.mem_cons_of_mem _ hother))
        hnext, ← Nat.toDigits_append_toDigits (by decide) hvalue hsmall,
        Nat.toDigits_of_lt_base hsmall, hchar, List.append_assoc, List.singleton_append]

/-- Digits without a leading zero are the text of their number. -/
theorem toDigits_ofDigitChars {digits : List Char} (hsome : digits ≠ [])
    (hdigits : ∀ char ∈ digits, char.isDigit = true)
    (hzero : digits.head? = some '0' → digits.length ≤ 1) :
    Nat.toDigits 10 (Nat.ofDigitChars 10 digits 0) = digits := by
  obtain ⟨char, rest, rfl⟩ := List.exists_cons_of_ne_nil hsome
  obtain ⟨hsmall, hchar⟩ := digitChar_of_isDigit (hdigits char List.mem_cons_self)
  rw [Nat.ofDigitChars_cons, Nat.mul_zero, Nat.zero_add]
  by_cases hleading : char = '0'
  · subst hleading
    have hrest : rest = [] := by simpa using hzero rfl
    subst hrest
    rfl
  · have hpositive : 0 < char.toNat - '0'.toNat := by
      refine Nat.pos_of_ne_zero fun hsame => hleading ?_
      rw [← hchar, hsame]
      rfl
    rw [toDigits_append_digits (fun other hother => hdigits other (List.mem_cons_of_mem _ hother))
      hpositive, Nat.toDigits_of_lt_base hsmall, hchar, List.singleton_append]

end Foundation
