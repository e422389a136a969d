import Plasmosome.Foundation.IpAddressText
import Plasmosome.Foundation.Pieces

/-!
# Identities as text

The hyphenated lower-case text of a 128-bit identity, and the identities drawn at random.
-/

namespace Foundation.Uuid

open IpAddress (toDigit mapM_toDigits toDigit_digitChar)

/-- An identity of version 4 in the variant of RFC 4122. -/
def Random (uuid : BitVec 128) : Prop := uuid.extractLsb' 76 4 = 4 ∧ uuid.extractLsb' 62 2 = 2

instance (uuid : BitVec 128) : Decidable (Random uuid) := inferInstanceAs (Decidable (_ ∧ _))

/-- The 32 hexadecimal digits of an identity. -/
def digits (uuid : BitVec 128) : List Char :=
  let text := Nat.toDigits 16 uuid.toNat
  List.replicate (32 - text.length) '0' ++ text

/-- The digits in groups of 8, 4, 4, 4 and 12. -/
def groups (text : List Char) : List (List Char) :=
  [text.take 8, (text.drop 8).take 4, (text.drop 12).take 4, (text.drop 16).take 4,
    (text.drop 20).take 12]

/-- Reads the hyphenated form, in either case. -/
def parse (text : String) : Option (BitVec 128) :=
  let pieces := text.toList.splitOn '-'
  if pieces.map List.length = [8, 4, 4, 4, 12] then
    (pieces.flatten.mapM (toDigit 16)).map fun digits =>
      BitVec.ofNat 128 (digits.foldl (fun value digit => value * 16 + digit) 0)
  else none

theorem length_digits (uuid : BitVec 128) : (digits uuid).length = 32 := by
  have hlength : (Nat.toDigits 16 uuid.toNat).length ≤ 32 :=
    (Nat.length_toDigits_le_iff (by decide) (by decide)).mpr uuid.isLt
  rw [digits, List.length_append, List.length_replicate]
  omega

theorem hyphen_not_mem_digits (uuid : BitVec 128) : '-' ∉ digits uuid := by
  intro hmem
  rcases List.mem_append.mp hmem with hzero | hdigit
  · exact absurd (List.eq_of_mem_replicate hzero) (by decide)
  · obtain ⟨digit, hlt, heq⟩ := IpAddress.exists_digit (by decide) hdigit
    interval_cases digit <;> exact absurd heq (by decide)

/-- The digits of an identity are read as its number. -/
theorem mapM_digits (uuid : BitVec 128) : ∃ values, (digits uuid).mapM (toDigit 16) = some values ∧
    values.foldl (fun value digit => value * 16 + digit) 0 = uuid.toNat := by
  obtain ⟨values, hvalues, -, hnumber⟩ :=
    @mapM_toDigits 16 (by decide) (by decide) uuid.toNat
  have hzeros :
      ∀ count, (List.replicate count '0').mapM (toDigit 16) = some (List.replicate count 0) := by
    intro count
    induction count with
    | zero => rfl
    | succ count ih =>
        rw [List.replicate_succ, List.replicate_succ, List.mapM_cons, ih]
        rfl
  have hskip :
      ∀ count, (List.replicate count 0).foldl (fun value digit => value * 16 + digit) 0 = 0 := by
    intro count
    induction count with
    | zero => rfl
    | succ count ih => rw [List.replicate_succ, List.foldl_cons, zero_mul, zero_add, ih]
  refine ⟨List.replicate (32 - (Nat.toDigits 16 uuid.toNat).length) 0 ++ values, ?_, ?_⟩
  · rw [digits, List.mapM_append, hzeros, hvalues]
    rfl
  · rw [List.foldl_append, hskip, hnumber]

theorem flatten_groups {text : List Char} (hlength : text.length = 32) :
    (groups text).flatten = text := by
  have htail : (text.drop 20).take 12 = text.drop 20 := by
    rw [List.take_of_length_le]
    rw [List.length_drop, hlength]
  have hjoin :
      ∀ count len, (text.drop count).take len ++ text.drop (count + len) = text.drop count := by
    intro count len
    rw [← List.drop_drop, List.take_append_drop]
  simp only [groups, List.flatten_cons, List.flatten_nil, List.append_nil, htail]
  rw [hjoin 16 4, hjoin 12 4, hjoin 8 4, List.take_append_drop]

/-- An identity reads back from its hyphenated digits. -/
theorem parse_groups (uuid : BitVec 128) {text : String}
    (htext : text.toList = ['-'].intercalate (groups (digits uuid))) : parse text = some uuid := by
  have hlength := length_digits uuid
  have hfree : ∀ piece ∈ groups (digits uuid), '-' ∉ piece := by
    intro piece hpiece hmem
    refine hyphen_not_mem_digits uuid ?_
    rw [← flatten_groups hlength]
    exact List.mem_flatten.mpr ⟨piece, hpiece, hmem⟩
  have hsplit : text.toList.splitOn '-' = groups (digits uuid) := by
    rw [htext]
    exact List.splitOn_intercalate _ hfree (by simp [groups])
  have hlengths : (groups (digits uuid)).map List.length = [8, 4, 4, 4, 12] := by
    simp [groups, hlength]
  obtain ⟨values, hvalues, hnumber⟩ := mapM_digits uuid
  simp only [parse]
  rw [hsplit, if_pos hlengths, flatten_groups hlength, hvalues, Option.map_some, hnumber,
    BitVec.ofNat_toNat, BitVec.setWidth_eq]

end Foundation.Uuid
