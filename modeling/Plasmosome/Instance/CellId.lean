import Plasmosome.Foundation.Decimal
import Plasmosome.Foundation.Utf8

/-!
# Cell IDs

A cell ID is `cell-` and a number of one to ten digits without a leading zero. A
listed name whose prefix differs only in ASCII case counts as that ID.
-/

namespace Plasmosome.Instance

open Foundation

/-- The largest number a cell ID may carry. -/
def maxCellNumber : Nat := 9999999999

def maxDigits : Nat := 10

def parseCellId : List Char → Option Nat
  | 'c' :: 'e' :: 'l' :: 'l' :: '-' :: digits =>
      if 1 ≤ digits.length ∧ digits.length ≤ maxDigits ∧ digits.all Char.isDigit ∧
          digits.head? ≠ some '0' then
        (String.ofList digits).toNat?
      else none
  | _ => none

def formatCellId (number : Nat) : List Char :=
  'c' :: 'e' :: 'l' :: 'l' :: '-' :: (toString number).toList

def lowerByte (byte : UInt8) : UInt8 := if 0x41 ≤ byte ∧ byte ≤ 0x5a then byte + 0x20 else byte

/-- The number a listed name counts as, its prefix read without regard to ASCII case. -/
def listedCellNumber (name : List UInt8) : Option Nat :=
  if name.length < 5 then none
  else
    match Utf8.decode ((name.take 5).map lowerByte ++ name.drop 5) 0 with
    | .ok text => parseCellId text
    | .error _ => none

/-- The name of a cell's directory. -/
def cellName (number : Nat) : List UInt8 := Utf8.encode (formatCellId number)

theorem parseCellId_formatCellId {number : Nat} (hpositive : 1 ≤ number)
    (hbound : number ≤ maxCellNumber) : parseCellId (formatCellId number) = some number := by
  have hread := toNat?_toString number
  rw [formatCellId, parseCellId, if_pos]
  · exact hread
  · rw [toString_toList]
    refine ⟨Nat.length_toDigits_pos, ?_, ?_, head_toDigits hpositive⟩
    · exact Nat.toDigits_length 10 number 10 (by decide) (by rw [maxCellNumber] at hbound; omega)
    · exact all_isDigit_toDigits number

theorem listedCellNumber_cellName {number : Nat} (hpositive : 1 ≤ number)
    (hbound : number ≤ maxCellNumber) : listedCellNumber (cellName number) = some number := by
  have hname : cellName number =
      [0x63, 0x65, 0x6c, 0x6c, 0x2d] ++ Utf8.encode (toString number).toList := by
    have hprefix : Utf8.encode ['c', 'e', 'l', 'l', '-'] = [0x63, 0x65, 0x6c, 0x6c, 0x2d] := by
      decide +kernel
    rw [← hprefix, ← Utf8.encode_append]
    rfl
  have hlowered : ((cellName number).take 5).map lowerByte ++ (cellName number).drop 5 =
      cellName number := by
    rw [hname]
    simp [lowerByte]
  rw [listedCellNumber, if_neg (by rw [hname]; simp), hlowered, cellName, Utf8.decode_encode]
  exact parseCellId_formatCellId hpositive hbound

end Plasmosome.Instance
