import Mathlib

/-!
# Values as observations hold them

A value is compared whole, so its equality is decided by walking it. What a
float is stays open: the comparison of floats is a linear order, and an integer
has a nearest float.
-/

namespace Plasmosome.Differential

/-- The floats of a value, with the float nearest to an integer. -/
class Floats (F : Type) extends LinearOrder F where
  ofInt : Int → F

/-- A number: an unsigned or a negative integer, or a float. -/
inductive Number (F : Type) where
  | posInt (value : UInt64)
  | negInt (value : Int64) (negative : value < 0)
  | float (value : F)
deriving DecidableEq

inductive Value (F : Type) where
  | null
  | bool (value : Bool)
  | number (value : Number F)
  | string (value : String)
  | array (items : List (Value F))
  | object (members : List (String × Value F))

namespace Value

variable {F : Type}

/-! ## Equality -/

section Equality

variable [DecidableEq F]

mutual

def same : Value F → Value F → Bool
  | null, null => true
  | bool first, bool second => first = second
  | number first, number second => first = second
  | string first, string second => first = second
  | array first, array second => sameItems first second
  | object first, object second => sameMembers first second
  | _, _ => false

def sameItems : List (Value F) → List (Value F) → Bool
  | [], [] => true
  | first :: firsts, second :: seconds => same first second && sameItems firsts seconds
  | _, _ => false

def sameMembers : List (String × Value F) → List (String × Value F) → Bool
  | [], [] => true
  | (key, first) :: firsts, (other, second) :: seconds =>
      key = other && same first second && sameMembers firsts seconds
  | _, _ => false

end

mutual

theorem same_iff : ∀ first second : Value F, same first second = true ↔ first = second
  | null, second => by cases second <;> simp [same]
  | bool _, second => by cases second <;> simp [same]
  | number _, second => by cases second <;> simp [same]
  | string _, second => by cases second <;> simp [same]
  | array items, second => by
      cases second with
      | array others => rw [same, sameItems_iff items others, array.injEq]
      | _ => simp [same]
  | object members, second => by
      cases second with
      | object others => rw [same, sameMembers_iff members others, object.injEq]
      | _ => simp [same]

theorem sameItems_iff : ∀ first second : List (Value F),
    sameItems first second = true ↔ first = second
  | [], second => by cases second <;> simp [sameItems]
  | head :: tail, [] => by simp [sameItems]
  | head :: tail, other :: others => by
      rw [sameItems, Bool.and_eq_true, same_iff head other, sameItems_iff tail others,
        List.cons.injEq]

theorem sameMembers_iff : ∀ first second : List (String × Value F),
    sameMembers first second = true ↔ first = second
  | [], second => by cases second <;> simp [sameMembers]
  | head :: tail, [] => by simp [sameMembers]
  | (key, value) :: tail, (other, held) :: others => by
      rw [sameMembers, Bool.and_eq_true, Bool.and_eq_true, same_iff value held,
        sameMembers_iff tail others, List.cons.injEq, Prod.mk.injEq, decide_eq_true_iff]

end

instance : DecidableEq (Value F) := fun first second =>
  decidable_of_iff _ (same_iff first second)

end Equality

/-! ## Reading a value -/

def asU64 : Value F → Option UInt64
  | number (.posInt value) => some value
  | _ => none

def isU64 (value : Value F) : Bool := value.asU64.isSome

/-- The signed number a value holds, when it fits sixty-four bits. -/
def asI64 : Value F → Option Int
  | number (.posInt value) => if value.toNat < 2 ^ 63 then some value.toNat else none
  | number (.negInt value _) => some value.toInt
  | _ => none

def isF64 : Value F → Bool
  | number (.float _) => true
  | _ => false

def isNumber : Value F → Bool
  | number _ => true
  | _ => false

def asStr : Value F → Option String
  | string value => some value
  | _ => none

/-- The number a value holds, as a float. -/
def asF64 [Floats F] : Value F → Option F
  | number (.posInt value) => some (Floats.ofInt value.toNat)
  | number (.negInt value _) => some (Floats.ofInt value.toInt)
  | number (.float value) => some value
  | _ => none

/-- A member of an object. -/
def get (value : Value F) (key : String) : Option (Value F) :=
  match value with
  | object members => members.lookup key
  | _ => none

/-- The values a field holds: the items of a list, or its one value. -/
def values : Value F → List (Value F)
  | array items => items
  | value => [value]

/-- Replaces each of the values a field holds. -/
def mapValues (replace : Value F → Value F) : Value F → Value F
  | array items => array (items.map replace)
  | value => replace value

end Value

end Plasmosome.Differential
