import Mathlib

/-!
# Values and their compact text

A value is a tree of scalars, arrays and objects. Its compact text is one
line: no blank stands between two tokens, and a string escapes quotes,
backslashes and control characters. How a float is spelled is a parameter.
-/

namespace Plasmosome.Serde

/-- A number: an unsigned or a negative integer, or a finite float by its bits. -/
inductive Number where
  | posInt (value : UInt64)
  | negInt (value : Int64)
  | float (bits : UInt64)
deriving DecidableEq, Repr

/-- A value. The members of an object stand in the order they are written in. -/
inductive Value where
  | null
  | bool (value : Bool)
  | number (value : Number)
  | string (value : String)
  | array (items : List Value)
  | object (members : List (String × Value))

namespace Value

def asStr : Value → Option String
  | string value => some value
  | _ => none

def asU64 : Value → Option UInt64
  | number (.posInt value) => some value
  | _ => none

def ofU64 (value : UInt64) : Value := .number (.posInt value)

@[simp] theorem asStr_string (value : String) : (string value).asStr = some value := rfl

@[simp] theorem asU64_ofU64 (value : UInt64) : (ofU64 value).asU64 = some value := rfl

end Value

/-! ## Sorted members -/

/-- Puts a member in place among members sorted by key, over an equal key if there is one. -/
def insertMember (key : String) (value : Value) :
    List (String × Value) → List (String × Value)
  | [] => [(key, value)]
  | (first, held) :: rest =>
      if key < first then (key, value) :: (first, held) :: rest
      else if first = key then (key, value) :: rest
      else (first, held) :: insertMember key value rest

/-- The object that inserting members one by one builds. -/
def objectOf (members : List (String × Value)) : Value :=
  .object (members.foldl (fun sorted member => insertMember member.1 member.2 sorted) [])

/-! ## Text -/

def hexDigit (value : Nat) : Char :=
  Char.ofNat (if value < 10 then 48 + value else 87 + value)

/-- How a string writes one of its characters. -/
def escapeChar (char : Char) : List Char :=
  if char = '"' then ['\\', '"']
  else if char = '\\' then ['\\', '\\']
  else if char = '\x08' then ['\\', 'b']
  else if char = '\x0c' then ['\\', 'f']
  else if char = '\n' then ['\\', 'n']
  else if char = '\r' then ['\\', 'r']
  else if char = '\t' then ['\\', 't']
  else if char.toNat < 32 then
    ['\\', 'u', '0', '0', hexDigit (char.toNat / 16), hexDigit (char.toNat % 16)]
  else [char]

def quoted (text : String) : List Char :=
  '"' :: text.toList.flatMap escapeChar ++ ['"']

section Writing

variable (floatText : UInt64 → List Char)

def Number.text : Number → List Char
  | .posInt value => (toString value.toNat).toList
  | .negInt value => (toString value.toInt).toList
  | .float bits => floatText bits

mutual

/-- The compact text of a value. -/
def Value.write : Value → List Char
  | .null => "null".toList
  | .bool true => "true".toList
  | .bool false => "false".toList
  | .number value => value.text floatText
  | .string value => quoted value
  | .array items => '[' :: (Value.writeItems items ++ [']'])
  | .object members => '\x7b' :: (Value.writeMembers members ++ ['\x7d'])

def Value.writeItems : List Value → List Char
  | [] => []
  | [item] => Value.write item
  | item :: next :: rest => Value.write item ++ ',' :: Value.writeItems (next :: rest)

def Value.writeMembers : List (String × Value) → List Char
  | [] => []
  | [(key, value)] => quoted key ++ ':' :: Value.write value
  | (key, value) :: next :: rest =>
      quoted key ++ ':' :: (Value.write value ++ ',' :: Value.writeMembers (next :: rest))

end

/-- The compact text as a string. -/
def Value.text (value : Value) : String := String.ofList (value.write floatText)

/-- How many bytes the compact text is. -/
def Value.size (value : Value) : Nat := (value.text floatText).utf8ByteSize

end Writing

end Plasmosome.Serde
