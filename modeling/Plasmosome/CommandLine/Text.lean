import Plasmosome.Membrane.Lossy

/-!
# Words of a command line

An argument is a string of bytes. The flags, the forms of output and the kinds of
argument are those of both binaries.
-/

namespace Plasmosome.CommandLine

open Foundation

abbrev Text := List Char

abbrev OsStr := List UInt8

/-- A call ends in a panic, or in a value. -/
inductive Panic where
  | panicked
deriving DecidableEq

abbrev Run := Except Panic

/-- The value at an index that has to be there. -/
def present {α : Type} (value : Option α) : Run α :=
  match value with
  | some value => .ok value
  | none => .error .panicked

def toStr? (argument : OsStr) : Option Text := (Utf8.decode argument 0).toOption

def toStringLossy (argument : OsStr) : Text := Membrane.Probe.fromUtf8Lossy argument

/-- The argument is this text. -/
def spells (argument : OsStr) (text : Text) : Bool := argument == Utf8.encode text

/-- A text of digits, which may have a plus sign, as a number of 32 bits. -/
def parseU32 (text : Text) : Option UInt32 :=
  let digits :=
    match text with
    | '+' :: rest => rest
    | text => text
  let number := digits.foldlM (fun value char =>
    if char.isDigit then some (value * 10 + (char.toNat - '0'.toNat)) else none) 0
  if digits = [] then none
  else number.bind fun value => if value < 2 ^ 32 then some (UInt32.ofNat value) else none

def isAsciiDigit (byte : UInt8) : Bool := 48 ≤ byte && byte ≤ 57

def isAsciiLowercase (byte : UInt8) : Bool := 97 ≤ byte && byte ≤ 122

inductive Form where
  | json
  | human
deriving DecidableEq

inductive Kind where
  | word
  | flag
  | value
deriving DecidableEq

/-! ## Flags -/

def DASHES : Text := ['-', '-']

def SHORT_HELP : Text := ['-', 'h']

def HELP : Text := ['-', '-', 'h', 'e', 'l', 'p']

def VERSION : Text := ['-', '-', 'v', 'e', 'r', 's', 'i', 'o', 'n']

def JSON : Text := ['-', '-', 'j', 's', 'o', 'n']

def HUMAN : Text := ['-', '-', 'h', 'u', 'm', 'a', 'n']

def KERNEL : Text := ['-', '-', 'k', 'e', 'r', 'n', 'e', 'l']

def SOCKET : Text := ['-', '-', 's', 'o', 'c', 'k', 'e', 't']

def DEADLINE : Text := ['-', '-', 'd', 'e', 'a', 'd', 'l', 'i', 'n', 'e', '-', 'm', 's']

def VALUE_FLAGS : List Text := [KERNEL, SOCKET, DEADLINE]

def KNOWN_FLAGS : List Text :=
  [KERNEL, SOCKET, DEADLINE, JSON, HUMAN, SHORT_HELP, HELP, VERSION]

def MAX_DEADLINE_MS : UInt32 := 3600000

def MAX_DEADLINE_DIGITS : Nat := 7

/-- The flag holds its value after an equals sign. -/
def holdsItsValue (flag : OsStr) : Bool := [45, 45].isPrefixOf flag && flag.contains 61

def quoted (text : Text) : Text := '`' :: text ++ ['`']

def NAME_RULE : Text :=
  ("an instance name is not empty, `.` or `..`, and holds no `/`, backslash, NUL or terminal " ++
    "control").toList

def PATH_RULE : Text := "a socket path is absolute, with no empty, `.` or `..` component".toList

def DEADLINE_RULE : Text := "a deadline is an integer from 1 to 3600000".toList

end Plasmosome.CommandLine
