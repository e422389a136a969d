import Plasmosome.Backend.Text

/-!
# Texts of a manifest

How a manifest quotes a string: the characters a terminal or an editor acts on
are written as escapes.
-/

namespace Plasmosome.Manifest

open Backend

/-- The controls of Latin-1 and the marks that move or turn the text around them. -/
def actedOn (character : Char) : Bool :=
  let code := character.toNat
  code < 0x20 || (0x7f ≤ code && code ≤ 0x9f) ||
    code = 0x061c || code = 0x2028 || code = 0x2029 || code = 0x200e || code = 0x200f ||
    (0x202a ≤ code && code ≤ 0x202e) || (0x2066 ≤ code && code ≤ 0x2069)

def upperHexDigits (width value : Nat) : List Char :=
  ((hexDigits width value).toList).map Char.toUpper

def visible (character : Char) : List Char :=
  if character = '\x08' then ['\\', 'b']
  else if character = '\t' then ['\\', 't']
  else if character = '\n' then ['\\', 'n']
  else if character = '\x0c' then ['\\', 'f']
  else if character = '\r' then ['\\', 'r']
  else if actedOn character then '\\' :: 'u' :: upperHexDigits 4 character.toNat
  else [character]

def tomlString (text : String) : String :=
  String.ofList ('"' :: text.toList.flatMap (fun character =>
    if character = '"' ∨ character = '\\' then ['\\', character] else visible character) ++ ['"'])

end Plasmosome.Manifest
