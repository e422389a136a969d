import Mathlib

/-!
# Values of a reply and the texts that spell them

The grammar of RFC 8259 over a list of characters, as the relation between a
text and the value it spells. An escaped character is never half of a surrogate
pair. An object may repeat a key here; `Json.NoRepeat` says that none does.
-/

namespace Plasmosome.Reply

/-! ## Numbers -/

def Digits (text : List Char) : Prop := text ≠ [] ∧ ∀ char ∈ text, char.isDigit

inductive IntegerText : List Char → Prop where
  | zero : IntegerText ['0']
  | digits {first : Char} {rest : List Char} (hfirst : first.isDigit) (hnonzero : first ≠ '0')
      (hrest : ∀ char ∈ rest, char.isDigit) : IntegerText (first :: rest)

inductive FractionText : List Char → Prop where
  | absent : FractionText []
  | present {digits : List Char} (hdigits : Digits digits) : FractionText ('.' :: digits)

inductive ExponentText : List Char → Prop where
  | absent : ExponentText []
  | present {mark : Char} {sign digits : List Char} (hmark : mark = 'e' ∨ mark = 'E')
      (hsign : sign = [] ∨ sign = ['+'] ∨ sign = ['-']) (hdigits : Digits digits) :
      ExponentText (mark :: (sign ++ digits))

inductive NumberText : List Char → Prop where
  | number {sign integer fraction exponent : List Char} (hsign : sign = [] ∨ sign = ['-'])
      (hinteger : IntegerText integer) (hfraction : FractionText fraction)
      (hexponent : ExponentText exponent) :
      NumberText (sign ++ (integer ++ (fraction ++ exponent)))

/-- A number's text, which the number grammar accepts in full. -/
structure Number where
  text : String
  valid : NumberText text.toList

@[ext] theorem Number.ext {first second : Number} (htext : first.text = second.text) :
    first = second := by
  cases first
  cases second
  cases htext
  rfl

/-! ## Values -/

inductive Json where
  | null
  | bool (value : Bool)
  | number (number : Number)
  | string (text : String)
  | array (items : List Json)
  | object (members : List (String × Json))

namespace Json

/-- Induction over a value, with the hypothesis for every item and every member's value. -/
@[elab_as_elim]
theorem tree_induction {motive : Json → Prop} (hnull : motive .null)
    (hbool : ∀ value, motive (.bool value)) (hnumber : ∀ value, motive (.number value))
    (hstring : ∀ text, motive (.string text))
    (harray : ∀ items, (∀ item ∈ items, motive item) → motive (.array items))
    (hobject : ∀ members : List (String × Json),
      (∀ key item, (key, item) ∈ members → motive item) → motive (.object members)) :
    ∀ value, motive value
  | .null => hnull
  | .bool value => hbool value
  | .number value => hnumber value
  | .string text => hstring text
  | .array items => harray items fun item hitem =>
      have _hsmaller := List.sizeOf_lt_of_mem hitem
      tree_induction hnull hbool hnumber hstring harray hobject item
  | .object members => hobject members fun key item hmember =>
      have _hsmaller := List.sizeOf_lt_of_mem hmember
      tree_induction hnull hbool hnumber hstring harray hobject item
termination_by value => sizeOf value
decreasing_by
  all_goals simp_wf
  · omega
  · simp only [Prod.mk.sizeOf_spec] at _hsmaller
    omega

/-- No object in the value gives a key twice. -/
inductive NoRepeat : Json → Prop where
  | null : NoRepeat .null
  | bool (value : Bool) : NoRepeat (.bool value)
  | number (number : Number) : NoRepeat (.number number)
  | string (text : String) : NoRepeat (.string text)
  | array {items : List Json} (hitems : ∀ item ∈ items, NoRepeat item) : NoRepeat (.array items)
  | object {members : List (String × Json)} (hkeys : (members.map Prod.fst).Nodup)
      (hvalues : ∀ member ∈ members, NoRepeat member.2) : NoRepeat (.object members)

end Json

/-! ## Strings -/

def isBlank (char : Char) : Bool := char = ' ' || char = '\t' || char = '\n' || char = '\r'

def Blank (text : List Char) : Prop := ∀ char ∈ text, isBlank char

/-- The value of a hexadecimal digit, of either case. -/
def hexValue? (char : Char) : Option Nat :=
  let code := char.toNat
  if 0x30 ≤ code ∧ code ≤ 0x39 then some (code - 0x30)
  else if 0x41 ≤ code ∧ code ≤ 0x46 then some (code - 0x41 + 10)
  else if 0x61 ≤ code ∧ code ≤ 0x66 then some (code - 0x61 + 10)
  else none

inductive HexText : List Char → Nat → Prop where
  | four {first second third fourth : Char} {a b c d : Nat} (hfirst : hexValue? first = some a)
      (hsecond : hexValue? second = some b) (hthird : hexValue? third = some c)
      (hfourth : hexValue? fourth = some d) :
      HexText [first, second, third, fourth] (((a * 16 + b) * 16 + c) * 16 + d)

/-- What the character after a backslash stands for, unless it is the `u` of a code unit. -/
def simpleEscape? : Char → Option Char
  | '"' => some '"'
  | '\\' => some '\\'
  | '/' => some '/'
  | 'b' => some '\x08'
  | 'f' => some '\x0c'
  | 'n' => some '\n'
  | 'r' => some '\r'
  | 't' => some '\t'
  | _ => none

/-- A character of a string: itself, an escape, a code unit, or a pair of surrogates. -/
inductive CharText : List Char → Char → Prop where
  | plain {char : Char} (hquote : char ≠ '"') (hbackslash : char ≠ '\\')
      (hcontrol : 0x20 ≤ char.toNat) : CharText [char] char
  | simple {mark char : Char} (hmark : simpleEscape? mark = some char) :
      CharText ['\\', mark] char
  | unit {digits : List Char} {char : Char} (hdigits : HexText digits char.toNat) :
      CharText ('\\' :: 'u' :: digits) char
  | pair {high low : List Char} {first second : Nat} {char : Char} (hhigh : HexText high first)
      (hlow : HexText low second) (hfirst : 0xd800 ≤ first ∧ first ≤ 0xdbff)
      (hsecond : 0xdc00 ≤ second ∧ second ≤ 0xdfff)
      (hchar : char.toNat = 0x10000 + ((first - 0xd800) * 0x400) + (second - 0xdc00)) :
      CharText ('\\' :: 'u' :: (high ++ '\\' :: 'u' :: low)) char

inductive CharsText : List Char → List Char → Prop where
  | nil : CharsText [] []
  | cons {first rest decoded : List Char} {char : Char} (hfirst : CharText first char)
      (hrest : CharsText rest decoded) : CharsText (first ++ rest) (char :: decoded)

inductive StringText : List Char → String → Prop where
  | quoted {raw : List Char} {text : String} (hraw : CharsText raw text.toList) :
      StringText ('"' :: (raw ++ ['"'])) text

/-- A member's key and the colon after it, with the blanks around them. -/
inductive KeyText : List Char → String → Prop where
  | key {before text after : List Char} {key : String} (hbefore : Blank before)
      (htext : StringText text key) (hafter : Blank after) :
      KeyText (before ++ (text ++ (after ++ [':']))) key

/-! ## Values -/

/-- What a text spells: a value, or the items or members that stand before another one. -/
inductive Shape where
  | value (value : Json)
  | items (items : List Json)
  | members (members : List (String × Json))

/-- Each item and each member but a container's last ends with a comma. -/
inductive Spells : List Char → Shape → Prop where
  | literalNull : Spells ['n', 'u', 'l', 'l'] (.value .null)
  | literalTrue : Spells ['t', 'r', 'u', 'e'] (.value (.bool true))
  | literalFalse : Spells ['f', 'a', 'l', 's', 'e'] (.value (.bool false))
  | number (number : Number) : Spells number.text.toList (.value (.number number))
  | string {text : List Char} {decoded : String} (htext : StringText text decoded) :
      Spells text (.value (.string decoded))
  | emptyArray {blank : List Char} (hblank : Blank blank) :
      Spells ('[' :: (blank ++ [']'])) (.value (.array []))
  | array {text before inner after : List Char} {items : List Json} {last : Json}
      (hitems : Spells text (.items items)) (hbefore : Blank before)
      (hlast : Spells inner (.value last)) (hafter : Blank after) :
      Spells ('[' :: (text ++ (before ++ (inner ++ (after ++ [']'])))))
        (.value (.array (items ++ [last])))
  | emptyObject {blank : List Char} (hblank : Blank blank) :
      Spells ('\x7b' :: (blank ++ ['\x7d'])) (.value (.object []))
  | object {text keyText before inner after : List Char} {members : List (String × Json)}
      {key : String} {last : Json} (hmembers : Spells text (.members members))
      (hkey : KeyText keyText key) (hbefore : Blank before)
      (hlast : Spells inner (.value last)) (hafter : Blank after) :
      Spells ('\x7b' :: (text ++ (keyText ++ (before ++ (inner ++ (after ++ ['\x7d']))))))
        (.value (.object (members ++ [(key, last)])))
  | noItems : Spells [] (.items [])
  | item {text before inner after : List Char} {items : List Json} {last : Json}
      (hitems : Spells text (.items items)) (hbefore : Blank before)
      (hlast : Spells inner (.value last)) (hafter : Blank after) :
      Spells (text ++ (before ++ (inner ++ (after ++ [','])))) (.items (items ++ [last]))
  | noMembers : Spells [] (.members [])
  | member {text keyText before inner after : List Char} {members : List (String × Json)}
      {key : String} {last : Json} (hmembers : Spells text (.members members))
      (hkey : KeyText keyText key) (hbefore : Blank before)
      (hlast : Spells inner (.value last)) (hafter : Blank after) :
      Spells (text ++ (keyText ++ (before ++ (inner ++ (after ++ [','])))))
        (.members (members ++ [(key, last)]))

/-- A text that spells one value, with optional blanks around it. -/
inductive DocumentText : List Char → Json → Prop where
  | document {before text after : List Char} {value : Json} (hbefore : Blank before)
      (hvalue : Spells text (.value value)) (hafter : Blank after) :
      DocumentText (before ++ (text ++ after)) value

theorem Blank.nil : Blank [] := by
  intro char hchar
  cases hchar

theorem Blank.append {first second : List Char} (hfirst : Blank first) (hsecond : Blank second) :
    Blank (first ++ second) := by
  intro char hchar
  rcases List.mem_append.mp hchar with hmem | hmem
  · exact hfirst char hmem
  · exact hsecond char hmem

end Plasmosome.Reply
