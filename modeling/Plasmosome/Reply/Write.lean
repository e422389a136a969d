import Plasmosome.Foundation.Loop
import Plasmosome.Manifest.Text
import Plasmosome.Reply.Grammar

/-!
# Writing a value

A value is written in one of two styles by a loop over the containers that are
still open. What the loop writes is what a recursive printer writes, and no
character of it drives a terminal but the line breaks of the layout.
-/

namespace Plasmosome.Reply

open Foundation Backend Manifest

/-- The deepest level that is indented further than the one around it. -/
def maxIndent : Nat := 32

inductive Style where
  | compact
  | human
deriving DecidableEq, Repr

def isTerminalControl (character : Char) : Bool :=
  let code := character.toNat
  code ≤ 0x1f || (0x7f ≤ code && code ≤ 0x9f) || code = 0x061c ||
    (0x200e ≤ code && code ≤ 0x200f) || (0x202a ≤ code && code ≤ 0x202e) ||
    (0x2066 ≤ code && code ≤ 0x2069)

/-! ## Pieces -/

def separator (first : Bool) (style : Style) (depth : Nat) : List Char :=
  (if first then [] else [',']) ++
    match style with
    | .compact => []
    | .human => '\n' :: (List.replicate (min depth maxIndent) [' ', ' ']).flatten

def closeContainer (close : Char) (style : Style) (depth : Nat) : List Char :=
  match style with
  | .compact => [close]
  | .human => separator true style depth ++ [close]

def writeControl (control : Char) : Style → List Char
  | .compact => '\\' :: 'u' :: (hexDigits 4 control.toNat).toList
  | .human => '<' :: 'U' :: '+' :: (upperHexDigits 4 control.toNat ++ ['>'])

def writeChar (style : Style) (character : Char) : List Char :=
  if character = '"' ∨ character = '\\' then ['\\', character]
  else if isTerminalControl character then writeControl character style
  else [character]

def writeString (text : String) (style : Style) : List Char :=
  '"' :: (text.toList.flatMap (writeChar style) ++ ['"'])

def writeKey (key : String) (style : Style) : List Char :=
  writeString key style ++ ':' :: (if style = .human then [' '] else [])

def writeNumber (number : Number) : List Char := number.text.toList

/-! ## The loop -/

inductive Rest where
  | items (items : List Json)
  | members (members : List (String × Json))

/-- An open container, and how many of its items or members are written. -/
structure Level where
  rest : Rest
  next : Nat

def Level.item (level : Level) : Option (Option String × Json) :=
  match level.rest with
  | .items items => items[level.next]?.map fun value => (none, value)
  | .members members => members[level.next]?.map fun member => (some member.1, member.2)

def Level.close (level : Level) : Char :=
  match level.rest with
  | .items _ => ']'
  | .members _ => '\x7d'

structure Writer where
  out : List Char
  levels : List Level
  next : Option Json

namespace Writer

mutual

/-- How much there is to write of a value. -/
def valueWeight : Json → Nat
  | .array items => itemsWeight items + 1
  | .object members => membersWeight members + 1
  | _ => 1

def itemsWeight : List Json → Nat
  | [] => 1
  | item :: rest => valueWeight item + itemsWeight rest + 1

def membersWeight : List (String × Json) → Nat
  | [] => 1
  | (_, value) :: rest => valueWeight value + membersWeight rest + 1

end

/-- Writes a scalar or an empty container, or opens another level. -/
def begin (writer : Writer) (style : Style) : Json → Writer
  | .null => { writer with out := writer.out ++ ['n', 'u', 'l', 'l'], next := none }
  | .bool true => { writer with out := writer.out ++ ['t', 'r', 'u', 'e'], next := none }
  | .bool false => { writer with out := writer.out ++ ['f', 'a', 'l', 's', 'e'], next := none }
  | .number number => { writer with out := writer.out ++ writeNumber number, next := none }
  | .string text => { writer with out := writer.out ++ writeString text style, next := none }
  | .array [] => { writer with out := writer.out ++ ['[', ']'], next := none }
  | .object [] => { writer with out := writer.out ++ ['\x7b', '\x7d'], next := none }
  | .array items =>
      { out := writer.out ++ ['['], levels := ⟨.items items, 0⟩ :: writer.levels, next := none }
  | .object members =>
      { out := writer.out ++ ['\x7b'], levels := ⟨.members members, 0⟩ :: writer.levels,
        next := none }

def begun (writer : Writer) (style : Style) : Writer :=
  match writer.next with
  | some value => writer.begin style value
  | none => writer

/-- Writes the innermost level's next item as far as its value, or closes the level. -/
def advance (writer : Writer) (style : Style) (depth : Nat) : List Char ⊕ Writer :=
  match writer.levels with
  | [] => .inl writer.out
  | level :: outer =>
      match level.item with
      | some (key, value) =>
          .inr
            { out := writer.out ++ (separator (level.next == 0) style (depth + (outer.length + 1)) ++
                (key.map fun key => writeKey key style).getD [])
              levels := { level with next := level.next + 1 } :: outer
              next := some value }
      | none =>
          .inr
            { out := writer.out ++ closeContainer level.close style (depth + outer.length)
              levels := outer
              next := none }

def step (style : Style) (depth : Nat) (writer : Writer) : List Char ⊕ Writer :=
  (writer.begun style).advance style depth

/-- What is left to write of a level. -/
def levelWeight (level : Level) : Nat :=
  match level.rest with
  | .items items => itemsWeight (items.drop level.next)
  | .members members => membersWeight (members.drop level.next)

def weight (writer : Writer) : Nat :=
  (writer.levels.map levelWeight).sum + (writer.next.map valueWeight).getD 0

theorem weight_begun (writer : Writer) (style : Style) :
    (writer.begun style).weight ≤ writer.weight ∧ (writer.begun style).next = none := by
  rcases writer with ⟨out, levels, next⟩
  cases next with
  | none => exact ⟨le_rfl, rfl⟩
  | some value =>
      simp only [begun]
      unfold begin
      split <;> simp [weight, levelWeight, valueWeight, itemsWeight, membersWeight] <;> omega

theorem advance_weight {writer next : Writer} {style : Style} {depth : Nat}
    (hbegun : writer.next = none) (hstep : writer.advance style depth = .inr next) :
    next.weight < writer.weight := by
  rcases writer with ⟨out, levels, pending⟩
  cases hbegun
  cases levels with
  | nil => cases hstep
  | cons level outer =>
      rcases level with ⟨⟨items⟩ | ⟨members⟩, index⟩
      · rw [advance] at hstep
        cases hitem : items[index]? with
        | none =>
            simp only [Level.item, hitem, Option.map_none] at hstep
            cases hstep
            have hdrop : items.drop index = [] := by
              rwa [List.drop_eq_nil_iff, ← List.getElem?_eq_none_iff]
            simp [weight, levelWeight, hdrop, itemsWeight]
        | some value =>
            simp only [Level.item, hitem, Option.map_some] at hstep
            cases hstep
            obtain ⟨hindex, hvalue⟩ := List.getElem?_eq_some_iff.mp hitem
            have hdrop := List.drop_eq_getElem_cons hindex
            rw [hvalue] at hdrop
            simp only [weight, levelWeight, List.map_cons, List.sum_cons, Option.map_some,
              Option.getD_some, Option.map_none, Option.getD_none, hdrop, itemsWeight]
            omega
      · rw [advance] at hstep
        cases hitem : members[index]? with
        | none =>
            simp only [Level.item, hitem, Option.map_none] at hstep
            cases hstep
            have hdrop : members.drop index = [] := by
              rwa [List.drop_eq_nil_iff, ← List.getElem?_eq_none_iff]
            simp [weight, levelWeight, hdrop, membersWeight]
        | some member =>
            simp only [Level.item, hitem, Option.map_some] at hstep
            cases hstep
            obtain ⟨hindex, hvalue⟩ := List.getElem?_eq_some_iff.mp hitem
            have hdrop := List.drop_eq_getElem_cons hindex
            rw [hvalue] at hdrop
            rcases member with ⟨key, value⟩
            simp only [weight, levelWeight, List.map_cons, List.sum_cons, Option.map_some,
              Option.getD_some, Option.map_none, Option.getD_none, hdrop, membersWeight]
            omega

def loop (style : Style) (depth : Nat) : Loop Writer (List Char) where
  step := step style depth
  measure := weight
  decreases writer next hstep := by
    obtain ⟨hbegun, hnone⟩ := weight_begun writer style
    exact (advance_weight hnone hstep).trans_le hbegun

end Writer

/-- Appends the text of a value, in a style, to what is written already. -/
def writeValue (out : List Char) (value : Json) (style : Style) (depth : Nat) : List Char :=
  (Writer.loop style depth).run ⟨out, [], some value⟩

/-- The value on one line, with nothing between its tokens. -/
def writeCompact (value : Json) : String := String.ofList (writeValue [] value .compact 0)

/-- The value with one item or member to a line. -/
def writeHuman (value : Json) : String := String.ofList (writeValue [] value .human 0)

/-! ## The recursive printer -/

/-- What stands before an item or a closing bracket: a line break and two spaces a level, of at
most 32 levels. -/
def lineBreak (depth : Nat) : Style → List Char
  | .compact => []
  | .human => '\n' :: List.replicate (2 * min depth 32) ' '

def colon : Style → List Char
  | .compact => [':']
  | .human => [':', ' ']

mutual

def print (style : Style) (depth : Nat) : Json → List Char
  | .null => ['n', 'u', 'l', 'l']
  | .bool true => ['t', 'r', 'u', 'e']
  | .bool false => ['f', 'a', 'l', 's', 'e']
  | .number number => writeNumber number
  | .string text => writeString text style
  | .array [] => ['[', ']']
  | .object [] => ['\x7b', '\x7d']
  | .array (first :: rest) =>
      '[' :: (printItems style (depth + 1) true (first :: rest) ++ (lineBreak depth style ++ [']']))
  | .object (first :: rest) =>
      '\x7b' :: (printMembers style (depth + 1) true (first :: rest) ++
        (lineBreak depth style ++ ['\x7d']))

def printItems (style : Style) (depth : Nat) (first : Bool) : List Json → List Char
  | [] => []
  | item :: rest =>
      (if first then [] else [',']) ++ (lineBreak depth style ++
        (print style depth item ++ printItems style depth false rest))

def printMembers (style : Style) (depth : Nat) (first : Bool) :
    List (String × Json) → List Char
  | [] => []
  | (key, value) :: rest =>
      (if first then [] else [',']) ++ (lineBreak depth style ++
        (writeString key style ++ colon style ++
          (print style depth value ++ printMembers style depth false rest)))

end

end Plasmosome.Reply
