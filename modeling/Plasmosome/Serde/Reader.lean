import Plasmosome.Foundation.Decimal
import Plasmosome.Foundation.Utf8
import Plasmosome.Reply.Grammar
import Plasmosome.Serde.Value

/-!
# Reading documents

The library that reads a document hands its caller the values it spells, with the
members of an object in the order they were written and repeated ones kept. What
the library does is a parameter; that it reads what the compact writer writes is
proved from what it documents.
-/

namespace Plasmosome.Serde

open Foundation
open Reply (Json DocumentText Spells StringText CharText CharsText HexText KeyText Blank)

/-! ## Values -/

namespace Value

/-- Induction over a value, with the hypothesis for every item and every member's value. -/
@[elab_as_elim]
theorem tree_induction {motive : Value → Prop} (hnull : motive .null)
    (hbool : ∀ value, motive (.bool value)) (hnumber : ∀ value, motive (.number value))
    (hstring : ∀ text, motive (.string text))
    (harray : ∀ items, (∀ item ∈ items, motive item) → motive (.array items))
    (hobject : ∀ members : List (String × Value),
      (∀ key item, (key, item) ∈ members → motive item) → motive (.object members)) :
    ∀ value, motive value
  | .null => hnull
  | .bool value => hbool value
  | .number value => hnumber value
  | .string text => hstring text
  | .array items => harray items fun item hitem =>
      have _hsmaller := List.sizeOf_lt_of_mem hitem
      tree_induction hnull hbool hnumber hstring harray hobject item
  | .object members => hobject members fun key item hmember =>
      have _hsmaller := List.sizeOf_lt_of_mem hmember
      tree_induction hnull hbool hnumber hstring harray hobject item
termination_by value => sizeOf value
decreasing_by
  all_goals simp_wf
  · omega
  · simp only [Prod.mk.sizeOf_spec] at _hsmaller
    omega

mutual

/-- How many containers enclose the innermost value. -/
def depth : Value → Nat
  | .array items => itemsDepth items + 1
  | .object members => membersDepth members + 1
  | _ => 0

def itemsDepth : List Value → Nat
  | [] => 0
  | item :: rest => max (depth item) (itemsDepth rest)

def membersDepth : List (String × Value) → Nat
  | [] => 0
  | (_, value) :: rest => max (depth value) (membersDepth rest)

end

/-- No object in the value gives a key twice. -/
inductive NoRepeat : Value → Prop where
  | null : NoRepeat .null
  | bool (value : Bool) : NoRepeat (.bool value)
  | number (number : Number) : NoRepeat (.number number)
  | string (text : String) : NoRepeat (.string text)
  | array {items : List Value} (hitems : ∀ item ∈ items, NoRepeat item) : NoRepeat (.array items)
  | object {members : List (String × Value)} (hkeys : (members.map Prod.fst).Nodup)
      (hvalues : ∀ member ∈ members, NoRepeat member.2) : NoRepeat (.object members)

end Value

/-- Whether the bits are a float that is neither infinite nor no number. -/
def isFinite (bits : UInt64) : Bool := bits >>> 52 &&& 0x7ff ≠ 0x7ff

def Number.Valid : Number → Prop
  | .posInt _ => True
  | .negInt value => value < 0
  | .float bits => isFinite bits

/-- A value as the type of the library builds it: no key twice, no `negInt` that is not negative,
and no float that is not finite. -/
inductive Value.Valid : Value → Prop where
  | null : Value.Valid .null
  | bool (value : Bool) : Value.Valid (.bool value)
  | number {number : Number} (hnumber : number.Valid) : Value.Valid (.number number)
  | string (text : String) : Value.Valid (.string text)
  | array {items : List Value} (hitems : ∀ item ∈ items, Value.Valid item) :
      Value.Valid (.array items)
  | object {members : List (String × Value)} (hkeys : (members.map Prod.fst).Nodup)
      (hvalues : ∀ member ∈ members, Value.Valid member.2) : Value.Valid (.object members)

/-! ## The library -/

/-- The deepest nesting that is read. -/
def maxDepth : Nat := 127

/-- Where a text stops being a document, and why. -/
structure Syntax where
  line : Nat
  column : Nat
  reason : String
deriving DecidableEq

/-- The texts of the parts of a document, none of them read. -/
inductive Outline where
  | object (members : List (String × List UInt8))
  | array (items : List (List UInt8))

/-- The library that reads documents and prints floats. What it reads of a document is what it
shows a reader, who makes of it what it wants. It also takes an object or an array apart without
reading what is in it. -/
structure Library where
  floatText : UInt64 → Reply.Number
  floatBits : Reply.Number → Option UInt64
  tree : List UInt8 → Except Syntax Value
  outline : List UInt8 → Option Outline

/-- The number a text spells: an integer that fits, or else a float. `-0` is a float. -/
def numberOf (floatBits : Reply.Number → Option UInt64) (number : Reply.Number) : Option Number :=
  let float := (floatBits number).map Number.float
  match number.text.toList with
  | '-' :: digits =>
      if digits.all Char.isDigit then
        match (String.ofList digits).toNat? with
        | some value =>
            if 0 < value ∧ value ≤ 2 ^ 63 then some (.negInt (Int64.ofInt (-value))) else float
        | none => float
      else float
  | digits =>
      if digits.all Char.isDigit then
        match (String.ofList digits).toNat? with
        | some value => if value < 2 ^ 64 then some (.posInt (UInt64.ofNat value)) else float
        | none => float
      else float

/-- The value a tree of texts stands for. -/
inductive Means (floatBits : Reply.Number → Option UInt64) : Json → Value → Prop where
  | null : Means floatBits .null .null
  | bool (value : Bool) : Means floatBits (.bool value) (.bool value)
  | string (text : String) : Means floatBits (.string text) (.string text)
  | number {text : Reply.Number} {number : Number} (hnumber : numberOf floatBits text = some number) :
      Means floatBits (.number text) (.number number)
  | array {items : List Json} {values : List Value} (hlength : items.length = values.length)
      (hitems : ∀ pair ∈ items.zip values, Means floatBits pair.1 pair.2) :
      Means floatBits (.array items) (.array values)
  | object {members : List (String × Json)} {values : List (String × Value)}
      (hkeys : members.map Prod.fst = values.map Prod.fst)
      (hvalues : ∀ pair ∈ members.zip values, Means floatBits pair.1.2 pair.2.2) :
      Means floatBits (.object members) (.object values)

/-- The bytes are a document of the tree of texts. -/
def IsText (bytes : List UInt8) (json : Json) : Prop :=
  ∃ text, bytes = Utf8.encode text ∧ DocumentText text json

namespace Library

def floatChars (library : Library) (bits : UInt64) : List Char :=
  (library.floatText bits).text.toList

/-- The compact bytes of a value. -/
def write (library : Library) (value : Value) : List UInt8 :=
  Utf8.encode (value.write library.floatChars)

/-- What the library documents of reading: it takes one document of finite numbers, nested at
most 127 deep, and gives the value it spells. It takes a document apart however deep it is
nested and whatever its numbers are, and the parts are documents of their own; what an object's
text begins with is not taken apart. Nothing is said of which document with repeated keys it
takes. The text of a float reads as a float, which may be another one. -/
structure Documented (library : Library) : Prop where
  sound : ∀ bytes value, library.tree bytes = .ok value → ∃ text json, bytes = Utf8.encode text ∧
    DocumentText text json ∧ Means library.floatBits json value ∧ value.depth ≤ maxDepth
  complete : ∀ text json value, DocumentText text json → json.NoRepeat →
    Means library.floatBits json value → value.depth ≤ maxDepth →
    library.tree (Utf8.encode text) = .ok value
  refuses : ∀ text json value, DocumentText text json → json.NoRepeat →
    Means library.floatBits json value → maxDepth < value.depth →
    ∃ fault, library.tree (Utf8.encode text) = .error fault
  members : ∀ text members, DocumentText text (.object members) →
    (Json.object members).NoRepeat → ∃ parts,
      library.outline (Utf8.encode text) = some (.object parts) ∧
        List.Forall₂ (fun part member => part.1 = member.1 ∧ IsText part.2 member.2) parts members
  items : ∀ text items, DocumentText text (.array items) → (Json.array items).NoRepeat →
    ∃ parts, library.outline (Utf8.encode text) = some (.array parts) ∧
      List.Forall₂ IsText parts items
  cuts : ∀ text members cut, Spells text (.value (.object members)) →
    cut <+: Utf8.encode text → cut ≠ Utf8.encode text → library.outline cut = none
  floats : ∀ bits, isFinite bits → ∃ read,
    numberOf library.floatBits (library.floatText bits) = some (.float read)

/-- The number that is read from a number's text. -/
def rereadNumber (library : Library) : Number → Number
  | .float bits => (numberOf library.floatBits (library.floatText bits)).getD (.float bits)
  | integer => integer

mutual

/-- The value that is read from a value's compact text. -/
def reread (library : Library) : Value → Value
  | .number number => .number (library.rereadNumber number)
  | .array items => .array (rereadItems library items)
  | .object members => .object (rereadMembers library members)
  | other => other

def rereadItems (library : Library) : List Value → List Value
  | [] => []
  | item :: rest => reread library item :: rereadItems library rest

def rereadMembers (library : Library) : List (String × Value) → List (String × Value)
  | [] => []
  | (key, value) :: rest => (key, reread library value) :: rereadMembers library rest

end

/-- The value reads back as it is: every float in it has a text that reads as it. -/
def Exact (library : Library) (value : Value) : Prop := library.reread value = value

end Library

/-! ## The compact text -/

theorem hexValue?_hexDigit {value : Nat} (hvalue : value < 16) :
    Reply.hexValue? (hexDigit value) = some value := by
  interval_cases value <;> decide

theorem charText_escapeChar (char : Char) : CharText (escapeChar char) char := by
  unfold escapeChar
  split
  next hquote =>
    subst hquote
    exact .simple rfl
  split
  next hslash =>
    subst hslash
    exact .simple rfl
  split
  next hback =>
    subst hback
    exact .simple rfl
  split
  next hfeed =>
    subst hfeed
    exact .simple rfl
  split
  next hline =>
    subst hline
    exact .simple rfl
  split
  next hreturn =>
    subst hreturn
    exact .simple rfl
  split
  next htab =>
    subst htab
    exact .simple rfl
  split
  next hcontrol =>
    have hhex : HexText ['0', '0', hexDigit (char.toNat / 16), hexDigit (char.toNat % 16)]
        (((0 * 16 + 0) * 16 + char.toNat / 16) * 16 + char.toNat % 16) :=
      .four rfl rfl (hexValue?_hexDigit (by omega)) (hexValue?_hexDigit (by omega))
    have hcode : ((0 * 16 + 0) * 16 + char.toNat / 16) * 16 + char.toNat % 16 = char.toNat := by
      omega
    rw [hcode] at hhex
    exact .unit hhex
  next hplain =>
    exact .plain (by assumption) (by assumption) (by omega)

theorem stringText_quoted (text : String) : StringText (quoted text) text := by
  have hchars : ∀ chars : List Char, CharsText (chars.flatMap escapeChar) chars := by
    intro chars
    induction chars with
    | nil => exact .nil
    | cons char rest ih => exact .cons (charText_escapeChar char) ih
  exact .quoted (hchars text.toList)

theorem keyText_quoted (key : String) : KeyText (quoted key ++ [':']) key :=
  .key Blank.nil (stringText_quoted key) Blank.nil

theorem integerText_toDigits (number : Nat) : Reply.IntegerText (Nat.toDigits 10 number) := by
  rcases Nat.eq_zero_or_pos number with rfl | hpositive
  · exact .zero
  · have hhead := head_toDigits hpositive
    have hdigits := List.all_eq_true.mp (all_isDigit_toDigits number)
    cases htext : Nat.toDigits 10 number with
    | nil => exact absurd htext (toDigits_ne_nil number)
    | cons first rest =>
        rw [htext] at hhead hdigits
        refine .digits (hdigits first List.mem_cons_self) ?_ fun char hchar =>
          hdigits char (List.mem_cons_of_mem _ hchar)
        intro hzero
        exact hhead (by rw [hzero]; rfl)

/-- The text of an integer, with its sign. -/
def integerNumber (sign : List Char) (hsign : sign = [] ∨ sign = ['-']) (value : Nat) :
    Reply.Number where
  text := String.ofList (sign ++ Nat.toDigits 10 value)
  valid := by
    have htext := Reply.NumberText.number hsign (integerText_toDigits value) .absent .absent
    simpa using htext

section Writing

variable {library : Library}

theorem numberOf_posInt (value : UInt64) :
    numberOf library.floatBits (integerNumber [] (.inl rfl) value.toNat) =
      some (.posInt value) := by
  have hread := toNat?_toString value.toNat
  rw [toString_toList] at hread
  have hall := all_isDigit_toDigits value.toNat
  have hbound : value.toNat < 2 ^ 64 := value.toNat_lt
  simp only [numberOf, integerNumber, String.toList_ofList, List.nil_append]
  split
  next hminus =>
    rw [hminus] at hall
    cases hall
  next =>
    rw [if_pos hall, hread]
    simp only [if_pos hbound, UInt64.ofNat_toNat]

theorem numberOf_negInt {value : Int64} (hnegative : value < 0) :
    numberOf library.floatBits (integerNumber ['-'] (.inr rfl) value.toInt.natAbs) =
      some (.negInt value) := by
  have hread := toNat?_toString value.toInt.natAbs
  rw [toString_toList] at hread
  have hsign : value.toInt < 0 := by simpa [Int64.lt_iff_toInt_lt] using hnegative
  have hlow : -2 ^ 63 ≤ value.toInt := value.le_toInt
  simp only [numberOf, integerNumber, String.toList_ofList, List.cons_append, List.nil_append]
  rw [if_pos (all_isDigit_toDigits _), hread]
  have hback : -(value.toInt.natAbs : Int) = value.toInt := by omega
  simp only [hback, Int64.ofInt_toInt]
  rw [if_pos (by omega)]

theorem number_text (hlibrary : library.Documented) {number : Number} (hvalid : number.Valid) :
    ∃ text : Reply.Number, text.text.toList = number.text library.floatChars ∧
      numberOf library.floatBits text = some (library.rereadNumber number) := by
  cases number with
  | posInt value =>
      refine ⟨integerNumber [] (.inl rfl) value.toNat, ?_, numberOf_posInt value⟩
      rw [Number.text, toString_toList]
      exact String.toList_ofList
  | negInt value =>
      have hnegative : value < 0 := hvalid
      refine ⟨integerNumber ['-'] (.inr rfl) value.toInt.natAbs, ?_, numberOf_negInt hnegative⟩
      have hsign : value.toInt < 0 := by simpa [Int64.lt_iff_toInt_lt] using hnegative
      rw [Number.text]
      cases hvalue : value.toInt with
      | ofNat magnitude =>
          rw [hvalue] at hsign
          exact absurd hsign (Int.not_lt.mpr (Int.natCast_nonneg magnitude))
      | negSucc magnitude =>
          simp [integerNumber, toString, Int.repr, Nat.repr]
  | float bits =>
      obtain ⟨read, hread⟩ := hlibrary.floats bits hvalid
      refine ⟨library.floatText bits, rfl, ?_⟩
      rw [Library.rereadNumber, hread]
      rfl

end Writing

section Spelling

variable {library : Library}

/-- A tree of texts that stands for a value, and repeats no key the value does not. -/
def Reads (library : Library) (json : Json) (value : Value) : Prop :=
  Means library.floatBits json value ∧ (value.NoRepeat → json.NoRepeat)

/-- A value's compact text spells a tree of texts that stands for it. -/
def Spelled (library : Library) (text : List Char) (value : Value) : Prop :=
  ∃ json, Spells text (.value json) ∧ Reads library json value

theorem reads_array {items : List Json} {values : List Value}
    (hreads : List.Forall₂ (Reads library) items values) :
    Reads library (.array items) (.array values) := by
  obtain ⟨hlength, hzip⟩ := List.forall₂_iff_zip.mp hreads
  refine ⟨.array hlength fun pair hpair => (hzip hpair).1, fun hrepeat => ?_⟩
  cases hrepeat with
  | array hvalues =>
      refine .array fun item hitem => ?_
      obtain ⟨index, hindex, rfl⟩ := List.mem_iff_getElem.mp hitem
      have hvalue : index < values.length := hlength ▸ hindex
      have hmember : (items[index], values[index]) ∈ items.zip values :=
        List.mem_iff_getElem.mpr ⟨index, by simp [hindex, hvalue], by simp⟩
      exact (hzip hmember).2 (hvalues _ (List.getElem_mem hvalue))

theorem reads_object {members : List (String × Json)} {values : List (String × Value)}
    (hreads : List.Forall₂ (fun member value => member.1 = value.1 ∧
      Reads library member.2 value.2) members values) :
    Reads library (.object members) (.object values) := by
  obtain ⟨hlength, hzip⟩ := List.forall₂_iff_zip.mp hreads
  have hkeys : members.map Prod.fst = values.map Prod.fst := by
    refine List.ext_getElem (by simpa using hlength) fun index hindex hvalue => ?_
    rw [List.length_map] at hindex hvalue
    have hmember : (members[index], values[index]) ∈ members.zip values :=
      List.mem_iff_getElem.mpr ⟨index, by simp [hindex, hvalue], by simp⟩
    simpa using (hzip hmember).1
  refine ⟨.object hkeys fun pair hpair => (hzip hpair).2.1, fun hrepeat => ?_⟩
  cases hrepeat with
  | object hnodup hvalues =>
      refine .object (hkeys ▸ hnodup) fun member hmember => ?_
      obtain ⟨index, hindex, rfl⟩ := List.mem_iff_getElem.mp hmember
      have hvalue : index < values.length := hlength ▸ hindex
      have hpair : (members[index], values[index]) ∈ members.zip values :=
        List.mem_iff_getElem.mpr ⟨index, by simp [hindex, hvalue], by simp⟩
      exact (hzip hpair).2.2 (hvalues _ (List.getElem_mem hvalue))

theorem forall₂_concat {α β : Type} {relation : α → β → Prop} {first : List α} {second : List β}
    {left : α} {right : β} (hall : List.Forall₂ relation first second)
    (hlast : relation left right) :
    List.Forall₂ relation (first ++ [left]) (second ++ [right]) :=
  List.rel_append hall (.cons hlast .nil)

theorem writeItems_cons (first : Value) (rest : List Value) :
    Value.writeItems library.floatChars (first :: rest) =
      first.write library.floatChars ++
        rest.flatMap (fun item => ',' :: item.write library.floatChars) := by
  induction rest generalizing first with
  | nil => simp [Value.writeItems]
  | cons next rest ih => rw [Value.writeItems, ih next, List.flatMap_cons, List.cons_append]

theorem writeMembers_cons (first : String × Value) (rest : List (String × Value)) :
    Value.writeMembers library.floatChars (first :: rest) =
      quoted first.1 ++ ':' :: (first.2.write library.floatChars ++
        rest.flatMap (fun member =>
          ',' :: (quoted member.1 ++ ':' :: member.2.write library.floatChars))) := by
  induction rest generalizing first with
  | nil => simp [Value.writeMembers]
  | cons next rest ih =>
      rw [Value.writeMembers, ih next, List.flatMap_cons]
      simp

/-- The items that follow those already spelled. -/
theorem spelled_items (rest : List Value)
    (hrest : ∀ item ∈ rest,
      Spelled library (item.write library.floatChars) (library.reread item))
    {text inner : List Char} {items : List Json} {last : Json} {values : List Value}
    (hitems : Spells text (.items items)) (hlast : Spells inner (.value last))
    (hreads : List.Forall₂ (Reads library) (items ++ [last]) values) :
    Spelled library
      ('[' :: (text ++ (inner ++
        (rest.flatMap (fun item => ',' :: item.write library.floatChars) ++ [']']))))
      (.array (values ++ rest.map library.reread)) := by
  induction rest generalizing text inner items last values with
  | nil =>
      refine ⟨.array (items ++ [last]), ?_, ?_⟩
      · simpa using hitems.array Blank.nil hlast Blank.nil
      · rw [List.map_nil, List.append_nil]
        exact reads_array hreads
  | cons next rest ih =>
      obtain ⟨json, hspells, hnext⟩ := hrest next List.mem_cons_self
      have hmore := ih (fun item hitem => hrest item (List.mem_cons_of_mem _ hitem))
        (hitems.item Blank.nil hlast Blank.nil) hspells (forall₂_concat hreads hnext)
      simpa [List.append_assoc] using hmore

theorem spelled_members (rest : List (String × Value))
    (hrest : ∀ member ∈ rest,
      Spelled library (member.2.write library.floatChars) (library.reread member.2))
    {text inner : List Char} {members : List (String × Json)} {key : String} {last : Json}
    {values : List (String × Value)} (hmembers : Spells text (.members members))
    (hlast : Spells inner (.value last))
    (hreads : List.Forall₂ (fun member value => member.1 = value.1 ∧
      Reads library member.2 value.2) (members ++ [(key, last)]) values) :
    Spelled library
      ('\x7b' :: (text ++ (quoted key ++ ':' :: (inner ++
        (rest.flatMap (fun member =>
          ',' :: (quoted member.1 ++ ':' :: member.2.write library.floatChars)) ++ ['\x7d'])))))
      (.object (values ++ rest.map fun member => (member.1, library.reread member.2))) := by
  induction rest generalizing text inner members key last values with
  | nil =>
      refine ⟨.object (members ++ [(key, last)]), ?_, ?_⟩
      · simpa using hmembers.object (keyText_quoted key) Blank.nil hlast Blank.nil
      · rw [List.map_nil, List.append_nil]
        exact reads_object hreads
  | cons next rest ih =>
      obtain ⟨json, hspells, hnext⟩ := hrest next List.mem_cons_self
      have hmember : (next.1, json).1 = (next.1, library.reread next.2).1 ∧
          Reads library (next.1, json).2 (next.1, library.reread next.2).2 := ⟨rfl, hnext⟩
      have hconcat := forall₂_concat hreads hmember
      have hmore := ih (fun member hmember => hrest member (List.mem_cons_of_mem _ hmember))
        (hmembers.member (keyText_quoted key) Blank.nil hlast Blank.nil) hspells hconcat
      simpa [List.append_assoc] using hmore

theorem rereadItems_eq_map (items : List Value) :
    library.rereadItems items = items.map library.reread := by
  induction items with
  | nil => rfl
  | cons item rest ih => rw [Library.rereadItems, ih, List.map_cons]

theorem rereadMembers_eq_map (members : List (String × Value)) :
    library.rereadMembers members =
      members.map fun member => (member.1, library.reread member.2) := by
  induction members with
  | nil => rfl
  | cons member rest ih => rw [Library.rereadMembers, ih, List.map_cons]

theorem spelled_write (hlibrary : library.Documented) {value : Value} (hvalid : value.Valid) :
    Spelled library (value.write library.floatChars) (library.reread value) := by
  induction value using Value.tree_induction with
  | hnull => exact ⟨.null, .literalNull, .null, fun _ => .null⟩
  | hbool value =>
      cases value with
      | true => exact ⟨.bool true, .literalTrue, .bool true, fun _ => .bool true⟩
      | false => exact ⟨.bool false, .literalFalse, .bool false, fun _ => .bool false⟩
  | hnumber number =>
      cases hvalid with
      | number hnumber =>
          obtain ⟨text, htext, hread⟩ := number_text hlibrary hnumber
          refine ⟨.number text, ?_, .number hread, fun _ => .number text⟩
          rw [Value.write, ← htext]
          exact .number text
  | hstring text =>
      exact ⟨.string text, .string (stringText_quoted text), .string text, fun _ => .string text⟩
  | harray items ih =>
      cases hvalid with
      | array hitems =>
          have hall : ∀ item ∈ items,
              Spelled library (item.write library.floatChars) (library.reread item) :=
            fun item hitem => ih item hitem (hitems item hitem)
          rw [Library.reread, rereadItems_eq_map]
          cases items with
          | nil => exact ⟨.array [], .emptyArray Blank.nil, reads_array .nil⟩
          | cons first rest =>
              obtain ⟨json, hspells, hreads⟩ := hall first List.mem_cons_self
              have hmore := spelled_items rest
                (fun item hitem => hall item (List.mem_cons_of_mem _ hitem)) .noItems hspells
                (.cons hreads .nil)
              rw [Value.write, writeItems_cons]
              simpa [List.append_assoc] using hmore
  | hobject members ih =>
      cases hvalid with
      | object _ hvalues =>
          have hall : ∀ member ∈ members,
              Spelled library (member.2.write library.floatChars) (library.reread member.2) :=
            fun member hmember => ih member.1 member.2 hmember (hvalues member hmember)
          rw [Library.reread, rereadMembers_eq_map]
          cases members with
          | nil => exact ⟨.object [], .emptyObject Blank.nil, reads_object .nil⟩
          | cons member rest =>
              obtain ⟨json, hspells, hreads⟩ := hall member List.mem_cons_self
              have hfirst : (member.1, json).1 = (member.1, library.reread member.2).1 ∧
                  Reads library (member.1, json).2 (member.1, library.reread member.2).2 :=
                ⟨rfl, hreads⟩
              have hmore := spelled_members rest
                (fun member hmember => hall member (List.mem_cons_of_mem _ hmember)) .noMembers
                hspells (.cons hfirst .nil)
              rw [Value.write, writeMembers_cons]
              simpa [List.append_assoc] using hmore

theorem depth_reread (value : Value) : (library.reread value).depth = value.depth := by
  induction value using Value.tree_induction with
  | harray items ih =>
      have hitems : Value.itemsDepth (items.map library.reread) = Value.itemsDepth items := by
        induction items with
        | nil => rfl
        | cons item rest ihRest =>
            rw [List.map_cons, Value.itemsDepth, Value.itemsDepth, ih item List.mem_cons_self,
              ihRest fun other hother => ih other (List.mem_cons_of_mem _ hother)]
      rw [Library.reread, rereadItems_eq_map, Value.depth, Value.depth, hitems]
  | hobject members ih =>
      have hmembers : Value.membersDepth
          (members.map fun member => (member.1, library.reread member.2)) =
            Value.membersDepth members := by
        induction members with
        | nil => rfl
        | cons member rest ihRest =>
            rcases member with ⟨key, value⟩
            rw [List.map_cons, Value.membersDepth, Value.membersDepth,
              ih key value List.mem_cons_self,
              ihRest fun other held hother => ih other held (List.mem_cons_of_mem _ hother)]
      rw [Library.reread, rereadMembers_eq_map, Value.depth, Value.depth, hmembers]
  | _ => rfl

theorem noRepeat_reread {value : Value} (hvalid : value.Valid) :
    (library.reread value).NoRepeat := by
  induction value using Value.tree_induction with
  | hnull => exact .null
  | hbool value => exact .bool value
  | hnumber number => exact .number _
  | hstring text => exact .string text
  | harray items ih =>
      cases hvalid with
      | array hitems =>
          rw [Library.reread, rereadItems_eq_map]
          refine .array fun item hitem => ?_
          obtain ⟨held, hheld, rfl⟩ := List.mem_map.mp hitem
          exact ih held hheld (hitems held hheld)
  | hobject members ih =>
      cases hvalid with
      | object hkeys hvalues =>
          rw [Library.reread, rereadMembers_eq_map]
          refine .object ?_ fun member hmember => ?_
          · simpa [List.map_map, Function.comp_def] using hkeys
          · obtain ⟨held, hheld, rfl⟩ := List.mem_map.mp hmember
            exact ih held.1 held.2 hheld (hvalues held hheld)

/-- The bytes are a document without repeated keys that spells the value, however deep. -/
def Library.Tells (library : Library) (bytes : List UInt8) (value : Value) : Prop :=
  ∃ json, IsText bytes json ∧ json.NoRepeat ∧ Means library.floatBits json value

theorem Library.Documented.tells_write (hlibrary : library.Documented) {value : Value}
    (hvalid : value.Valid) : library.Tells (library.write value) (library.reread value) := by
  obtain ⟨json, hspells, hmeans, hnone⟩ := spelled_write hlibrary hvalid
  have hdocument := DocumentText.document Blank.nil hspells Blank.nil
  rw [List.nil_append, List.append_nil] at hdocument
  exact ⟨json, ⟨_, rfl, hdocument⟩, hnone (noRepeat_reread hvalid), hmeans⟩

theorem Library.Tells.tree (hlibrary : library.Documented) {bytes : List UInt8} {value : Value}
    (htells : library.Tells bytes value) (hdepth : value.depth ≤ maxDepth) :
    library.tree bytes = .ok value := by
  obtain ⟨json, ⟨text, rfl, htext⟩, hrepeat, hmeans⟩ := htells
  exact hlibrary.complete text json value htext hrepeat hmeans hdepth

/-- The library reads back what the compact writer writes, when it is not nested too deep. -/
theorem Library.Documented.tree_write (hlibrary : library.Documented) {value : Value}
    (hvalid : value.Valid) (hdepth : value.depth ≤ maxDepth) :
    library.tree (library.write value) = .ok (library.reread value) :=
  (hlibrary.tells_write hvalid).tree hlibrary ((depth_reread value).trans_le hdepth)

/-- The library refuses what the compact writer writes of a value nested too deep. -/
theorem Library.Documented.tree_write_deep (hlibrary : library.Documented) {value : Value}
    (hvalid : value.Valid) (hdepth : maxDepth < value.depth) :
    ∃ fault, library.tree (library.write value) = .error fault := by
  obtain ⟨json, ⟨text, htext, hdocument⟩, hrepeat, hmeans⟩ := hlibrary.tells_write hvalid
  rw [htext]
  exact hlibrary.refuses text json _ hdocument hrepeat hmeans
    (hdepth.trans_eq (depth_reread value).symm)

end Spelling

end Plasmosome.Serde
