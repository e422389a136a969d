import Plasmosome.Foundation.Checks
import Plasmosome.Foundation.Pointer
import Plasmosome.Reply.WriteLaws
import Plasmosome.Serde.Reader

/-!
# Strict reading

A document is refused when one of its objects repeats a key, and a record when it
is not one line of at most a million bytes. What the compact writer writes is one
such line, and reads back with the members of every object sorted.
-/

namespace Plasmosome.Serde

open Foundation

/-! ## Where a value stands -/

inductive Segment where
  | key (key : String)
  | index (index : Nat)

/-- The segments that lead to a value, the outermost first. -/
abbrev Location := List Segment

namespace Location

def pointer (location : Location) : String :=
  String.ofList (Pointer.write (location.map fun
    | .key key => key.toList
    | .index index => (toString index).toList))

def dottedSegment (first : Bool) : Segment → List Char
  | .key key => if first then key.toList else '.' :: key.toList
  | .index index => '[' :: ((toString index).toList ++ [']'])

def dotted : Location → String
  | [] => ""
  | first :: rest => String.ofList (dottedSegment true first ++ rest.flatMap (dottedSegment false))

end Location

/-! ## Repeated keys -/

inductive StrictJsonError where
  | notJson (fault : Syntax)
  | duplicateKey (path field : String)
deriving DecidableEq

mutual

/-- Refuses a repeated key, and sorts the members of every object. -/
def strict (location : Location) : Value → Except StrictJsonError Value
  | .array items => do return .array (← strictItems location 0 items)
  | .object members => do return .object (← strictMembers location [] members)
  | scalar => .ok scalar

def strictItems (location : Location) (index : Nat) :
    List Value → Except StrictJsonError (List Value)
  | [] => .ok []
  | item :: rest => do
      let item ← strict (location ++ [.index index]) item
      return item :: (← strictItems location (index + 1) rest)

def strictMembers (location : Location) (read : List (String × Value)) :
    List (String × Value) → Except StrictJsonError (List (String × Value))
  | [] => .ok read
  | (key, value) :: rest => do
      let place := location ++ [.key key]
      if (read.lookup key).isSome then
        throw (.duplicateKey (Location.pointer place) (Location.dotted place))
      let value ← strict place value
      strictMembers location (insertMember key value read) rest

end

/-- A text that repeats a key and then stops being a document is refused as the latter here. -/
def parseValue (library : Library) (bytes : List UInt8) : Except StrictJsonError Value :=
  match library.tree bytes with
  | .error fault => .error (.notJson fault)
  | .ok value => strict [] value

mutual

/-- The value with the members of every object sorted by key. -/
def Value.sorted : Value → Value
  | .array items => .array (Value.sortedItems items)
  | .object members => .object (Value.sortedMembers [] members)
  | scalar => scalar

def Value.sortedItems : List Value → List Value
  | [] => []
  | item :: rest => Value.sorted item :: Value.sortedItems rest

def Value.sortedMembers (held : List (String × Value)) :
    List (String × Value) → List (String × Value)
  | [] => held
  | (key, value) :: rest => Value.sortedMembers (insertMember key (Value.sorted value) held) rest

end

theorem lookup_cons_ite (key wanted : String) (value : Value) (rest : List (String × Value)) :
    List.lookup wanted ((key, value) :: rest) =
      if wanted = key then some value else rest.lookup wanted := by
  rw [List.lookup_cons]
  by_cases hwanted : wanted = key
  · simp [hwanted]
  · simp [hwanted, beq_eq_false_iff_ne.mpr hwanted]

theorem lookup_isSome_iff (held : List (String × Value)) (key : String) :
    (held.lookup key).isSome ↔ key ∈ held.map Prod.fst := by
  induction held with
  | nil => simp
  | cons first rest ih =>
      rcases first with ⟨firstKey, value⟩
      rw [lookup_cons_ite]
      by_cases hkey : key = firstKey <;> simp_all

/-- A member inserted is found, and the others are found as before. -/
theorem lookup_insertMember (key wanted : String) (value : Value) (held : List (String × Value)) :
    (insertMember key value held).lookup wanted =
      if wanted = key then some value else held.lookup wanted := by
  induction held with
  | nil => simp [insertMember, lookup_cons_ite]
  | cons first rest ih =>
      rcases first with ⟨firstKey, firstValue⟩
      rw [insertMember]
      split
      next => rw [lookup_cons_ite]
      next =>
        split
        next hsame =>
          subst hsame
          rw [lookup_cons_ite, lookup_cons_ite]
          by_cases hwanted : wanted = firstKey <;> simp [hwanted]
        next hother =>
          rw [lookup_cons_ite, ih, lookup_cons_ite]
          by_cases hfirst : wanted = firstKey
          · subst hfirst
            simp [hother]
          · simp [hfirst]

/-- What sorting leaves at a key: the value given to it, or the one held before. -/
theorem lookup_sortedMembers {members : List (String × Value)}
    (hkeys : (members.map Prod.fst).Nodup)
    (held : List (String × Value)) (wanted : String) :
    (Value.sortedMembers held members).lookup wanted =
      ((members.lookup wanted).map Value.sorted).or (held.lookup wanted) := by
  induction members generalizing held with
  | nil => simp [Value.sortedMembers]
  | cons member rest ih =>
      rcases member with ⟨key, value⟩
      rw [List.map_cons, List.nodup_cons] at hkeys
      rw [Value.sortedMembers, ih hkeys.2, lookup_insertMember, lookup_cons_ite]
      by_cases hwanted : wanted = key
      · subst hwanted
        have hnone : rest.lookup wanted = none := by
          rw [← Option.not_isSome_iff_eq_none, lookup_isSome_iff]
          exact hkeys.1
        simp [hnone]
      · simp [hwanted]

theorem mem_insertMember_keys (key other : String) (value : Value) (held : List (String × Value)) :
    other ∈ (insertMember key value held).map Prod.fst ↔
      other = key ∨ other ∈ held.map Prod.fst := by
  rw [← lookup_isSome_iff, lookup_insertMember, ← lookup_isSome_iff]
  by_cases hother : other = key <;> simp [hother]

/-- Sorting the members adds and loses no key. -/
theorem mem_sortedMembers_keys {members : List (String × Value)} (held : List (String × Value))
    (key : String) :
    key ∈ (Value.sortedMembers held members).map Prod.fst ↔
      key ∈ held.map Prod.fst ∨ key ∈ members.map Prod.fst := by
  induction members generalizing held with
  | nil => simp [Value.sortedMembers]
  | cons member rest ih =>
      rcases member with ⟨first, value⟩
      rw [Value.sortedMembers, ih, mem_insertMember_keys, List.map_cons, List.mem_cons]
      tauto

/-- The members stand in the order of their keys, as a map holds them. -/
def Ordered (members : List (String × Value)) : Prop := (members.map Prod.fst).Pairwise (· < ·)

/-- Members in strict order repeat no key. -/
theorem Ordered.nodup {members : List (String × Value)} (hordered : Ordered members) :
    (members.map Prod.fst).Nodup :=
  hordered.imp fun hless => ne_of_lt hless

/-- Inserting a member keeps the order. -/
theorem ordered_insertMember (key : String) (value : Value) {held : List (String × Value)}
    (hheld : Ordered held) : Ordered (insertMember key value held) := by
  induction held with
  | nil => exact List.pairwise_singleton _ _
  | cons first rest ih =>
      rcases first with ⟨firstKey, firstValue⟩
      obtain ⟨hfirst, hrest⟩ := List.pairwise_cons.mp hheld
      rw [insertMember]
      split
      next hless =>
        refine List.pairwise_cons.mpr ⟨fun other hother => ?_, hheld⟩
        rcases List.mem_cons.mp hother with rfl | hmem
        · exact hless
        · exact lt_trans hless (hfirst other hmem)
      next hnotless =>
        split
        next hsame =>
          subst hsame
          exact List.pairwise_cons.mpr ⟨hfirst, hrest⟩
        next hother =>
          refine List.pairwise_cons.mpr ⟨fun later hlater => ?_, ih hrest⟩
          rcases (mem_insertMember_keys key later value rest).mp hlater with rfl | hmem
          · exact lt_of_le_of_ne (not_lt.mp hnotless) hother
          · exact hfirst later hmem

theorem mem_iff_lookup {members : List (String × Value)} (hkeys : (members.map Prod.fst).Nodup)
    (key : String) (value : Value) :
    (key, value) ∈ members ↔ members.lookup key = some value := by
  induction members with
  | nil => simp
  | cons first rest ih =>
      rcases first with ⟨firstKey, firstValue⟩
      rw [List.map_cons, List.nodup_cons] at hkeys
      rw [lookup_cons_ite, List.mem_cons, ih hkeys.2]
      by_cases hkey : key = firstKey
      · subst hkey
        have hnone : rest.lookup key = none := by
          rw [← Option.not_isSome_iff_eq_none, lookup_isSome_iff]
          exact hkeys.1
        simp [hnone, eq_comm]
      · simp [hkey]

/-! ## Sorting and reading back -/

theorem insertMember_map (change : Value → Value) (key : String) (value : Value)
    (held : List (String × Value)) :
    insertMember key (change value) (held.map fun member => (member.1, change member.2)) =
      (insertMember key value held).map fun member => (member.1, change member.2) := by
  induction held with
  | nil => rfl
  | cons first rest ih =>
      rw [List.map_cons, insertMember, insertMember, ih]
      split
      · rfl
      · split <;> rfl

/-- Reading numbers back and sorting keys commute. -/
theorem sorted_reread (library : Library) (value : Value) :
    (library.reread value).sorted = library.reread value.sorted := by
  induction value using Value.tree_induction with
  | harray items ih =>
      have hitems : Value.sortedItems (items.map library.reread) =
          (Value.sortedItems items).map library.reread := by
        induction items with
        | nil => rfl
        | cons item rest ihRest =>
            rw [List.map_cons, Value.sortedItems, Value.sortedItems, List.map_cons,
              ih item List.mem_cons_self,
              ihRest fun other hother => ih other (List.mem_cons_of_mem _ hother)]
      rw [Library.reread, rereadItems_eq_map, Value.sorted, hitems, Value.sorted, Library.reread,
        rereadItems_eq_map]
  | hobject members ih =>
      have hmembers : ∀ held, Value.sortedMembers
          (held.map fun member => (member.1, library.reread member.2))
          (members.map fun member => (member.1, library.reread member.2)) =
            (Value.sortedMembers held members).map fun member =>
              (member.1, library.reread member.2) := by
        induction members with
        | nil => intro held; rfl
        | cons member rest ihRest =>
            rcases member with ⟨key, value⟩
            intro held
            rw [List.map_cons, Value.sortedMembers, ih key value List.mem_cons_self,
              insertMember_map, Value.sortedMembers,
              ihRest fun other held hother => ih other held (List.mem_cons_of_mem _ hother)]
      have hsorted := hmembers []
      rw [List.map_nil] at hsorted
      rw [Library.reread, rereadMembers_eq_map, Value.sorted, hsorted, Value.sorted, Library.reread,
        rereadMembers_eq_map]
  | _ => rfl

/-! ## What repeats no key is only sorted -/

/-- Items are given back sorted when each of them is. -/
theorem strictItems_ok {items : List Value}
    (hitems : ∀ item ∈ items, ∀ location, strict location item = .ok item.sorted)
    (location : Location) (index : Nat) :
    strictItems location index items = .ok (Value.sortedItems items) := by
  induction items generalizing index with
  | nil => rfl
  | cons item rest ih =>
      rw [strictItems, hitems item List.mem_cons_self,
        ih (fun other hother => hitems other (List.mem_cons_of_mem _ hother))]
      rfl

/-- Members without a repeated key are given back sorted when each value is. -/
theorem strictMembers_ok {members : List (String × Value)}
    (hvalues : ∀ member ∈ members, ∀ location, strict location member.2 = .ok member.2.sorted)
    (hkeys : (members.map Prod.fst).Nodup) (location : Location) {held : List (String × Value)}
    (hheld : ∀ key ∈ members.map Prod.fst, key ∉ held.map Prod.fst) :
    strictMembers location held members = .ok (Value.sortedMembers held members) := by
  induction members generalizing held with
  | nil => rfl
  | cons member rest ih =>
      rcases member with ⟨key, value⟩
      rw [List.map_cons, List.nodup_cons] at hkeys
      have hnew : (held.lookup key).isSome = false := by
        rw [Bool.eq_false_iff, ne_eq, lookup_isSome_iff]
        exact hheld key List.mem_cons_self
      have hrest := ih (fun other hother => hvalues other (List.mem_cons_of_mem _ hother)) hkeys.2
        (by
          intro other hother hmember
          rcases (mem_insertMember_keys key other value.sorted held).mp hmember with rfl | hold
          · exact hkeys.1 hother
          · exact hheld other (List.mem_cons_of_mem _ hother) hold)
      rw [strictMembers, hvalues (key, value) List.mem_cons_self]
      simp only [hnew, Bool.false_eq_true, if_false]
      exact hrest

/-- A value without a repeated key passes the strict reading. -/
theorem strict_ok {value : Value} (hrepeat : value.NoRepeat) (location : Location) :
    strict location value = .ok value.sorted := by
  induction value using Value.tree_induction generalizing location with
  | harray items ih =>
      cases hrepeat with
      | array hitems =>
          rw [strict, strictItems_ok (fun item hitem location =>
            ih item hitem (hitems item hitem) location)]
          rfl
  | hobject members ih =>
      cases hrepeat with
      | object hkeys hvalues =>
          rw [strict, strictMembers_ok (fun member hmember location =>
            ih member.1 member.2 hmember (hvalues member hmember) location) hkeys location
            (by simp)]
          rfl
  | _ => rfl

/-- A value that was written reads back, its numbers reread and its keys sorted. -/
theorem parseValue_write {library : Library} (hlibrary : library.Documented) {value : Value}
    (hvalid : value.Valid) (hdepth : value.depth ≤ maxDepth) :
    parseValue library (library.write value) = .ok (library.reread value).sorted := by
  rw [parseValue, hlibrary.tree_write hvalid hdepth]
  exact strict_ok (noRepeat_reread hvalid) []

/-! ## Records -/

/-- The most bytes a record holds before its newline. -/
def maxRecordBytes : Nat := 1048576

inductive LineFault where
  | notOneLine
  | tooLarge (bytes : Nat)
  | notUtf8
  | notJson (detail : String)
  | duplicateKey (field : String)
deriving DecidableEq

def StrictJsonError.lineFault : StrictJsonError → LineFault
  | .duplicateKey _ field => .duplicateKey field
  | .notJson fault =>
      .notJson (fault.reason ++ " at line " ++ toString fault.line ++ ", column " ++
        toString fault.column)

def newline : UInt8 := 0x0a

def carriageReturn : UInt8 := 0x0d

def readLine (library : Library) (record : List UInt8) : Except LineFault Value :=
  if record.getLast? ≠ some newline then .error .notOneLine
  else
    let body := record.dropLast
    if body.any fun byte => byte = newline || byte = carriageReturn then .error .notOneLine
    else if maxRecordBytes < body.length then .error (.tooLarge body.length)
    else
      match Utf8.decode body 0 with
      | .error _ => .error .notUtf8
      | .ok _ => (parseValue library body).mapError StrictJsonError.lineFault

/-! ## A written value is one line -/

/-- No character of the text is an ASCII control below the blank. -/
def Printable (text : List Char) : Prop := ∀ char ∈ text, 0x20 ≤ char.toNat

namespace Printable

theorem nil : Printable [] := by
  intro char hchar
  cases hchar

theorem cons {char : Char} {rest : List Char} (hchar : 0x20 ≤ char.toNat) (hrest : Printable rest) :
    Printable (char :: rest) := by
  intro other hother
  rcases List.mem_cons.mp hother with rfl | hmem
  · exact hchar
  · exact hrest other hmem

theorem append {first second : List Char} (hfirst : Printable first) (hsecond : Printable second) :
    Printable (first ++ second) := by
  intro char hchar
  rcases List.mem_append.mp hchar with hmem | hmem
  · exact hfirst char hmem
  · exact hsecond char hmem

theorem flatMap {α : Type} {items : List α} {write : α → List Char}
    (hitems : ∀ item ∈ items, Printable (write item)) : Printable (items.flatMap write) := by
  intro char hchar
  obtain ⟨item, hitem, hmem⟩ := List.mem_flatMap.mp hchar
  exact hitems item hitem char hmem

end Printable

theorem hexDigit_printable {value : Nat} (hvalue : value < 16) : 0x20 ≤ (hexDigit value).toNat := by
  interval_cases value <;> decide

theorem escapeChar_printable (char : Char) : Printable (escapeChar char) := by
  unfold escapeChar
  iterate 7
    split
    · exact .cons (by decide) (.cons (by decide) .nil)
  split
  next hcontrol =>
    have hlow := hexDigit_printable (show char.toNat % 16 < 16 by omega)
    have hhigh := hexDigit_printable (show char.toNat / 16 < 16 by omega)
    exact .cons (by decide) (.cons (by decide) (.cons (by decide) (.cons (by decide)
      (.cons hhigh (.cons hlow .nil)))))
  next => exact .cons (by omega) .nil

/-- A quoted text has no control character. -/
theorem quoted_printable (text : String) : Printable (quoted text) :=
  .append (.cons (by decide) (.flatMap fun char _ => escapeChar_printable char))
    (.cons (by decide) .nil)

theorem isDigit_printable {char : Char} (hdigit : char.isDigit) : 0x20 ≤ char.toNat := by
  simp only [Char.isDigit, Bool.and_eq_true, decide_eq_true_eq, UInt32.le_iff_toNat_le] at hdigit
  exact le_trans (by decide) hdigit.1

theorem number_printable (number : Reply.Number) : Printable number.text.toList := by
  intro char hchar
  rcases number.valid.mem hchar with hdigit | rfl | rfl | rfl | rfl | rfl
  · exact isDigit_printable hdigit
  all_goals decide

theorem toDigits_printable (number : Nat) : Printable (Nat.toDigits 10 number) := fun char hchar =>
  isDigit_printable (List.all_eq_true.mp (all_isDigit_toDigits number) char hchar)

theorem int_printable (value : Int) : Printable (toString value).toList := by
  cases value with
  | ofNat magnitude => exact toString_toList magnitude ▸ toDigits_printable magnitude
  | negSucc magnitude =>
      have htext : (toString (Int.negSucc magnitude)).toList =
          '-' :: Nat.toDigits 10 (magnitude + 1) := by
        simp [toString, Int.repr, Nat.repr]
      rw [htext]
      exact .cons (by decide) (toDigits_printable _)

section Lines

variable {library : Library}

/-- A compact value has no control character. -/
theorem write_printable (value : Value) : Printable (value.write library.floatChars) := by
  induction value using Value.tree_induction with
  | hnull =>
      exact .cons (by decide) (.cons (by decide) (.cons (by decide) (.cons (by decide) .nil)))
  | hbool value =>
      cases value with
      | true =>
          exact .cons (by decide) (.cons (by decide) (.cons (by decide) (.cons (by decide) .nil)))
      | false =>
          exact .cons (by decide) (.cons (by decide) (.cons (by decide) (.cons (by decide)
            (.cons (by decide) .nil))))
  | hnumber number =>
      cases number with
      | posInt value =>
          rw [Value.write, Number.text, toString_toList]
          exact toDigits_printable value.toNat
      | negInt value => exact int_printable value.toInt
      | float bits => exact number_printable (library.floatText bits)
  | hstring text => exact quoted_printable text
  | harray items ih =>
      cases items with
      | nil => exact .cons (by decide) (.cons (by decide) .nil)
      | cons first rest =>
          rw [Value.write, writeItems_cons]
          refine .cons (by decide) (.append (.append (ih first List.mem_cons_self)
            (.flatMap fun item hitem => ?_)) (.cons (by decide) .nil))
          exact .cons (by decide) (ih item (List.mem_cons_of_mem _ hitem))
  | hobject members ih =>
      cases members with
      | nil => exact .cons (by decide) (.cons (by decide) .nil)
      | cons first rest =>
          rw [Value.write, writeMembers_cons]
          refine .cons (by decide) (.append (.append (quoted_printable first.1) (.cons (by decide)
            (.append (ih first.1 first.2 List.mem_cons_self) (.flatMap fun member hmember => ?_))))
            (.cons (by decide) .nil))
          exact .cons (by decide) (.append (quoted_printable member.1) (.cons (by decide)
            (ih member.1 member.2 (List.mem_cons_of_mem _ hmember))))

theorem encode_printable {text : List Char} (htext : Printable text) :
    ∀ byte ∈ Utf8.encode text, 0x20 ≤ byte.toNat := by
  intro byte hbyte
  obtain ⟨char, hchar, hmem⟩ := List.mem_flatMap.mp hbyte
  have hcode : 0x20 ≤ char.val.toNat := htext char hchar
  by_contra hlow
  have hsame := Utf8.val_of_mem_encodeChar (by omega) hmem
  omega

/-- A compact value is one line. -/
theorem newline_not_mem_write (value : Value) : newline ∉ library.write value := by
  intro hmem
  have hcode := encode_printable (write_printable value) newline hmem
  exact absurd hcode (by decide)

/-- A value's compact text and a newline are a record that reads back, sorted. -/
theorem readLine_write (hlibrary : library.Documented) {value : Value} (hvalid : value.Valid)
    (hdepth : value.depth ≤ maxDepth)
    (hsize : (library.write value).length ≤ maxRecordBytes) :
    readLine library (library.write value ++ [newline]) = .ok (library.reread value).sorted := by
  have hplain : ((library.write value).any fun byte =>
      byte = newline || byte = carriageReturn) = false := by
    rw [List.any_eq_false]
    intro byte hbyte
    have hcode := encode_printable (write_printable value) byte hbyte
    simp only [Bool.or_eq_true, decide_eq_true_eq, not_or]
    constructor
    · rintro rfl
      exact absurd hcode (by decide)
    · rintro rfl
      exact absurd hcode (by decide)
  rw [readLine, if_neg (by simp)]
  simp only [List.dropLast_concat, hplain, Bool.false_eq_true, if_false]
  rw [if_neg (by omega), Library.write, Utf8.decode_encode]
  simp only
  rw [← Library.write, parseValue_write hlibrary hvalid hdepth]
  rfl

end Lines

end Plasmosome.Serde
