import Plasmosome.Serde.Strict

/-!
# Reading into the library's own value

The library's value holds the members of an object in a map: in key order, and of a
repeated key the last. One key it keeps to itself. An object that begins with it is
read as the document that its one member spells.
-/

namespace Plasmosome.Serde

open Foundation

/-- The key under which the library hands itself a text it has not read. -/
def rawToken : String := "$serde_json::private::RawValue"

/-- An object begins with the library's own key. -/
def RawFirst (members : List (String × Value)) : Prop := members.head?.map Prod.fst = some rawToken

instance (members : List (String × Value)) : Decidable (RawFirst members) :=
  inferInstanceAs (Decidable (_ = _))

theorem RawFirst.lookup {members : List (String × Value)} (hraw : RawFirst members) :
    ∃ value, members.lookup rawToken = some value := by
  cases members with
  | nil => cases hraw
  | cons member rest =>
      have hkey : member.1 = rawToken := Option.some_inj.mp hraw
      exact ⟨member.2, (lookup_cons_ite _ _ _ _).trans (if_pos hkey.symm)⟩

/-- The text of an object whose one member is a string. -/
def rawText : List (String × Value) → Option (List UInt8)
  | [(_, .string text)] => some (Utf8.encode text.toList)
  | _ => none

theorem rawText_eq_some {members : List (String × Value)} {text : List UInt8}
    (htext : rawText members = some text) : ∃ member, members = [member] := by
  unfold rawText at htext
  split at htext
  next => exact ⟨_, rfl⟩
  next => cases htext

section Unraw

variable (read : List UInt8 → Option Value)

mutual

/-- The value with every object that begins with the library's own key replaced by what is
read of its text. -/
def Value.unraw : Value → Option Value
  | .array items => (Value.unrawItems items).map .array
  | .object members =>
      if RawFirst members then (rawText members).bind read
      else (Value.unrawMembers members).map .object
  | scalar => some scalar

def Value.unrawItems : List Value → Option (List Value)
  | [] => some []
  | item :: rest => do return (← Value.unraw item) :: (← Value.unrawItems rest)

def Value.unrawMembers : List (String × Value) → Option (List (String × Value))
  | [] => some []
  | (key, value) :: rest => do return (key, ← Value.unraw value) :: (← Value.unrawMembers rest)

end

end Unraw

namespace Library

/-- Reads with texts inside texts up to so many times. -/
def fromStrWithin (library : Library) : Nat → List UInt8 → Option Value
  | 0, _ => none
  | fuel + 1, bytes =>
      match library.tree bytes with
      | .error _ => none
      | .ok tree => (tree.unraw (fromStrWithin library fuel)).map Value.sorted

/-- `serde_json::from_str` to a value. A text inside a text is the shorter one. -/
def fromStr (library : Library) (bytes : List UInt8) : Option Value :=
  library.fromStrWithin (bytes.length + 1) bytes

end Library

/-! ## Values without the library's own key -/

/-- No object in the value begins with the library's own key. -/
inductive Value.NoRaw : Value → Prop where
  | null : NoRaw .null
  | bool (value : Bool) : NoRaw (.bool value)
  | number (value : Number) : NoRaw (.number value)
  | string (value : String) : NoRaw (.string value)
  | array {items : List Value} : (∀ item ∈ items, NoRaw item) → NoRaw (.array items)
  | object {members : List (String × Value)} : ¬ RawFirst members →
      (∀ member ∈ members, NoRaw member.2) → NoRaw (.object members)

section Unraw

variable {read : List UInt8 → Option Value}

theorem unrawItems_eq_some {items values : List Value} :
    Value.unrawItems read items = some values ↔
      List.Forall₂ (fun item value => item.unraw read = some value) items values := by
  induction items generalizing values with
  | nil => simp [Value.unrawItems, eq_comm]
  | cons item rest ih =>
      rw [Value.unrawItems, List.forall₂_cons_left_iff]
      simp only [Option.bind_eq_bind, Option.bind_eq_some_iff, Option.pure_def, Option.some_inj]
      constructor
      · rintro ⟨value, hvalue, others, hothers, rfl⟩
        exact ⟨value, others, hvalue, ih.mp hothers, rfl⟩
      · rintro ⟨value, others, hvalue, hothers, rfl⟩
        exact ⟨value, hvalue, others, ih.mpr hothers, rfl⟩

theorem unrawMembers_eq_some {members values : List (String × Value)} :
    Value.unrawMembers read members = some values ↔
      List.Forall₂ (fun member value => member.1 = value.1 ∧
        member.2.unraw read = some value.2) members values := by
  induction members generalizing values with
  | nil => simp [Value.unrawMembers, eq_comm]
  | cons member rest ih =>
      rcases member with ⟨key, value⟩
      rw [Value.unrawMembers, List.forall₂_cons_left_iff]
      simp only [Option.bind_eq_bind, Option.bind_eq_some_iff, Option.pure_def, Option.some_inj]
      constructor
      · rintro ⟨first, hfirst, others, hothers, rfl⟩
        exact ⟨(key, first), others, ⟨rfl, hfirst⟩, ih.mp hothers, rfl⟩
      · rintro ⟨⟨other, first⟩, others, ⟨rfl, hfirst⟩, hothers, rfl⟩
        exact ⟨first, hfirst, others, ih.mpr hothers, rfl⟩

/-- A value without the library's own key is left as it is. -/
theorem Value.NoRaw.unraw {value : Value}
    (hvalue : value.NoRaw) : value.unraw read = some value := by
  induction value using Value.tree_induction with
  | harray items ih =>
      cases hvalue with
      | array hitems =>
          have hsame : Value.unrawItems read items = some items :=
            unrawItems_eq_some.mpr (List.forall₂_same.mpr fun item hitem => ih item hitem (hitems item hitem))
          rw [Value.unraw, hsame]
          rfl
  | hobject members ih =>
      cases hvalue with
      | object hfirst hmembers =>
          have hsame : Value.unrawMembers read members = some members :=
            unrawMembers_eq_some.mpr (List.forall₂_same.mpr fun member hmember =>
              ⟨rfl, ih member.1 member.2 hmember (hmembers member hmember)⟩)
          rw [Value.unraw, if_neg hfirst, hsame]
          rfl
  | _ => rfl

/-! ## What is never read -/

/-- An object with no key but the library's own. -/
def Value.AllRaw (value : Value) : Prop :=
  ∃ members, value = .object members ∧ members ≠ [] ∧
    ∀ key ∈ members.map Prod.fst, key = rawToken

theorem Value.AllRaw.of_sorted {value : Value} (hsorted : value.sorted.AllRaw) : value.AllRaw := by
  obtain ⟨held, hheld, hsome, hkeys⟩ := hsorted
  cases value with
  | object members =>
      cases Value.object.inj hheld
      have hmem (key : String) : key ∈ (Value.sortedMembers [] members).map Prod.fst ↔
          key ∈ members.map Prod.fst := by
        simpa using @mem_sortedMembers_keys members [] key
      refine ⟨members, rfl, ?_, fun key hkey => hkeys key ((hmem key).mpr hkey)⟩
      rintro rfl
      exact hsome rfl
  | _ => cases hheld

theorem unrawMembers_keys {members values : List (String × Value)}
    (hvalues : Value.unrawMembers read members = some values) :
    members.map Prod.fst = values.map Prod.fst := by
  have hall := unrawMembers_eq_some.mp hvalues
  induction hall with
  | nil => rfl
  | cons hfirst hrest ih =>
      rw [List.map_cons, List.map_cons, hfirst.1, ih (unrawMembers_eq_some.mpr hrest)]

/-- What is read at a key is what is read of the member there. -/
theorem unrawMembers_lookup {members values : List (String × Value)}
    (hvalues : Value.unrawMembers read members = some values) {key : String} {value : Value}
    (hlookup : members.lookup key = some value) :
    ∃ held, values.lookup key = some held ∧ value.unraw read = some held := by
  have hall := unrawMembers_eq_some.mp hvalues
  induction hall with
  | nil => cases hlookup
  | @cons member held rest others hfirst hrest ih =>
      rcases member with ⟨firstKey, firstValue⟩
      rcases held with ⟨heldKey, heldValue⟩
      obtain ⟨rfl, hheld⟩ := hfirst
      rw [lookup_cons_ite] at hlookup ⊢
      split
      next hkey =>
        rw [if_pos hkey] at hlookup
        cases hlookup
        exact ⟨heldValue, rfl, hheld⟩
      next hkey =>
        rw [if_neg hkey] at hlookup
        exact ih (unrawMembers_eq_some.mpr hrest) hlookup

theorem lookup_mapValues (change : Value → Value) (members : List (String × Value)) (key : String) :
    (members.map fun member => (member.1, change member.2)).lookup key =
      (members.lookup key).map change := by
  induction members with
  | nil => rfl
  | cons member rest ih =>
      rcases member with ⟨first, value⟩
      rw [List.map_cons, lookup_cons_ite, lookup_cons_ite, ih]
      split <;> rfl

theorem sortedItems_eq_map (items : List Value) :
    Value.sortedItems items = items.map Value.sorted := by
  induction items with
  | nil => rfl
  | cons item rest ih => rw [Value.sortedItems, List.map_cons, ih]

/-- No reading gives an object with no key but the library's own. -/
theorem fromStrWithin_not_allRaw (library : Library) (fuel : Nat) (bytes : List UInt8)
    {value : Value} (hread : library.fromStrWithin fuel bytes = some value) : ¬ value.AllRaw := by
  induction fuel generalizing bytes value with
  | zero => cases hread
  | succ fuel ih =>
      rw [Library.fromStrWithin] at hread
      cases htree : library.tree bytes with
      | error fault => simp [htree] at hread
      | ok tree =>
          simp only [htree] at hread
          obtain ⟨held, hheld, rfl⟩ := Option.map_eq_some_iff.mp hread
          refine fun hraw => ?_
          have hheldRaw := hraw.of_sorted
          cases tree with
          | object members =>
              rw [Value.unraw] at hheld
              split at hheld
              next =>
                obtain ⟨text, -, hinner⟩ := Option.bind_eq_some_iff.mp hheld
                exact ih text hinner hheldRaw
              next hfirst =>
                obtain ⟨values, hvalues, rfl⟩ := Option.map_eq_some_iff.mp hheld
                have hkeys := unrawMembers_keys hvalues
                obtain ⟨others, hothers, hsome, hall⟩ := hheldRaw
                cases Value.object.inj hothers
                rw [← hkeys] at hall
                cases members with
                | nil =>
                    rw [List.map_nil, eq_comm, List.map_eq_nil_iff] at hkeys
                    exact hsome hkeys
                | cons member rest =>
                    exact hfirst (congrArg some (hall member.1 (by simp)))
          | array items =>
              rw [Value.unraw] at hheld
              obtain ⟨values, -, rfl⟩ := Option.map_eq_some_iff.mp hheld
              obtain ⟨members, hmembers, -⟩ := hheldRaw
              cases hmembers
          | _ =>
              cases hheld
              obtain ⟨members, hmembers, -⟩ := hheldRaw
              cases hmembers

/-- A value that is read back as it was has no object that begins with the library's own key. -/
theorem noRaw_of_unraw (hread : ∀ bytes held, read bytes = some held → ¬ held.AllRaw)
    {library : Library} {value : Value} (hvalid : value.Valid) {held : Value}
    (hunraw : (library.reread value).unraw read = some held) (hsame : held.sorted = value) :
    value.NoRaw := by
  induction value using Value.tree_induction generalizing held with
  | hnull => exact .null
  | hbool flag => exact .bool flag
  | hnumber number => exact .number number
  | hstring text => exact .string text
  | harray items ih =>
      cases hvalid with
      | array hitems =>
          rw [Library.reread, rereadItems_eq_map, Value.unraw] at hunraw
          obtain ⟨values, hvalues, rfl⟩ := Option.map_eq_some_iff.mp hunraw
          have hall := List.forall₂_map_left_iff.mp (unrawItems_eq_some.mp hvalues)
          have hsorted : values.map Value.sorted = items := by
            rw [← sortedItems_eq_map]
            exact Value.array.inj hsame
          refine .array fun item hitem => ?_
          obtain ⟨index, hindex, rfl⟩ := List.mem_iff_getElem.mp hitem
          have hbound : index < values.length := hall.length_eq ▸ hindex
          have hvalue := hall.get hindex hbound
          refine ih _ hitem (hitems _ hitem) hvalue ?_
          have hat := congrArg (fun list => list[index]?) hsorted
          simpa [hbound, hindex] using hat
  | hobject members ih =>
      cases hvalid with
      | object hkeys hvalues =>
          rw [Library.reread, rereadMembers_eq_map, Value.unraw] at hunraw
          split at hunraw
          next hfirst =>
            -- the text of the one member was read, and no reading gives back that object
            obtain ⟨text, htext, hheld⟩ := Option.bind_eq_some_iff.mp hunraw
            refine absurd ?_ (hread text held hheld)
            refine Value.AllRaw.of_sorted ⟨members, hsame, ?_, ?_⟩
            · rintro rfl
              cases hfirst
            · obtain ⟨member, hone⟩ := rawText_eq_some htext
              obtain ⟨only, rfl, -⟩ := List.map_eq_singleton_iff.mp hone
              intro key hkey
              cases List.mem_singleton.mp hkey
              exact Option.some_inj.mp hfirst
          next hfirst =>
            obtain ⟨held, hheld, rfl⟩ := Option.map_eq_some_iff.mp hunraw
            have hnodup : (held.map Prod.fst).Nodup := by
              rw [← unrawMembers_keys hheld, List.map_map]
              exact hkeys
            refine .object (fun hraw => hfirst ?_) fun member hmember => ?_
            · cases members with
              | nil => cases hraw
              | cons member rest => exact hraw
            · have hlookup := (mem_iff_lookup hkeys member.1 member.2).mp hmember
              obtain ⟨read, hread, hunraw⟩ := unrawMembers_lookup hheld
                ((lookup_mapValues library.reread members member.1).trans
                  (congrArg (Option.map library.reread) hlookup))
              have hsorted := lookup_sortedMembers hnodup [] member.1
              rw [Value.object.inj hsame, hlookup, hread, List.lookup_nil,
                Option.or_none] at hsorted
              exact ih member.1 member.2 hmember (hvalues member hmember) hunraw
                (Option.some_inj.mp hsorted).symm

end Unraw

/-! ## What the compact writer writes -/

variable {library : Library}

theorem Value.NoRaw.reread {value : Value}
    (hvalue : value.NoRaw) : (library.reread value).NoRaw := by
  induction value using Value.tree_induction with
  | hnull => exact .null
  | hbool flag => exact .bool flag
  | hnumber number => exact .number _
  | hstring text => exact .string text
  | harray items ih =>
      cases hvalue with
      | array hitems =>
          rw [Library.reread, rereadItems_eq_map]
          refine .array fun item hitem => ?_
          obtain ⟨held, hheld, rfl⟩ := List.mem_map.mp hitem
          exact ih held hheld (hitems held hheld)
  | hobject members ih =>
      cases hvalue with
      | object hfirst hmembers =>
          rw [Library.reread, rereadMembers_eq_map]
          refine .object (fun hraw => hfirst ?_) fun member hmember => ?_
          · cases members with
            | nil => cases hraw
            | cons member rest => exact hraw
          · obtain ⟨held, hheld, rfl⟩ := List.mem_map.mp hmember
            exact ih held.1 held.2 hheld (hmembers held hheld)

/-- What is read of the compact text of a value that is not nested too deep. -/
theorem Library.Documented.fromStr_write (hlibrary : library.Documented) {value : Value}
    (hvalid : value.Valid) (hdepth : value.depth ≤ maxDepth) :
    library.fromStr (library.write value) =
      ((library.reread value).unraw (library.fromStrWithin (library.write value).length)).map
        Value.sorted := by
  have htree := hlibrary.tree_write hvalid hdepth
  rw [Library.fromStr, Library.fromStrWithin]
  simp only [htree]

theorem Library.Documented.fromStr_write_deep (hlibrary : library.Documented) {value : Value}
    (hvalid : value.Valid) (hdepth : maxDepth < value.depth) :
    library.fromStr (library.write value) = none := by
  obtain ⟨fault, htree⟩ := hlibrary.tree_write_deep hvalid hdepth
  rw [Library.fromStr, Library.fromStrWithin]
  simp only [htree]

end Plasmosome.Serde
