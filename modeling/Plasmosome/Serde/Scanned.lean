import Plasmosome.Reply.Brackets
import Plasmosome.Reply.Document
import Plasmosome.Serde.Strict

/-!
# Reading by scanning

A library that reads documents of integers with the reply scanner. It meets what
is asked of a library, so nothing that is proved from it is proved of none.
-/

namespace Plasmosome.Serde

open Foundation
open Reply (Json DocumentText)

mutual

/-- The value a tree of texts stands for, if its numbers have one. -/
def valueOf (floatBits : Reply.Number → Option UInt64) : Json → Option Value
  | .null => some .null
  | .bool value => some (.bool value)
  | .string text => some (.string text)
  | .number text => (numberOf floatBits text).map Value.number
  | .array items => (itemsOf floatBits items).map Value.array
  | .object members => (membersOf floatBits members).map Value.object

def itemsOf (floatBits : Reply.Number → Option UInt64) : List Json → Option (List Value)
  | [] => some []
  | item :: rest =>
      match valueOf floatBits item, itemsOf floatBits rest with
      | some value, some values => some (value :: values)
      | _, _ => none

def membersOf (floatBits : Reply.Number → Option UInt64) :
    List (String × Json) → Option (List (String × Value))
  | [] => some []
  | (key, item) :: rest =>
      match valueOf floatBits item, membersOf floatBits rest with
      | some value, some values => some ((key, value) :: values)
      | _, _ => none

end

variable {floatBits : Reply.Number → Option UInt64}

theorem itemsOf_eq_some {items : List Json} {values : List Value} :
    itemsOf floatBits items = some values ↔
      List.Forall₂ (fun item value => valueOf floatBits item = some value) items values := by
  induction items generalizing values with
  | nil => simp [itemsOf, eq_comm]
  | cons item rest ih =>
      rw [itemsOf, List.forall₂_cons_left_iff]
      split
      next value held hvalue hheld =>
        constructor
        · intro hsome
          cases hsome
          exact ⟨value, held, hvalue, ih.mp hheld, rfl⟩
        · rintro ⟨first, others, hfirst, hothers, rfl⟩
          rw [hvalue] at hfirst
          rw [ih.mpr hothers] at hheld
          cases hfirst
          cases hheld
          rfl
      next hnone =>
        constructor
        · intro hsome
          cases hsome
        · rintro ⟨first, others, hfirst, hothers, rfl⟩
          exact (hnone first others hfirst (ih.mpr hothers)).elim

theorem membersOf_eq_some {members : List (String × Json)} {values : List (String × Value)} :
    membersOf floatBits members = some values ↔
      List.Forall₂ (fun member value => member.1 = value.1 ∧
        valueOf floatBits member.2 = some value.2) members values := by
  induction members generalizing values with
  | nil => simp [membersOf, eq_comm]
  | cons member rest ih =>
      rcases member with ⟨key, item⟩
      rw [membersOf, List.forall₂_cons_left_iff]
      split
      next value held hvalue hheld =>
        constructor
        · intro hsome
          cases hsome
          exact ⟨(key, value), held, ⟨rfl, hvalue⟩, ih.mp hheld, rfl⟩
        · rintro ⟨⟨other, first⟩, others, ⟨hkey, hfirst⟩, hothers, rfl⟩
          rw [show valueOf floatBits item = some first from hfirst] at hvalue
          rw [ih.mpr hothers] at hheld
          cases hvalue
          cases hheld
          rw [show key = other from hkey]
      next hnone =>
        constructor
        · intro hsome
          cases hsome
        · rintro ⟨⟨other, first⟩, others, ⟨hkey, hfirst⟩, hothers, rfl⟩
          exact (hnone first others hfirst (ih.mpr hothers)).elim

theorem means_iff_valueOf (json : Json) (value : Value) :
    Means floatBits json value ↔ valueOf floatBits json = some value := by
  induction json using Json.tree_induction generalizing value with
  | hnull =>
      rw [valueOf, Option.some_inj]
      constructor
      · intro hmeans
        cases hmeans
        rfl
      · rintro rfl
        exact .null
  | hbool flag =>
      rw [valueOf, Option.some_inj]
      constructor
      · intro hmeans
        cases hmeans
        rfl
      · rintro rfl
        exact .bool flag
  | hstring text =>
      rw [valueOf, Option.some_inj]
      constructor
      · intro hmeans
        cases hmeans
        rfl
      · rintro rfl
        exact .string text
  | hnumber text =>
      rw [valueOf, Option.map_eq_some_iff]
      constructor
      · intro hmeans
        cases hmeans with
        | number hnumber => exact ⟨_, hnumber, rfl⟩
      · rintro ⟨number, hnumber, rfl⟩
        exact .number hnumber
  | harray items ih =>
      rw [valueOf, Option.map_eq_some_iff]
      constructor
      · intro hmeans
        cases hmeans with
        | array hlength hitems =>
            refine ⟨_, itemsOf_eq_some.mpr (List.forall₂_iff_zip.mpr ⟨hlength, ?_⟩), rfl⟩
            intro item value hpair
            exact (ih item (List.of_mem_zip hpair).1 value).mp (hitems (item, value) hpair)
      · rintro ⟨values, hvalues, rfl⟩
        obtain ⟨hlength, hzip⟩ := List.forall₂_iff_zip.mp (itemsOf_eq_some.mp hvalues)
        exact .array hlength fun pair hpair =>
          (ih pair.1 (List.of_mem_zip hpair).1 pair.2).mpr (hzip hpair)
  | hobject members ih =>
      rw [valueOf, Option.map_eq_some_iff]
      constructor
      · intro hmeans
        cases hmeans with
        | @object _ values hkeys hvalues =>
            have hlength : members.length = values.length := by
              simpa using congrArg List.length hkeys
            refine ⟨_, membersOf_eq_some.mpr (List.forall₂_iff_zip.mpr ⟨hlength, ?_⟩), rfl⟩
            intro member value hpair
            obtain ⟨index, hindex, hat⟩ := List.mem_iff_getElem.mp hpair
            rw [List.getElem_zip] at hat
            obtain ⟨rfl, rfl⟩ := Prod.mk.inj hat
            rw [List.length_zip, lt_min_iff] at hindex
            have hkey := congrArg (fun keys => keys[index]?) hkeys
            simp only [List.getElem?_map, List.getElem?_eq_getElem hindex.1,
              List.getElem?_eq_getElem hindex.2, Option.map_some, Option.some_inj] at hkey
            exact ⟨hkey, (ih _ _ (List.getElem_mem hindex.1) _).mp (hvalues _ hpair)⟩
      · rintro ⟨values, hvalues, rfl⟩
        obtain ⟨hlength, hzip⟩ := List.forall₂_iff_zip.mp (membersOf_eq_some.mp hvalues)
        have hkeys : members.map Prod.fst = values.map Prod.fst := by
          refine List.ext_getElem (by simpa using hlength) fun index hindex hvalue => ?_
          rw [List.length_map] at hindex hvalue
          have hmember : (members[index], values[index]) ∈ members.zip values :=
            List.mem_iff_getElem.mpr ⟨index, by simp [hindex, hvalue], by simp⟩
          simpa using (hzip hmember).1
        exact .object hkeys fun pair hpair =>
          (ih pair.1.1 pair.1.2 (List.of_mem_zip hpair).1 pair.2.2).mpr (hzip hpair).2

theorem zero_valid : Reply.NumberText "0.0".toList :=
  @Reply.NumberText.number [] ['0'] ['.', '0'] [] (.inl rfl) .zero (.present ⟨by simp, by simp⟩)
    .absent

/-- The parts of a tree of texts, each printed. -/
def outlineOf : Json → Option Outline
  | .object members => some (.object (members.map fun member =>
      (member.1, Utf8.encode (Reply.writeCompact member.2).toList)))
  | .array items =>
      some (.array (items.map fun item => Utf8.encode (Reply.writeCompact item).toList))
  | _ => none

theorem isText_writeCompact (json : Json) :
    IsText (Utf8.encode (Reply.writeCompact json).toList) json := by
  have hdocument :=
    DocumentText.document Reply.Blank.nil (Reply.spells_print json 0) Reply.Blank.nil
  rw [List.nil_append, List.append_nil, ← Reply.writeCompact_toList] at hdocument
  exact ⟨_, rfl, hdocument⟩

/-- Reads with the reply scanner, and knows no float but zero. -/
def scanned : Library where
  floatText _ := ⟨"0.0", zero_valid⟩
  floatBits _ := some 0
  tree bytes :=
    match Utf8.decode bytes 0 with
    | .error _ => .error ⟨1, 0, "invalid unicode code point"⟩
    | .ok text =>
        match Reply.Scanner.document ⟨text, 0⟩ with
        | .error _ => .error ⟨1, 0, "expected value"⟩
        | .ok json =>
            match valueOf (fun _ => some 0) json with
            | none => .error ⟨1, 0, "number out of range"⟩
            | some value =>
                if value.depth ≤ maxDepth then .ok value
                else .error ⟨1, 0, "recursion limit exceeded"⟩
  outline bytes :=
    match Utf8.decode bytes 0 with
    | .error _ => none
    | .ok text => (Reply.Scanner.document ⟨text, 0⟩).toOption.bind outlineOf

theorem zero_numberOf : numberOf (fun _ => some 0) ⟨"0.0", zero_valid⟩ = some (.float 0) := by
  have hchars : "0.0".toList = ['0', '.', '0'] := by decide +kernel
  simp only [numberOf, hchars]
  rfl

theorem scanned_documented : scanned.Documented where
  sound bytes value htree := by
    simp only [scanned] at htree
    split at htree
    next => cases htree
    next text htext =>
      split at htree
      next => cases htree
      next json hjson =>
        split at htree
        next => cases htree
        next held hheld =>
          split at htree
          next hdepth =>
            cases htree
            have hsettled := Reply.Scan.document_settled ⟨text, 0⟩
            rw [hjson] at hsettled
            exact ⟨text, json, Utf8.decode_eq_ok.mp htext, hsettled.1,
              (means_iff_valueOf json value).mpr hheld, hdepth⟩
          next => cases htree
  complete text json value hdocument hrepeat hmeans hdepth := by
    have hvalue : valueOf (fun _ => some 0) json = some value :=
      (means_iff_valueOf json value).mp hmeans
    simp only [scanned, Utf8.decode_encode, Reply.Scan.document_of_text hdocument hrepeat, hvalue,
      hdepth, if_true]
  refuses text json value hdocument hrepeat hmeans hdepth := by
    have hvalue : valueOf (fun _ => some 0) json = some value :=
      (means_iff_valueOf json value).mp hmeans
    have hdeep : ¬value.depth ≤ maxDepth := Nat.not_le.mpr hdepth
    exact ⟨⟨1, 0, "recursion limit exceeded"⟩, by
      simp only [scanned, Utf8.decode_encode, Reply.Scan.document_of_text hdocument hrepeat, hvalue,
        hdeep, if_false]⟩
  members text members hdocument hrepeat := by
    refine ⟨members.map fun member =>
      (member.1, Utf8.encode (Reply.writeCompact member.2).toList), ?_, ?_⟩
    · simp only [scanned, Utf8.decode_encode, Reply.Scan.document_of_text hdocument hrepeat]
      rfl
    · exact List.forall₂_map_left_iff.mpr
        (List.forall₂_same.mpr fun member _ => ⟨rfl, isText_writeCompact member.2⟩)
  items text items hdocument hrepeat := by
    refine ⟨items.map fun item => Utf8.encode (Reply.writeCompact item).toList, ?_, ?_⟩
    · simp only [scanned, Utf8.decode_encode, Reply.Scan.document_of_text hdocument hrepeat]
      rfl
    · exact List.forall₂_map_left_iff.mpr
        (List.forall₂_same.mpr fun item _ => isText_writeCompact item)
  cuts text members cut hspells hcut hproper := by
    simp only [scanned]
    cases hdecode : Utf8.decode cut 0 with
    | error _ => rfl
    | ok short =>
        obtain rfl := Utf8.decode_eq_ok.mp hdecode
        have hsettled := Reply.Scan.document_settled ⟨short, 0⟩
        cases hread : Reply.Scanner.document ⟨short, 0⟩ with
        | error _ => simp only [hread, Except.toOption, Option.bind_none]
        | ok json =>
            rw [hread] at hsettled
            refine absurd hsettled.1 (hspells.not_document (Utf8.prefix_of_encode hcut) ?_ json)
            rintro rfl
            exact hproper rfl
  floats _ _ := ⟨0, zero_numberOf⟩

end Plasmosome.Serde
