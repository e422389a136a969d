import Mathlib

/-!
# Ordered maps and sets

Ordered maps are the extensional tree maps of the standard library. A keyed
map stores each value under the key the value itself names; its values are then
sorted by that key, and sorting any permutation of them gives them back.
-/

namespace Foundation

open Std

/-- A map sorted by its keys. -/
abbrev OrderedMap (Key Value : Type*) [Ord Key] := ExtTreeMap Key Value compare

/-- A set sorted by its elements. -/
abbrev OrderedSet (Element : Type*) [Ord Element] := ExtTreeSet Element compare

/-- Comparing images under an injection is a lawful order. -/
theorem lawfulEqCmp_compareOn {α β : Type*} [Ord β] [LawfulEqOrd β] {f : α → β}
    (hf : Function.Injective f) : LawfulEqCmp (compareOn f) where
  compare_self {a} := show compare (f a) (f a) = .eq from ReflOrd.compare_self
  eq_of_compare h := hf (LawfulEqOrd.eq_of_compare h)

/-- Sorts a list by a key, stably. -/
def sortByKey {Key Value : Type*} [Ord Key] (key : Value → Key) (list : List Value) :
    List Value :=
  list.mergeSort fun a b => (compare (key a) (key b)).isLE

section Sorting

variable {Key Value : Type*} [Ord Key] {key : Value → Key}

theorem sortByKey_perm (list : List Value) : (sortByKey key list).Perm list :=
  List.mergeSort_perm _ _

theorem sortByKey_pairwise [TransOrd Key] (list : List Value) :
    (sortByKey key list).Pairwise fun a b => (compare (key a) (key b)).isLE := by
  apply List.pairwise_mergeSort
  · intro a b c hab hbc
    exact TransCmp.isLE_trans hab hbc
  · intro a b
    cases h : compare (key a) (key b) with
    | lt => simp
    | eq => simp
    | gt => simp [OrientedCmp.lt_of_gt h]

/-- A list already in key order is its own sort. -/
theorem sortByKey_of_pairwise {list : List Value}
    (hlist : list.Pairwise fun a b => compare (key a) (key b) = .lt) :
    sortByKey key list = list := by
  apply List.mergeSort_of_pairwise
  exact hlist.imp (fun h => by simp [h])

/-- Sorting forgets the order of values whose keys are distinct. -/
theorem sortByKey_eq_of_perm [TransOrd Key] [LawfulEqOrd Key] {first second : List Value}
    (hperm : first.Perm second)
    (hnodup : (first.map key).Nodup) : sortByKey key first = sortByKey key second := by
  have hsorted : (sortByKey key first).Perm (sortByKey key second) :=
    (sortByKey_perm first).trans (hperm.trans (sortByKey_perm second).symm)
  refine List.Perm.eq_of_pairwise ?_ (sortByKey_pairwise first) (sortByKey_pairwise second) hsorted
  intro a b ha hb hab hba
  have hkey : key a = key b := LawfulEqOrd.eq_of_compare (OrientedCmp.isLE_antisymm hab hba)
  exact List.inj_on_of_nodup_map hnodup ((sortByKey_perm first).subset ha)
    (hperm.symm.subset ((sortByKey_perm second).subset hb)) hkey

end Sorting

/-- Among values of distinct keys at most one has a given key. -/
theorem filter_key_eq_toList_find? {Key Value : Type*} [DecidableEq Key] {key : Value → Key}
    {list : List Value} (hnodup : (list.map key).Nodup) (at_ : Key) :
    list.filter (fun value => key value = at_) =
      (list.find? fun value => key value = at_).toList := by
  induction list with
  | nil => rfl
  | cons head tail ih =>
      obtain ⟨hhead, htail⟩ := List.nodup_cons.mp hnodup
      by_cases heq : key head = at_
      · have hrest : tail.filter (fun value => key value = at_) = [] := by
          refine List.filter_eq_nil_iff.mpr fun value hvalue hkey => hhead ?_
          rw [heq, ← of_decide_eq_true hkey]
          exact List.mem_map_of_mem hvalue
        simp [heq, hrest]
      · simp [heq, ih htail]

namespace OrderedMap

variable {Key Value : Type*} [Ord Key] [TransOrd Key]

/-- The values in key order. -/
def values (map : OrderedMap Key Value) : List Value :=
  map.toList.map Prod.snd

@[simp] theorem values_empty : values (∅ : OrderedMap Key Value) = [] := by
  simp [values]

variable [LawfulEqOrd Key]

@[simp] theorem mem_values {map : OrderedMap Key Value} {value : Value} :
    value ∈ values map ↔ ∃ key : Key, map[key]? = some value := by
  simp [values]

/-- Lookup after an insertion, with the key test as an equation. -/
theorem getElem?_insert' [DecidableEq Key] (map : OrderedMap Key Value) (key other : Key)
    (value : Value) :
    (map.insert key value)[other]? = if key = other then some value else map[other]? := by
  simp [ExtTreeMap.getElem?_insert]

theorem getElem?_erase' [DecidableEq Key] (map : OrderedMap Key Value) (key other : Key) :
    (map.erase key)[other]? = if key = other then none else map[other]? := by
  simp [ExtTreeMap.getElem?_erase]

/-- Every value of the map names the key it is stored under. -/
def Keyed (key : Value → Key) (map : OrderedMap Key Value) : Prop :=
  ∀ (at_ : Key) (value : Value), map[at_]? = some value → key value = at_

namespace Keyed

variable {key : Value → Key} {map : OrderedMap Key Value}

theorem getElem? (hmap : Keyed key map) {value : Value} (hvalue : value ∈ values map) :
    map[key value]? = some value := by
  obtain ⟨at_, hat⟩ := mem_values.mp hvalue
  rw [hmap at_ value hat]
  exact hat

theorem toList_key (hmap : Keyed key map) {pair : Key × Value} (hpair : pair ∈ map.toList) :
    key pair.2 = pair.1 :=
  hmap pair.1 pair.2 (ExtTreeMap.mem_toList_iff_getElem?_eq_some.mp hpair)

theorem map_values (hmap : Keyed key map) : (values map).map key = map.keys := by
  rw [values, List.map_map, ← ExtTreeMap.map_fst_toList_eq_keys]
  exact List.map_congr_left fun pair hpair => hmap.toList_key hpair

theorem nodup (hmap : Keyed key map) : ((values map).map key).Nodup := by
  rw [hmap.map_values]
  exact ExtTreeMap.nodup_keys

theorem values_nodup (hmap : Keyed key map) : (values map).Nodup :=
  List.Nodup.of_map key hmap.nodup

theorem pairwise (hmap : Keyed key map) :
    (values map).Pairwise fun a b => compare (key a) (key b) = .lt := by
  have hkeys := ExtTreeMap.ordered_keys (t := map)
  rw [← hmap.map_values] at hkeys
  exact List.pairwise_map.mp hkeys

theorem sortByKey_values (hmap : Keyed key map) : sortByKey key (values map) = values map :=
  sortByKey_of_pairwise hmap.pairwise

theorem insert (hmap : Keyed key map) (at_ : Key) (value : Value) (hvalue : key value = at_) :
    Keyed key (map.insert at_ value) := by
  intro other found hfound
  rw [ExtTreeMap.getElem?_insert] at hfound
  split at hfound
  next heq =>
    cases hfound
    exact hvalue.trans (LawfulEqOrd.eq_of_compare heq)
  next => exact hmap other found hfound

omit [LawfulEqOrd Key] in
theorem erase (hmap : Keyed key map) (at_ : Key) : Keyed key (map.erase at_) := by
  intro other found hfound
  rw [ExtTreeMap.getElem?_erase] at hfound
  split at hfound
  next => cases hfound
  next => exact hmap other found hfound

/-- A map rebuilt from its keyed values, with each value replaced by its image. -/
theorem getElem?_ofList [DecidableEq Key] {Image : Type*} (hmap : Keyed key map)
    (image : Value → Image) (at_ : Key) :
    (ExtTreeMap.ofList ((values map).map fun value => (key value, image value)) compare)[at_]? =
      map[at_]?.map image := by
  cases hat : map[at_]? with
  | some value =>
      refine ExtTreeMap.getElem?_ofList_of_mem (k := at_) ReflOrd.compare_self ?_ ?_
      · rw [List.pairwise_map]
        exact hmap.pairwise.imp fun h => by simp [h]
      · refine List.mem_map.mpr ⟨value, mem_values.mpr ⟨at_, hat⟩, ?_⟩
        rw [hmap at_ value hat]
  | none =>
      refine ExtTreeMap.getElem?_ofList_of_contains_eq_false ?_
      simp only [List.map_map, List.contains_eq_mem, decide_eq_false_iff_not, List.mem_map,
        Function.comp_apply, not_exists, not_and]
      intro value hvalue heq
      have hfound := hmap.getElem? hvalue
      rw [heq, hat] at hfound
      cases hfound

/-- Searching the values for a key is looking the key up. -/
theorem find?_values [DecidableEq Key] (hmap : Keyed key map) (at_ : Key) :
    (values map).find? (fun value => key value = at_) = map[at_]? := by
  cases hfind : (values map).find? (fun value => key value = at_) with
  | some value =>
      have hkey : key value = at_ := by simpa using List.find?_some hfind
      rw [← hkey, hmap.getElem? (List.mem_of_find?_eq_some hfind)]
  | none =>
      cases hat : map[at_]? with
      | none => rfl
      | some value =>
          have hmiss := List.find?_eq_none.mp hfind value (mem_values.mpr ⟨at_, hat⟩)
          simp [hmap at_ value hat] at hmiss

/-- Filtering the values by a key gives the value stored under it, if any. -/
theorem filter_values [DecidableEq Key] (hmap : Keyed key map) (at_ : Key) :
    (values map).filter (fun value => key value = at_) = map[at_]?.toList := by
  rw [← hmap.find?_values at_]
  exact filter_key_eq_toList_find? hmap.nodup at_

end Keyed

/-! ## Maps that present a family

A family gives every key a state, and a map presents one reading of each state.
-/

section Reads

variable [DecidableEq Key] {State : Type*} {map : OrderedMap Key Value} {family : Key → State}
  {reading : State → Option Value}

/-- Looking a key up reads its state in the family. -/
def Reads (map : OrderedMap Key Value) (family : Key → State) (reading : State → Option Value) :
    Prop :=
  ∀ key : Key, map[key]? = reading (family key)

omit [LawfulEqOrd Key] in
theorem Reads.keep (hmap : Reads map family reading) {at_ : Key} {state : State}
    (hstate : reading state = reading (family at_)) :
    Reads map (Function.update family at_ state) reading := by
  intro key
  by_cases heq : key = at_
  · subst heq
    simp [hstate, hmap key]
  · simp [heq, hmap key]

theorem Reads.insert (hmap : Reads map family reading) {at_ : Key} {state : State} {value : Value}
    (hstate : reading state = some value) :
    Reads (map.insert at_ value) (Function.update family at_ state) reading := by
  intro key
  rw [getElem?_insert']
  by_cases heq : at_ = key
  · subst heq
    simp [hstate]
  · simp [heq, Ne.symm heq, hmap key]

theorem Reads.erase (hmap : Reads map family reading) {at_ : Key} {state : State}
    (hstate : reading state = none) :
    Reads (map.erase at_) (Function.update family at_ state) reading := by
  intro key
  rw [getElem?_erase']
  by_cases heq : at_ = key
  · subst heq
    simp [hstate]
  · simp [heq, Ne.symm heq, hmap key]

end Reads

/-! ## Maps split by their keys -/

section Splits

variable {Part : Type*} [DecidableEq Part] {map : OrderedMap Key Value}
  {parts : Part → OrderedMap Key Value} {partOf : Key → Part}

/-- Each part holds the entries of the keys that belong to it, and no others. -/
def Splits (map : OrderedMap Key Value) (parts : Part → OrderedMap Key Value)
    (partOf : Key → Part) : Prop :=
  ∀ (part : Part) (key : Key),
    (parts part)[key]? = if partOf key = part then map[key]? else none

omit [LawfulEqOrd Key] in
theorem Splits.keyed {key : Value → Key} (hsplits : Splits map parts partOf)
    (hmap : Keyed key map) (part : Part) : Keyed key (parts part) := by
  intro at_ value hvalue
  rw [hsplits part at_] at hvalue
  split at hvalue
  · exact hmap at_ value hvalue
  · cases hvalue

/-- Listing every part lists the map, up to order. -/
theorem Splits.perm {key : Value → Key} (hsplits : Splits map parts partOf)
    (hmap : Keyed key map) {order : List Part} (hnodup : order.Nodup)
    (hcover : ∀ key, partOf key ∈ order) :
    (order.flatMap fun part => values (parts part)).Perm (values map) := by
  have hdisjoint : order.Pairwise
      (Function.onFun List.Disjoint fun part => values (parts part)) := by
    refine hnodup.imp fun {first second} hne value hfirst hsecond => hne ?_
    have hfirst' := (hsplits.keyed hmap first).getElem? hfirst
    have hsecond' := (hsplits.keyed hmap second).getElem? hsecond
    rw [hsplits] at hfirst' hsecond'
    split at hfirst'
    next heq =>
      split at hsecond'
      next heq' => exact heq.symm.trans heq'
      next => cases hsecond'
    next => cases hfirst'
  refine (List.perm_ext_iff_of_nodup (List.nodup_flatMap.mpr
    ⟨fun part _ => (hsplits.keyed hmap part).values_nodup, hdisjoint⟩) hmap.values_nodup).mpr ?_
  intro value
  simp only [List.mem_flatMap, mem_values]
  constructor
  · rintro ⟨part, -, at_, hat⟩
    rw [hsplits part at_] at hat
    split at hat
    · exact ⟨at_, hat⟩
    · cases hat
  · rintro ⟨at_, hat⟩
    exact ⟨partOf at_, hcover at_, at_, by rw [hsplits, if_pos rfl, hat]⟩

end Splits

end OrderedMap

end Foundation
