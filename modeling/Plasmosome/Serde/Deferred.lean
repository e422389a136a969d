import Plasmosome.Serde.Codec
import Plasmosome.Serde.Reader

/-!
# Reading a document in layers

A document is taken apart before its parts are read: an object into the texts of its
members, an array into those of its items. A part that is left for later is a text of
its own, and is read by itself.
-/

namespace Plasmosome.Serde

open Reply (Json)

/-! ## Lists side by side -/

theorem forall₂_through {α β γ : Type} {first : α → β → Prop} {second : β → γ → Prop}
    {both : α → γ → Prop} (hboth : ∀ a b c, first a b → second b c → both a c) {as : List α}
    {bs : List β} {cs : List γ} (hfirst : List.Forall₂ first as bs)
    (hsecond : List.Forall₂ second bs cs) : List.Forall₂ both as cs := by
  induction hfirst generalizing cs with
  | nil =>
      cases hsecond
      exact .nil
  | cons hhead _ ih =>
      cases hsecond with
      | cons hnext hrest => exact .cons (hboth _ _ _ hhead hnext) (ih hrest)

theorem forall₂_two {α β : Type} {relation : α → β → Prop} {as : List α} {b c : β}
    (hall : List.Forall₂ relation as [b, c]) :
    ∃ first second, as = [first, second] ∧ relation first b ∧ relation second c := by
  obtain ⟨first, rest, hfirst, hrest, rfl⟩ := List.forall₂_cons_right_iff.mp hall
  obtain ⟨second, last, hsecond, hlast, rfl⟩ := List.forall₂_cons_right_iff.mp hrest
  cases hlast
  exact ⟨first, second, rfl, hfirst, hsecond⟩

theorem forall₂_three {α β : Type} {relation : α → β → Prop} {as : List α} {b c d : β}
    (hall : List.Forall₂ relation as [b, c, d]) : ∃ first second third,
      as = [first, second, third] ∧ relation first b ∧ relation second c ∧ relation third d := by
  obtain ⟨first, rest, hfirst, hrest, rfl⟩ := List.forall₂_cons_right_iff.mp hall
  obtain ⟨second, third, rfl, hsecond, hthird⟩ := forall₂_two hrest
  exact ⟨first, second, third, rfl, hfirst, hsecond, hthird⟩

/-! ## Layers -/

namespace Library

section Layers

variable (library : Library) {α : Type}

/-- Reads a text as a value of a type. -/
def read (codec : Codec α) (text : List UInt8) : Option α :=
  (library.tree text).toOption.bind codec.decode

/-- The texts of an object's members in the order of the names, when the members are those fields,
each once. -/
def fields (names : List String) (text : List UInt8) : Option (List (List UInt8)) :=
  match library.outline text with
  | some (.object members) => pick names members
  | _ => none

def items (text : List UInt8) : Option (List (List UInt8)) :=
  match library.outline text with
  | some (.array items) => some items
  | _ => none

/-- The tag of a variant and the text of its content. -/
def variant (text : List UInt8) : Option (String × List UInt8) :=
  match library.outline text with
  | some (.object [member]) => some member
  | _ => none

/-- Reads a text that may be null. -/
def nullable (read : List UInt8 → Option α) (text : List UInt8) : Option (Option α) :=
  match library.tree text with
  | .ok .null => some none
  | _ => (read text).map some

theorem exists_of_read {library : Library} {codec : Codec α} {text : List UInt8} {a : α}
    (hread : library.read codec text = some a) : ∃ value, codec.decode value = some a := by
  obtain ⟨value, -, hdecode⟩ := Option.bind_eq_some_iff.mp hread
  exact ⟨value, hdecode⟩

end Layers

/-! ## The layers of a text that tells a value -/

section Told

variable {library : Library} {bytes : List UInt8}

theorem means_items {items : List Json} {values : List Value}
    (hmeans : Means library.floatBits (.array items) (.array values))
    (hrepeat : (Json.array items).NoRepeat) :
    List.Forall₂ (fun item value => item.NoRepeat ∧ Means library.floatBits item value) items
      values := by
  cases hmeans with
  | array hlength hitems =>
      cases hrepeat with
      | array hrepeats =>
          exact List.forall₂_iff_zip.mpr ⟨hlength, fun hpair =>
            ⟨hrepeats _ (List.of_mem_zip hpair).1, hitems _ hpair⟩⟩

theorem means_members {members : List (String × Json)} {values : List (String × Value)}
    (hmeans : Means library.floatBits (.object members) (.object values))
    (hrepeat : (Json.object members).NoRepeat) :
    List.Forall₂ (fun member value => member.1 = value.1 ∧ member.2.NoRepeat ∧
      Means library.floatBits member.2 value.2) members values := by
  cases hmeans with
  | object hkeys hvalues =>
      cases hrepeat with
      | object _ hrepeats =>
          have hnames : List.Forall₂ (· = ·) (members.map Prod.fst) (values.map Prod.fst) := by
            rw [hkeys]
            exact List.forall₂_same.mpr fun _ _ => rfl
          rw [List.forall₂_map_left_iff, List.forall₂_map_right_iff] at hnames
          obtain ⟨hlength, hzip⟩ := List.forall₂_iff_zip.mp hnames
          exact List.forall₂_iff_zip.mpr ⟨hlength, fun hpair =>
            ⟨hzip hpair, hrepeats _ (List.of_mem_zip hpair).1, hvalues _ hpair⟩⟩

theorem Tells.members (hlibrary : library.Documented) {values : List (String × Value)}
    (htells : library.Tells bytes (.object values)) : ∃ parts,
      library.outline bytes = some (.object parts) ∧
        List.Forall₂ (fun part value => part.1 = value.1 ∧ library.Tells part.2 value.2) parts
          values := by
  obtain ⟨json, ⟨text, rfl, htext⟩, hrepeat, hmeans⟩ := htells
  obtain ⟨members, rfl⟩ : ∃ members, json = .object members := by
    cases hmeans
    exact ⟨_, rfl⟩
  obtain ⟨parts, hparts, htexts⟩ := hlibrary.members text members htext hrepeat
  refine ⟨parts, hparts, forall₂_through ?_ htexts (means_members hmeans hrepeat)⟩
  rintro part member value ⟨hkey, htext⟩ ⟨hname, hrepeat, hmeans⟩
  exact ⟨hkey.trans hname, member.2, htext, hrepeat, hmeans⟩

/-- The fields of an object are told by texts of their own. -/
theorem Tells.fields (hlibrary : library.Documented) {names : List String} (hnodup : names.Nodup)
    {values : List Value} (hlength : values.length = names.length)
    (htells : library.Tells bytes (.object (names.zip values))) :
    ∃ texts, library.fields names bytes = some texts ∧
      List.Forall₂ library.Tells texts values := by
  obtain ⟨parts, hparts, htold⟩ := htells.members hlibrary
  have hkeys : parts.map Prod.fst = names := by
    have hsame : List.Forall₂ (· = ·) (parts.map Prod.fst) ((names.zip values).map Prod.fst) :=
      List.forall₂_map_left_iff.mpr (List.forall₂_map_right_iff.mpr
        (htold.imp fun _ _ hpart => hpart.1))
    rw [List.forall₂_eq_eq_eq, map_fst_zip hlength] at hsame
    exact hsame
  refine ⟨parts.map Prod.snd, ?_, ?_⟩
  · rw [Library.fields, hparts]
    have hpick := pick_of_keys (hkeys.symm ▸ hnodup)
    rwa [hkeys] at hpick
  · have hvalues : values = (names.zip values).map Prod.snd := (List.map_snd_zip hlength.le).symm
    rw [hvalues, List.forall₂_map_left_iff, List.forall₂_map_right_iff]
    exact htold.imp fun _ _ hpart => hpart.2

theorem Tells.items (hlibrary : library.Documented) {values : List Value}
    (htells : library.Tells bytes (.array values)) :
    ∃ texts, library.items bytes = some texts ∧ List.Forall₂ library.Tells texts values := by
  obtain ⟨json, ⟨text, rfl, htext⟩, hrepeat, hmeans⟩ := htells
  obtain ⟨items, rfl⟩ : ∃ items, json = .array items := by
    cases hmeans
    exact ⟨_, rfl⟩
  obtain ⟨parts, hparts, htexts⟩ := hlibrary.items text items htext hrepeat
  refine ⟨parts, by rw [Library.items, hparts], ?_⟩
  refine forall₂_through ?_ htexts (means_items hmeans hrepeat)
  rintro part item value htext ⟨hrepeat, hmeans⟩
  exact ⟨item, htext, hrepeat, hmeans⟩

theorem Tells.variant (hlibrary : library.Documented) {tag : String} {value : Value}
    (htells : library.Tells bytes (.object [(tag, value)])) :
    ∃ inner, library.variant bytes = some (tag, inner) ∧ library.Tells inner value := by
  obtain ⟨parts, hparts, htold⟩ := htells.members hlibrary
  obtain ⟨part, rest, ⟨hkey, hinner⟩, hrest, rfl⟩ := List.forall₂_cons_right_iff.mp htold
  cases List.forall₂_nil_right_iff.mp hrest
  obtain ⟨key, inner⟩ := part
  cases hkey
  refine ⟨inner, ?_, hinner⟩
  rw [Library.variant, hparts]

theorem Tells.read {α : Type} (hlibrary : library.Documented) {codec : Codec α} {value : Value}
    {a : α} (htells : library.Tells bytes value) (hdepth : value.depth ≤ maxDepth)
    (hdecode : codec.decode value = some a) : library.read codec bytes = some a := by
  rw [Library.read, htells.tree hlibrary hdepth]
  exact hdecode

theorem Tells.nullable {α : Type} (hlibrary : library.Documented) {value : Value}
    {read : List UInt8 → Option α} {a : α} (htells : library.Tells bytes value)
    (hdepth : value.depth ≤ maxDepth) (hsome : value ≠ .null) (hread : read bytes = some a) :
    library.nullable read bytes = some (some a) := by
  rw [Library.nullable, htells.tree hlibrary hdepth]
  cases value with
  | null => exact (hsome rfl).elim
  | _ => simp [hread]

theorem Tells.null {α : Type} (hlibrary : library.Documented) {read : List UInt8 → Option α}
    (htells : library.Tells bytes .null) : library.nullable read bytes = some none := by
  rw [Library.nullable, htells.tree hlibrary (Nat.zero_le _)]

end Told

end Library

end Plasmosome.Serde
