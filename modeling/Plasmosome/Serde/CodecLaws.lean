import Plasmosome.Serde.Codec
import Plasmosome.Serde.Reader

/-!
# What codecs write and read

Values written without floats and not nested too deep read back from their text as
they are. A sound codec reads only values that it also writes, and an honest one writes
only values that it reads back.
-/

namespace Plasmosome.Serde

/-! ## Plain values -/

/-- A value with no float and no key given twice, nested no deeper than the bound. -/
structure Value.Plain (bound : Nat) (value : Value) : Prop where
  valid : value.Valid
  exact : ∀ library : Library, library.Exact value
  depth : value.depth ≤ bound

namespace Value.Plain

variable {bound : Nat}

theorem mono {larger : Nat} (hbound : bound ≤ larger) {value : Value} (hplain : value.Plain bound) :
    value.Plain larger :=
  ⟨hplain.valid, hplain.exact, hplain.depth.trans hbound⟩

theorem null : Value.Plain bound .null := ⟨.null, fun _ => rfl, Nat.zero_le _⟩

theorem bool (flag : Bool) : Value.Plain bound (.bool flag) :=
  ⟨.bool flag, fun _ => rfl, Nat.zero_le _⟩

theorem string (text : String) : Value.Plain bound (.string text) :=
  ⟨.string text, fun _ => rfl, Nat.zero_le _⟩

theorem ofU64 (number : UInt64) : Value.Plain bound (Value.ofU64 number) :=
  ⟨.number trivial, fun _ => rfl, Nat.zero_le _⟩

theorem itemsDepth_le {items : List Value} (hitems : ∀ item ∈ items, item.depth ≤ bound) :
    itemsDepth items ≤ bound := by
  induction items with
  | nil => exact Nat.zero_le _
  | cons item rest ih =>
      obtain ⟨hitem, hrest⟩ := List.forall_mem_cons.mp hitems
      rw [itemsDepth]
      exact Nat.max_le.mpr ⟨hitem, ih hrest⟩

theorem membersDepth_le {members : List (String × Value)}
    (hmembers : ∀ member ∈ members, member.2.depth ≤ bound) : membersDepth members ≤ bound := by
  induction members with
  | nil => exact Nat.zero_le _
  | cons member rest ih =>
      obtain ⟨hmember, hrest⟩ := List.forall_mem_cons.mp hmembers
      rcases member with ⟨key, value⟩
      rw [membersDepth]
      exact Nat.max_le.mpr ⟨hmember, ih hrest⟩

theorem array {items : List Value} (hitems : ∀ item ∈ items, item.Plain bound) :
    Value.Plain (bound + 1) (.array items) where
  valid := .array fun item hitem => (hitems item hitem).valid
  exact := by
    intro library
    rw [Library.Exact, Library.reread, rereadItems_eq_map]
    congr 1
    exact List.map_congr_left (fun item hitem => (hitems item hitem).exact library) |>.trans
      (by simp)
  depth := by
    rw [Value.depth]
    exact Nat.succ_le_succ (itemsDepth_le fun item hitem => (hitems item hitem).depth)

theorem object {members : List (String × Value)} (hkeys : (members.map Prod.fst).Nodup)
    (hmembers : ∀ member ∈ members, member.2.Plain bound) :
    Value.Plain (bound + 1) (.object members) where
  valid := .object hkeys fun member hmember => (hmembers member hmember).valid
  exact := by
    intro library
    rw [Library.Exact, Library.reread, rereadMembers_eq_map]
    congr 1
    have hsame : ∀ member ∈ members, (member.1, library.reread member.2) = member := by
      intro member hmember
      rw [(hmembers member hmember).exact library]
    exact (List.map_congr_left hsame).trans (by simp)
  depth := by
    rw [Value.depth]
    exact Nat.succ_le_succ (membersDepth_le fun member hmember => (hmembers member hmember).depth)

/-- A plain value reads back from its compact text. -/
theorem tree_write {library : Library} (hlibrary : library.Documented) {value : Value}
    (hplain : value.Plain maxDepth) : library.tree (library.write value) = .ok value := by
  rw [hlibrary.tree_write hplain.valid hplain.depth, hplain.exact library]

end Value.Plain

/-! ## What is written -/

/-- Everything a codec writes is plain. -/
def Codec.Writes {α : Type} (codec : Codec α) (bound : Nat) : Prop :=
  ∀ a value, codec.encode a = some value → value.Plain bound

def Fields.Writes {α : Type} (fields : Fields α) (bound : Nat) : Prop :=
  ∀ a values, fields.encode a = some values →
    values.length = fields.names.length ∧ ∀ value ∈ values, value.Plain bound

section Writing

variable {α β : Type} {bound : Nat}

theorem Fields.writes_nil : Fields.nil.Writes bound := by
  rintro ⟨⟩ values ⟨⟩
  exact ⟨rfl, by simp⟩

theorem Fields.writes_field {name : String} {first : Codec α} {rest : Fields β}
    (hfirst : first.Writes bound) (hrest : rest.Writes bound) :
    (Fields.field name first rest).Writes bound := by
  rintro ⟨a, b⟩ values hencode
  obtain ⟨value, hvalue, hencode⟩ := Option.bind_eq_some_iff.mp hencode
  obtain ⟨others, hothers, hencode⟩ := Option.bind_eq_some_iff.mp hencode
  cases hencode
  obtain ⟨hlength, hplain⟩ := hrest b others hothers
  exact ⟨congrArg Nat.succ hlength, List.forall_mem_cons.mpr ⟨hfirst a value hvalue, hplain⟩⟩

namespace Codec

variable {codec : Codec α}

theorem Writes.mono {larger : Nat} (hbound : bound ≤ larger) (hwrites : codec.Writes bound) :
    codec.Writes larger :=
  fun a value hencode => (hwrites a value hencode).mono hbound

theorem writes_string : Codec.string.Writes bound := by
  rintro text _ ⟨⟩
  exact .string text

theorem writes_bool : Codec.bool.Writes bound := by
  rintro flag _ ⟨⟩
  exact .bool flag

theorem writes_u8 : Codec.u8.Writes bound := by
  rintro byte _ ⟨⟩
  exact .ofU64 _

theorem writes_u16 : Codec.u16.Writes bound := by
  rintro number _ ⟨⟩
  exact .ofU64 _

theorem writes_u64 : Codec.u64.Writes bound := by
  rintro number _ ⟨⟩
  exact .ofU64 _

theorem writes_object {fields : Fields α} {hnodup : fields.names.Nodup}
    (hfields : fields.Writes bound) : (Codec.object fields hnodup).Writes (bound + 1) := by
  intro a value hencode
  obtain ⟨values, hvalues, rfl⟩ := Option.map_eq_some_iff.mp hencode
  obtain ⟨hlength, hplain⟩ := hfields a values hvalues
  refine .object ?_ fun member hmember => hplain _ (List.of_mem_zip hmember).2
  rwa [map_fst_zip hlength]

theorem writes_through {fields : β → α} {make : α → β} {hmake : ∀ b, make (fields b) = b}
    (hcodec : codec.Writes bound) : (Codec.through codec fields make hmake).Writes bound :=
  fun b value hencode => hcodec (fields b) value hencode

theorem writes_checked {check : α → Bool} (hcodec : codec.Writes bound) :
    (Codec.checked check codec).Writes bound := by
  intro a value hencode
  simp only [checked] at hencode
  split at hencode
  next => exact hcodec a value hencode
  next => cases hencode

theorem writes_screened {check : α → Bool} (hcodec : codec.Writes bound) :
    (Codec.screened check codec).Writes bound :=
  fun a value hencode => hcodec a value hencode

theorem writes_nullable {hnull : codec.decode .null = none} (hcodec : codec.Writes bound) :
    (Codec.nullable codec hnull).Writes bound := by
  rintro (_ | a) value hencode
  · cases hencode
    exact .null
  · exact hcodec a value hencode

theorem mem_of_mapM {f : α → Option β} {list : List α} {image : List β}
    (himage : list.mapM f = some image) {b : β} (hb : b ∈ image) : ∃ a ∈ list, f a = some b := by
  induction list generalizing image with
  | nil =>
      cases himage
      cases hb
  | cons a rest ih =>
      rw [List.mapM_cons] at himage
      obtain ⟨first, hfirst, himage⟩ := Option.bind_eq_some_iff.mp himage
      obtain ⟨others, hothers, himage⟩ := Option.bind_eq_some_iff.mp himage
      cases himage
      rcases List.mem_cons.mp hb with rfl | hb
      · exact ⟨a, List.mem_cons_self, hfirst⟩
      · obtain ⟨other, hother, heq⟩ := ih hothers hb
        exact ⟨other, List.mem_cons_of_mem a hother, heq⟩

theorem mapM_isSome {f : α → Option β} {list : List α} (hf : ∀ a ∈ list, ∃ b, f a = some b) :
    ∃ image, list.mapM f = some image := by
  induction list with
  | nil => exact ⟨[], rfl⟩
  | cons a rest ih =>
      obtain ⟨b, hb⟩ := hf a List.mem_cons_self
      obtain ⟨image, himage⟩ := ih fun other hother => hf other (List.mem_cons_of_mem a hother)
      exact ⟨b :: image, by rw [List.mapM_cons, hb, himage]; rfl⟩

theorem writes_list (hcodec : codec.Writes bound) : (Codec.list codec).Writes (bound + 1) := by
  intro items value hencode
  obtain ⟨values, hvalues, rfl⟩ := Option.map_eq_some_iff.mp hencode
  refine .array fun value hvalue => ?_
  obtain ⟨item, -, hitem⟩ := mem_of_mapM hvalues hvalue
  exact hcodec item value hitem

theorem writes_case {fields : β → Option α} {make : α → β}
    {hmake : ∀ b a, fields b = some a → make a = b} (hcodec : codec.Writes bound) :
    (Codec.case codec fields make hmake).Writes bound := by
  intro b value hencode
  obtain ⟨a, -, ha⟩ := Option.bind_eq_some_iff.mp hencode
  exact hcodec a value ha

theorem writes_variants {tag : α → String} {content : String → Option (Codec α)}
    {htag : ∀ a, ∃ codec, content (tag a) = some codec}
    (hcontent : ∀ name codec, content name = some codec → codec.Writes bound) :
    (Codec.variants tag content htag).Writes (bound + 1) := by
  intro a value hencode
  obtain ⟨codec, hcodec, hencode⟩ := Option.bind_eq_some_iff.mp hencode
  obtain ⟨inner, hinner, hencode⟩ := Option.bind_eq_some_iff.mp hencode
  cases hencode
  exact .object (List.nodup_singleton _)
    (List.forall_mem_singleton.mpr (hcontent _ codec hcodec a inner hinner))

end Codec

end Writing

/-! ## What is read -/

/-- Everything a codec reads is a value it writes. -/
def Codec.Sound {α : Type} (codec : Codec α) : Prop :=
  ∀ value a, codec.decode value = some a → codec.Valid a

def Fields.Sound {α : Type} (fields : Fields α) : Prop :=
  ∀ values a, fields.decode values = some a → fields.Valid a

section Reading

variable {α β : Type}

theorem Fields.sound_nil : Fields.nil.Sound := fun _ _ _ => trivial

theorem Fields.sound_field {name : String} {first : Codec α} {rest : Fields β}
    (hfirst : first.Sound)
    (hrest : rest.Sound) : (Fields.field name first rest).Sound := by
  intro values pair hdecode
  cases values with
  | nil => cases hdecode
  | cons value others =>
      obtain ⟨a, ha, hdecode⟩ := Option.bind_eq_some_iff.mp hdecode
      obtain ⟨b, hb, hdecode⟩ := Option.bind_eq_some_iff.mp hdecode
      cases hdecode
      exact ⟨hfirst value a ha, hrest others b hb⟩

namespace Codec

variable {codec : Codec α}

theorem sound_of_valid (hvalid : ∀ a, codec.Valid a) : codec.Sound := fun _ a _ => hvalid a

theorem sound_object {fields : Fields α} {hnodup : fields.names.Nodup} (hfields : fields.Sound) :
    (Codec.object fields hnodup).Sound := by
  intro value a hdecode
  obtain ⟨values, -, ha⟩ := Option.bind_eq_some_iff.mp hdecode
  exact hfields values a ha

theorem sound_through {fields : β → α} {make : α → β} {hmake : ∀ b, make (fields b) = b}
    (hfields : ∀ a, fields (make a) = a) (hcodec : codec.Sound) :
    (Codec.through codec fields make hmake).Sound := by
  intro value b hdecode
  obtain ⟨a, ha, rfl⟩ := Option.map_eq_some_iff.mp hdecode
  change codec.Valid (fields (make a))
  rw [hfields]
  exact hcodec value a ha

theorem sound_screened {check : α → Bool} (hcodec : codec.Sound) :
    (Codec.screened check codec).Sound := by
  intro value a hdecode
  obtain ⟨ha, hcheck⟩ := Option.filter_eq_some_iff.mp hdecode
  exact ⟨hcheck, hcodec value a ha⟩

theorem check_of_checked {check : α → Bool} {value : Value} {a : α}
    (hdecode : (codec.checked check).decode value = some a) : check a = true :=
  (Option.filter_eq_some_iff.mp hdecode).2

theorem sound_nullable {hnull : codec.decode .null = none} (hcodec : codec.Sound) :
    (Codec.nullable codec hnull).Sound := by
  rintro value item hdecode a rfl
  cases value with
  | null => cases hdecode
  | _ =>
      obtain ⟨held, hheld, heq⟩ := Option.map_eq_some_iff.mp hdecode
      cases heq
      exact hcodec _ a hheld

theorem sound_list (hcodec : codec.Sound) : (Codec.list codec).Sound := by
  intro value items hdecode
  cases value with
  | array values =>
      intro item hitem
      obtain ⟨value, -, hvalue⟩ := mem_of_mapM hdecode hitem
      exact hcodec value item hvalue
  | _ => cases hdecode

theorem sound_case {fields : β → Option α} {make : α → β}
    {hmake : ∀ b a, fields b = some a → make a = b} (hfields : ∀ a, fields (make a) = some a)
    (hcodec : codec.Sound) : (Codec.case codec fields make hmake).Sound := by
  intro value b hdecode
  obtain ⟨a, ha, rfl⟩ := Option.map_eq_some_iff.mp hdecode
  exact ⟨a, hfields a, hcodec value a ha⟩

theorem sound_variants {tag : α → String} {content : String → Option (Codec α)}
    {htag : ∀ a, ∃ codec, content (tag a) = some codec}
    (hcontent : ∀ name codec value a, content name = some codec → codec.decode value = some a →
      tag a = name ∧ codec.Valid a) : (Codec.variants tag content htag).Sound := by
  intro value a hdecode other hother
  obtain ⟨⟨name, inner⟩, -, hdecode⟩ := Option.bind_eq_some_iff.mp hdecode
  obtain ⟨codec, hcodec, ha⟩ := Option.bind_eq_some_iff.mp hdecode
  obtain ⟨htagged, hvalid⟩ := hcontent name codec inner a hcodec ha
  rw [htagged, hcodec] at hother
  cases hother
  exact hvalid

end Codec

end Reading

/-! ## Nothing is written that does not read back -/

/-- Everything a codec writes is the form of a value it reads. -/
def Codec.Honest {α : Type} (codec : Codec α) : Prop :=
  ∀ a value, codec.encode a = some value → codec.Valid a

def Fields.Honest {α : Type} (fields : Fields α) : Prop :=
  ∀ a values, fields.encode a = some values → fields.Valid a

section Honesty

variable {α β : Type}

theorem Fields.honest_nil : Fields.nil.Honest := fun _ _ _ => trivial

theorem Fields.honest_field {name : String} {first : Codec α} {rest : Fields β}
    (hfirst : first.Honest) (hrest : rest.Honest) : (Fields.field name first rest).Honest := by
  rintro ⟨a, b⟩ values hencode
  obtain ⟨value, hvalue, hencode⟩ := Option.bind_eq_some_iff.mp hencode
  obtain ⟨others, hothers, -⟩ := Option.bind_eq_some_iff.mp hencode
  exact ⟨hfirst a value hvalue, hrest b others hothers⟩

namespace Codec

variable {codec : Codec α}

theorem Honest.decode_encode (hcodec : codec.Honest) {a : α} {value : Value}
    (hencode : codec.encode a = some value) : codec.decode value = some a := by
  obtain ⟨written, hwritten, hdecode⟩ := codec.reads a (hcodec a value hencode)
  cases hwritten.symm.trans hencode
  exact hdecode

theorem honest_of_valid (hvalid : ∀ a, codec.Valid a) : codec.Honest := fun a _ _ => hvalid a

theorem honest_object {fields : Fields α} {hnodup : fields.names.Nodup} (hfields : fields.Honest) :
    (Codec.object fields hnodup).Honest := by
  intro a value hencode
  obtain ⟨values, hvalues, -⟩ := Option.map_eq_some_iff.mp hencode
  exact hfields a values hvalues

theorem honest_through {fields : β → α} {make : α → β} {hmake : ∀ b, make (fields b) = b}
    (hcodec : codec.Honest) : (Codec.through codec fields make hmake).Honest :=
  fun b value hencode => hcodec (fields b) value hencode

theorem check_of_encode {check : α → Bool} {a : α} {value : Value}
    (hencode : (codec.checked check).encode a = some value) : check a = true := by
  simp only [checked] at hencode
  split at hencode
  next hcheck => exact hcheck
  next => cases hencode

theorem honest_nullable {hnull : codec.decode .null = none} (hcodec : codec.Honest) :
    (Codec.nullable codec hnull).Honest := by
  rintro item value hencode a rfl
  exact hcodec a value hencode

theorem honest_case {fields : β → Option α} {make : α → β}
    {hmake : ∀ b a, fields b = some a → make a = b} (hcodec : codec.Honest) :
    (Codec.case codec fields make hmake).Honest := by
  intro b value hencode
  obtain ⟨a, hfields, ha⟩ := Option.bind_eq_some_iff.mp hencode
  exact ⟨a, hfields, hcodec a value ha⟩

theorem honest_variants {tag : α → String} {content : String → Option (Codec α)}
    {htag : ∀ a, ∃ codec, content (tag a) = some codec}
    (hcontent : ∀ name codec, content name = some codec → codec.Honest) :
    (Codec.variants tag content htag).Honest := by
  intro a value hencode other hother
  obtain ⟨codec, hcodec, hencode⟩ := Option.bind_eq_some_iff.mp hencode
  obtain ⟨inner, hinner, -⟩ := Option.bind_eq_some_iff.mp hencode
  rw [hcodec] at hother
  cases hother
  exact hcontent _ _ hcodec a inner hinner

end Codec

end Honesty

end Plasmosome.Serde
