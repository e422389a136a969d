import Plasmosome.Serde.Value

/-!
# Codecs over values

A type's value form: how it is written, how it is read, and the values that read back
from what they are written as. Why a reading is refused is not kept.
-/

namespace Plasmosome.Serde

/-- A writer and a reader, and the values the reader gives back. -/
structure Codec (α : Type) where
  encode : α → Option Value
  decode : Value → Option α
  Valid : α → Prop
  reads : ∀ a, Valid a → ∃ value, encode a = some value ∧ decode value = some a

/-- The named fields of a record, in the order they are written. -/
structure Fields (α : Type) where
  names : List String
  encode : α → Option (List Value)
  decode : List Value → Option α
  Valid : α → Prop
  reads : ∀ a, Valid a → ∃ values, encode a = some values ∧ values.length = names.length ∧
    decode values = some a

/-! ## Objects -/

/-- What the members hold in the order of the names, when the members are those fields, each
once. -/
def pick {β : Type} (names : List String) (members : List (String × β)) : Option (List β) :=
  if (members.map Prod.fst).Nodup ∧ ∀ key ∈ members.map Prod.fst, key ∈ names then
    names.mapM fun name => members.lookup name
  else none

def readFields (names : List String) : Value → Option (List Value)
  | .object members => pick names members
  | _ => none

theorem map_fst_zip {names : List String} {values : List Value}
    (hlength : values.length = names.length) : (names.zip values).map Prod.fst = names :=
  List.map_fst_zip hlength.ge

theorem lookup_of_mem {β : Type} {members : List (String × β)}
    (hnodup : (members.map Prod.fst).Nodup) {key : String} {value : β}
    (hmember : (key, value) ∈ members) :
    members.lookup key = some value := by
  induction members with
  | nil => cases hmember
  | cons first rest ih =>
      obtain ⟨firstKey, firstValue⟩ := first
      obtain ⟨hfresh, hrest⟩ := List.nodup_cons.mp hnodup
      rw [List.lookup_cons]
      rcases List.mem_cons.mp hmember with heq | hlater
      · cases heq
        rw [beq_self_eq_true]
      · have hne : (key == firstKey) = false := by
          rw [beq_eq_false_iff_ne]
          rintro rfl
          exact hfresh (List.mem_map.mpr ⟨(key, value), hlater, rfl⟩)
        rw [hne]
        exact ih hrest hlater

theorem mapM_of_zip {β : Type} {names : List String} {values : List β}
    {read : String → Option β} (hlength : values.length = names.length)
    (hread : ∀ name value, (name, value) ∈ names.zip values → read name = some value) :
    names.mapM read = some values := by
  induction names generalizing values with
  | nil =>
      rw [List.length_nil, List.length_eq_zero_iff] at hlength
      rw [hlength]
      rfl
  | cons name rest ih =>
      obtain ⟨value, others, rfl⟩ := List.exists_cons_of_length_eq_add_one hlength
      have hfirst := hread name value List.mem_cons_self
      have hrest := ih (Nat.succ.inj hlength) fun other item hmember =>
        hread other item (List.mem_cons_of_mem _ hmember)
      simp [hfirst, hrest]

/-- The members are the fields, in their order. -/
theorem pick_of_keys {β : Type} {members : List (String × β)}
    (hnodup : (members.map Prod.fst).Nodup) :
    pick (members.map Prod.fst) members = some (members.map Prod.snd) := by
  rw [pick, if_pos ⟨hnodup, fun _ hkey => hkey⟩]
  refine mapM_of_zip (by simp) fun name value hmember => ?_
  rw [List.zip_map', List.mem_map] at hmember
  obtain ⟨member, hmember, hsame⟩ := hmember
  cases hsame
  exact lookup_of_mem hnodup hmember

theorem readFields_object {names : List String} (hnodup : names.Nodup) {values : List Value}
    (hlength : values.length = names.length) :
    readFields names (.object (names.zip values)) = some values := by
  have hkeys := map_fst_zip hlength
  have hpick := @pick_of_keys _ (names.zip values) (hkeys.symm ▸ hnodup)
  rwa [hkeys, List.map_snd_zip hlength.le] at hpick

namespace Fields

def nil : Fields Unit where
  names := []
  encode := fun _ => some []
  decode
    | [] => some ()
    | _ => none
  Valid := fun _ => True
  reads := fun _ _ => ⟨[], rfl, rfl, rfl⟩

def field {α β : Type} (name : String) (first : Codec α) (rest : Fields β) : Fields (α × β) where
  names := name :: rest.names
  encode := fun (a, b) => do
    let value ← first.encode a
    let values ← rest.encode b
    some (value :: values)
  decode
    | [] => none
    | value :: values => do
        let a ← first.decode value
        let b ← rest.decode values
        some (a, b)
  Valid := fun (a, b) => first.Valid a ∧ rest.Valid b
  reads := by
    rintro ⟨a, b⟩ ⟨hfirst, hrest⟩
    obtain ⟨value, hencode, hdecode⟩ := first.reads a hfirst
    obtain ⟨values, hencodes, hlength, hdecodes⟩ := rest.reads b hrest
    refine ⟨value :: values, ?_, ?_, ?_⟩
    · simp [hencode, hencodes]
    · rw [List.length_cons, List.length_cons, hlength]
    · simp [hdecode, hdecodes]

end Fields

namespace Codec

variable {α β : Type}

/-! ## Scalars -/

def string : Codec String where
  encode := fun text => some (.string text)
  decode := Value.asStr
  Valid := fun _ => True
  reads := fun text _ => ⟨.string text, rfl, rfl⟩

def bool : Codec Bool where
  encode := fun flag => some (.bool flag)
  decode
    | .bool flag => some flag
    | _ => none
  Valid := fun _ => True
  reads := fun flag _ => ⟨.bool flag, rfl, rfl⟩

def u8 : Codec UInt8 where
  encode := fun byte => some (.ofU64 byte.toUInt64)
  decode := fun value => do
    let number ← value.asU64
    if number.toNat < UInt8.size then some number.toUInt8 else none
  Valid := fun _ => True
  reads := by
    intro byte _
    refine ⟨_, rfl, ?_⟩
    have hbyte : byte.toNat < UInt8.size := byte.toNat_lt
    simp [hbyte]

def u16 : Codec UInt16 where
  encode := fun number => some (.ofU64 number.toUInt64)
  decode := fun value => do
    let number ← value.asU64
    if number.toNat < UInt16.size then some number.toUInt16 else none
  Valid := fun _ => True
  reads := by
    intro number _
    refine ⟨_, rfl, ?_⟩
    have hnumber : number.toNat < UInt16.size := number.toNat_lt
    simp [hnumber]

def u64 : Codec UInt64 where
  encode := fun number => some (.ofU64 number)
  decode := Value.asU64
  Valid := fun _ => True
  reads := fun number _ => ⟨.ofU64 number, rfl, rfl⟩

/-! ## Combinators -/

/-- A record written as an object of exactly its fields. -/
def object (fields : Fields α) (hnodup : fields.names.Nodup) : Codec α where
  encode := fun a => (fields.encode a).map fun values => .object (fields.names.zip values)
  decode := fun value => (readFields fields.names value).bind fields.decode
  Valid := fields.Valid
  reads := by
    intro a hvalid
    obtain ⟨values, hencode, hlength, hdecode⟩ := fields.reads a hvalid
    refine ⟨_, by rw [hencode, Option.map_some], ?_⟩
    rw [readFields_object hnodup hlength, Option.bind_some, hdecode]

/-- A type written through the fields it holds. -/
def through (codec : Codec β) (fields : α → β) (make : β → α) (hmake : ∀ a, make (fields a) = a) :
    Codec α where
  encode := fun a => codec.encode (fields a)
  decode := fun value => (codec.decode value).map make
  Valid := fun a => codec.Valid (fields a)
  reads := by
    intro a hvalid
    obtain ⟨value, hencode, hdecode⟩ := codec.reads (fields a) hvalid
    exact ⟨value, hencode, by rw [hdecode, Option.map_some, hmake]⟩

/-- A codec that writes and reads only what passes a check. -/
def checked (check : α → Bool) (codec : Codec α) : Codec α where
  encode := fun a => if check a then codec.encode a else none
  decode := fun value => (codec.decode value).filter check
  Valid := fun a => check a = true ∧ codec.Valid a
  reads := by
    rintro a ⟨hcheck, hvalid⟩
    obtain ⟨value, hencode, hdecode⟩ := codec.reads a hvalid
    exact ⟨value, by rw [if_pos hcheck, hencode],
      by rw [hdecode, Option.filter_some, if_pos hcheck]⟩

/-- A codec that writes anything, and reads only what passes a check. -/
def screened (check : α → Bool) (codec : Codec α) : Codec α where
  encode := codec.encode
  decode := fun value => (codec.decode value).filter check
  Valid := fun a => check a = true ∧ codec.Valid a
  reads := by
    rintro a ⟨hcheck, hvalid⟩
    obtain ⟨value, hencode, hdecode⟩ := codec.reads a hvalid
    exact ⟨value, hencode, by rw [hdecode, Option.filter_some, if_pos hcheck]⟩

theorem check_of_screened {check : α → Bool} {codec : Codec α} {value : Value} {a : α}
    (hdecode : (codec.screened check).decode value = some a) : check a = true :=
  (Option.filter_eq_some_iff.mp hdecode).2

/-- A value that may be null. -/
def nullable (codec : Codec α) (hnull : codec.decode .null = none) : Codec (Option α) where
  encode
    | none => some .null
    | some a => codec.encode a
  decode
    | .null => some none
    | value => (codec.decode value).map some
  Valid := fun item => ∀ a, item = some a → codec.Valid a
  reads := by
    rintro (_ | a) hvalid
    · exact ⟨.null, rfl, rfl⟩
    · obtain ⟨value, hencode, hdecode⟩ := codec.reads a (hvalid a rfl)
      refine ⟨value, hencode, ?_⟩
      cases value with
      | null => simp [hnull] at hdecode
      | _ => simp [hdecode]

theorem mapM_reads {f : α → Option β} {g : β → Option α} {list : List α}
    (hreads : ∀ a ∈ list, ∃ b, f a = some b ∧ g b = some a) :
    ∃ image, list.mapM f = some image ∧ image.mapM g = some list := by
  induction list with
  | nil => exact ⟨[], rfl, rfl⟩
  | cons a rest ih =>
      obtain ⟨b, hf, hg⟩ := hreads a List.mem_cons_self
      obtain ⟨image, hmap, hback⟩ :=
        ih fun other hother => hreads other (List.mem_cons_of_mem _ hother)
      exact ⟨b :: image, by simp [hf, hmap], by simp [hg, hback]⟩

/-- A list written as an array. -/
def list (codec : Codec α) : Codec (List α) where
  encode := fun items => (items.mapM codec.encode).map .array
  decode
    | .array values => values.mapM codec.decode
    | _ => none
  Valid := fun items => ∀ item ∈ items, codec.Valid item
  reads := by
    intro items hvalid
    obtain ⟨values, hencode, hdecode⟩ :=
      mapM_reads fun item hitem => codec.reads item (hvalid item hitem)
    exact ⟨.array values, by rw [hencode, Option.map_some], hdecode⟩

/-- One variant of an enumeration, written as the fields it holds. -/
def case (codec : Codec β) (fields : α → Option β) (make : β → α)
    (hmake : ∀ a b, fields a = some b → make b = a) : Codec α where
  encode := fun a => (fields a).bind codec.encode
  decode := fun value => (codec.decode value).map make
  Valid := fun a => ∃ b, fields a = some b ∧ codec.Valid b
  reads := by
    rintro a ⟨b, hfields, hvalid⟩
    obtain ⟨value, hencode, hdecode⟩ := codec.reads b hvalid
    exact ⟨value, by rw [hfields, Option.bind_some, hencode],
      by rw [hdecode, Option.map_some, hmake a b hfields]⟩

/-- The tag of a variant and its content. -/
def variant : Value → Option (String × Value)
  | .object [member] => some member
  | _ => none

/-- An enumeration whose variants are written as an object of the tag and the content. -/
def variants (tag : α → String) (content : String → Option (Codec α))
    (htag : ∀ a, ∃ codec, content (tag a) = some codec) : Codec α where
  encode := fun a => do
    let codec ← content (tag a)
    let value ← codec.encode a
    some (.object [(tag a, value)])
  decode := fun value => do
    let (tag, inner) ← variant value
    let codec ← content tag
    codec.decode inner
  Valid := fun a => ∀ codec, content (tag a) = some codec → codec.Valid a
  reads := by
    intro a hvalid
    obtain ⟨codec, hcodec⟩ := htag a
    obtain ⟨value, hencode, hdecode⟩ := codec.reads a (hvalid codec hcodec)
    refine ⟨.object [(tag a, value)], by simp [hcodec, hencode], by simp [variant, hcodec, hdecode]⟩

end Codec

end Plasmosome.Serde
