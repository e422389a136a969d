import Plasmosome.Journal.Parse
import Plasmosome.Serde.Scanned

/-!
# A record reads back from its line

A record that keeps the rules of its cell reads back from what it is written as, and
every record that is read keeps them and is written. A written record is one line, whose
texts tell what they are read as.
-/

namespace Plasmosome.Journal

open Foundation Backend Reversal
open Serde (Codec Fields Library Value)

/-! ## The rules of a cell -/

def RecordedEffect.Obeys (owner : CellOwner) (recorded : RecordedEffect) : Prop :=
  recorded.validate owner = .ok ()

structure Replacement.Obeys (owner : CellOwner) (replacement : Replacement) : Prop where
  source : replacement.source.Valid
  member : replacement.source.validateMember owner.plugin = .ok ()
  effects : ∀ recorded ∈ replacement.effects, recorded.Obeys owner

def Change.Obeys (cell : CellId) (change : Change) : Prop :=
  ∀ replacement, change.replacement = some replacement → replacement.Obeys ⟨cell, change.plugin⟩

structure Prepare.Obeys (cell : CellId) (prepare : Prepare) : Prop where
  changes : ∀ change ∈ prepare.changes, change.Obeys cell
  force : ∀ force, prepare.force = some force →
    isBlank force.operator = false ∧ isBlank force.reason = false

/-- The rules one record keeps by itself, in the journal of a cell. -/
structure CellJournalRecord.Obeys (cell : CellId) (record : CellJournalRecord) : Prop where
  generation : record.generation ≠ 0
  prepare : ∀ prepare, record.event = .prepare prepare → prepare.Obeys cell

/-! ## Codecs of the wire forms -/

theorem operationCodec_writes : operationCodec.Writes 4 :=
  Codec.writes_nullable UniverseOp.codec_writes

theorem operationCodec_honest : operationCodec.Honest :=
  Codec.honest_nullable UniverseOp.codec_honest

theorem operationCodec_sound : operationCodec.Sound := Codec.sound_nullable UniverseOp.codec_sound

theorem WireEffect.codec_valid (wire : WireEffect Value) : WireEffect.codec.Valid wire :=
  ⟨trivial, trivial, trivial⟩

theorem WireReplacement.codec_valid (wire : WireReplacement Value) :
    WireReplacement.codec.Valid wire :=
  ⟨trivial, trivial, fun effect _ => effect.codec_valid, trivial⟩

theorem WireChange.codec_valid (wire : WireChange Value) : WireChange.codec.Valid wire :=
  ⟨trivial, fun replacement _ => replacement.codec_valid, trivial⟩

theorem WirePrepare.codec_valid (wire : WirePrepare Value) : WirePrepare.codec.Valid wire :=
  ⟨fun change _ => change.codec_valid, fun _ _ => ⟨trivial, trivial, trivial⟩, trivial⟩

theorem WireEvent.codec_valid (wire : WireEvent Value) : WireEvent.codec.Valid wire := by
  intro codec hcodec
  cases wire with
  | prepare prepare =>
      cases hcodec
      exact ⟨prepare, rfl, prepare.codec_valid⟩
  | commit =>
      cases hcodec
      exact ⟨(), rfl, trivial⟩
  | abort =>
      cases hcodec
      exact ⟨(), rfl, trivial⟩
  | finish =>
      cases hcodec
      exact ⟨(), rfl, trivial⟩

theorem WireRecord.codec_valid (wire : WireRecord Value) : WireRecord.codec.Valid wire :=
  ⟨trivial, trivial, wire.event.codec_valid, trivial⟩

/-! ## What is written is one line -/

theorem wireEffect_plain {recorded : RecordedEffect} {wire : WireEffect Value} {value : Value}
    (hwire : wireEffect recorded = some wire)
    (hencode : WireEffect.codec.encode wire = some value) :
    value.Plain 10 := by
  obtain ⟨effect, heffect, hwire⟩ := Option.bind_eq_some_iff.mp hwire
  obtain ⟨operation, hoperation, hwire⟩ := Option.bind_eq_some_iff.mp hwire
  cases hwire
  cases hencode
  refine .object (by simp [Fields.field, Fields.nil]) ?_
  have heffectPlain := Effect.codec_writes _ effect heffect
  have hoperationPlain := (operationCodec_writes.mono (by decide : 4 ≤ 9)) _ operation hoperation
  exact List.forall_mem_cons.mpr ⟨heffectPlain, List.forall_mem_singleton.mpr hoperationPlain⟩

theorem WireReplacement.codec_encode (wire : WireReplacement Value) :
    WireReplacement.codec.encode wire = (MockMode.codec.encode wire.mock).bind fun mock =>
      (wire.effects.mapM WireEffect.codec.encode).map fun effects =>
        .object [("mock", mock), ("source", wire.source), ("effects", .array effects)] := by
  simp only [WireReplacement.codec, Codec.through, Codec.object, Fields.field, Fields.nil, rawCodec,
    Codec.list]
  cases MockMode.codec.encode wire.mock <;> cases wire.effects.mapM WireEffect.codec.encode <;> rfl

theorem WireChange.codec_encode_some (plugin : PluginId) (wire : WireReplacement Value) :
    WireChange.codec.encode ⟨plugin, some wire⟩ =
      (WireReplacement.codec.encode wire).map fun value =>
        .object [("plugin", .string plugin.name), ("replacement", value)] := by
  simp only [WireChange.codec, Codec.through, Codec.object, Fields.field, Fields.nil,
    Codec.nullable, PluginId.codec, Codec.string]
  cases WireReplacement.codec.encode wire <;> rfl

theorem WirePrepare.codec_encode (wire : WirePrepare Value) :
    WirePrepare.codec.encode wire = (wire.changes.mapM WireChange.codec.encode).bind fun changes =>
      (forceCodec.encode wire.force).map fun force =>
        .object [("changes", .array changes), ("force", force)] := by
  simp only [WirePrepare.codec, forceCodec, Codec.through, Codec.object, Fields.field, Fields.nil,
    Codec.list]
  cases wire.changes.mapM WireChange.codec.encode <;>
    cases (Codec.nullable WireForce.codec rfl).encode wire.force <;> rfl

theorem wireReplacement_plain {replacement : Replacement} {wire : WireReplacement Value}
    {value : Value}
    (hwire : wireReplacement replacement = some wire)
    (hencode : WireReplacement.codec.encode wire = some value) : value.Plain 12 := by
  obtain ⟨source, hsource, hwire⟩ := Option.bind_eq_some_iff.mp hwire
  obtain ⟨effects, heffects, hwire⟩ := Option.bind_eq_some_iff.mp hwire
  cases hwire
  rw [WireReplacement.codec_encode] at hencode
  obtain ⟨mock, hmock, hencode⟩ := Option.bind_eq_some_iff.mp hencode
  obtain ⟨written, hwritten, rfl⟩ := Option.map_eq_some_iff.mp hencode
  refine .object (by simp) ?_
  simp only [List.forall_mem_cons, List.not_mem_nil, false_implies, implies_true, and_true]
  refine ⟨named_writes _ mock hmock,
    (AttachmentSource.codec_writes.mono (by decide)) _ source hsource, .array fun value hvalue => ?_⟩
  obtain ⟨wire, hmem, hvalue⟩ := Codec.mem_of_mapM hwritten hvalue
  obtain ⟨recorded, -, hrecorded⟩ := Codec.mem_of_mapM heffects hmem
  exact wireEffect_plain hrecorded hvalue

theorem wireChange_plain {change : Change} {wire : WireChange Value} {value : Value}
    (hwire : wireChange change = some wire) (hencode : WireChange.codec.encode wire = some value) :
    value.Plain 13 := by
  obtain ⟨plugin, replacement⟩ := change
  cases replacement with
  | none =>
      cases hwire
      cases hencode
      refine .object (by simp [Fields.field, Fields.nil]) ?_
      exact List.forall_mem_cons.mpr ⟨.string _, List.forall_mem_singleton.mpr .null⟩
  | some replacement =>
      obtain ⟨written, hwritten, hwire⟩ := Option.bind_eq_some_iff.mp hwire
      cases hwire
      rw [WireChange.codec_encode_some] at hencode
      obtain ⟨value, hreplacement, rfl⟩ := Option.map_eq_some_iff.mp hencode
      refine .object (by simp) (List.forall_mem_cons.mpr ⟨.string _, ?_⟩)
      exact List.forall_mem_singleton.mpr (wireReplacement_plain hwritten hreplacement)

theorem WireForce.codec_writes : WireForce.codec.Writes 1 :=
  Codec.writes_through <| Codec.writes_object <|
    Fields.writes_field Codec.writes_string <|
    Fields.writes_field Codec.writes_string Fields.writes_nil

theorem wirePrepare_plain {changes : List Change} {wire : WirePrepare Value} {value : Value}
    (hwire : changes.mapM wireChange = some wire.changes)
    (hencode : WirePrepare.codec.encode wire = some value) : value.Plain 15 := by
  rw [WirePrepare.codec_encode] at hencode
  obtain ⟨written, hwritten, hencode⟩ := Option.bind_eq_some_iff.mp hencode
  obtain ⟨value, hforce, rfl⟩ := Option.map_eq_some_iff.mp hencode
  refine .object (by simp) (List.forall_mem_cons.mpr ⟨.array fun value hvalue => ?_, ?_⟩)
  · obtain ⟨wire, hmem, hvalue⟩ := Codec.mem_of_mapM hwritten hvalue
    obtain ⟨change, -, hchange⟩ := Codec.mem_of_mapM hwire hmem
    exact wireChange_plain hchange hvalue
  · exact List.forall_mem_singleton.mpr
      ((Codec.writes_nullable (WireForce.codec_writes.mono (by decide))) wire.force value hforce)

theorem WireEvent.empty_writes {bound : Nat} (hbound : 0 < bound) : WireEvent.empty.Writes bound :=
  (Codec.writes_object Fields.writes_nil).mono hbound

theorem wireEvent_plain {event : JournalEvent} {wire : WireEvent Value} {value : Value}
    (hwire : wireEvent event = some wire) (hencode : WireEvent.codec.encode wire = some value) :
    value.Plain 16 := by
  obtain ⟨codec, hcodec, hencode⟩ := Option.bind_eq_some_iff.mp hencode
  obtain ⟨inner, hinner, hencode⟩ := Option.bind_eq_some_iff.mp hencode
  cases hencode
  refine .object (List.nodup_singleton _) (List.forall_mem_singleton.mpr ?_)
  cases event with
  | prepare prepare =>
      obtain ⟨changes, hchanges, hwire⟩ := Option.bind_eq_some_iff.mp hwire
      cases hwire
      cases hcodec
      exact @wirePrepare_plain _ ⟨changes, _⟩ inner hchanges hinner
  | commit =>
      cases hwire
      cases hcodec
      exact Codec.writes_case (WireEvent.empty_writes (by decide)) _ inner hinner
  | abort =>
      cases hwire
      cases hcodec
      exact Codec.writes_case (WireEvent.empty_writes (by decide)) _ inner hinner
  | finish =>
      cases hwire
      cases hcodec
      exact Codec.writes_case (WireEvent.empty_writes (by decide)) _ inner hinner

theorem WireRecord.codec_encode (wire : WireRecord Value) : WireRecord.codec.encode wire =
    (WireEvent.codec.encode wire.event).map fun event => .object [("format", .ofU64 wire.format),
      ("generation", .ofU64 wire.generation), ("event", event)] := by
  simp only [WireRecord.codec, Codec.through, Codec.object, Fields.field, Fields.nil, Codec.u64]
  cases WireEvent.codec.encode wire.event <;> rfl

/-- The value of a record: its three members. -/
theorem encodeValue_eq_some {record : CellJournalRecord} {value : Value}
    (hencode : encodeValue record = some value) : ∃ wire event, wireEvent record.event = some wire ∧
      WireEvent.codec.encode wire = some event ∧
      WireRecord.codec.encode ⟨cellJournalFormat, record.generation, wire⟩ = some value ∧
      value = .object [("format", .ofU64 cellJournalFormat),
        ("generation", .ofU64 record.generation), ("event", event)] := by
  obtain ⟨wire, hwire, hencode⟩ := Option.bind_eq_some_iff.mp hencode
  have hvalue := hencode
  rw [WireRecord.codec_encode] at hvalue
  obtain ⟨event, hevent, rfl⟩ := Option.map_eq_some_iff.mp hvalue
  exact ⟨wire, event, hwire, hevent, hencode, rfl⟩

/-- A record is written without numbers that need rounding, and not too deep. -/
theorem encodeValue_plain {record : CellJournalRecord} {value : Value}
    (hencode : encodeValue record = some value) : value.Plain Serde.maxDepth := by
  obtain ⟨wire, event, hwire, hevent, -, rfl⟩ := encodeValue_eq_some hencode
  have hplain : Value.Plain 17 (.object [("format", .ofU64 cellJournalFormat),
      ("generation", .ofU64 record.generation), ("event", event)]) := by
    refine .object (by simp) ?_
    simp only [List.forall_mem_cons, List.not_mem_nil, false_implies, implies_true, and_true]
    exact ⟨.ofU64 _, .ofU64 _, wireEvent_plain hwire hevent⟩
  exact hplain.mono (by decide)

/-! ## What is written tells what it is -/

section Told

variable (library : Library)

/-- The texts of an effect are read as it. -/
structure WireEffect.Told (wire : WireEffect (List UInt8)) (recorded : RecordedEffect) : Prop where
  effect : library.read Effect.codec wire.effect = some recorded.effect
  operation : library.read operationCodec wire.operation = some recorded.operation

structure WireReplacement.Told (wire : WireReplacement (List UInt8)) (replacement : Replacement) :
    Prop where
  mock : wire.mock = replacement.mock
  source : library.read AttachmentSource.codec wire.source = some replacement.source
  effects : List.Forall₂ (WireEffect.Told library) wire.effects replacement.effects

structure WireChange.Told (wire : WireChange (List UInt8)) (change : Change) : Prop where
  plugin : wire.plugin = change.plugin
  replacement : Option.Rel (WireReplacement.Told library) wire.replacement change.replacement

structure WirePrepare.Told (wire : WirePrepare (List UInt8)) (prepare : Prepare) : Prop where
  changes : List.Forall₂ (WireChange.Told library) wire.changes prepare.changes
  force : wire.force.map (fun force => ForceAssertion.mk force.operator force.reason) =
    prepare.force

inductive WireEvent.Told : WireEvent (List UInt8) → JournalEvent → Prop where
  | prepare {wire : WirePrepare (List UInt8)} {prepare : Prepare}
      (hprepare : wire.Told library prepare) : WireEvent.Told (.prepare wire) (.prepare prepare)
  | commit : WireEvent.Told .commit .commit
  | abort : WireEvent.Told .abort .abort
  | finish : WireEvent.Told .finish .finish

end Told

section Layers

variable {library : Library} {text : List UInt8} {value : Value}

/-- The texts of a list are read item by item. -/
theorem mapM_told {α β γ : Type} {write : α → Option β} {encode : β → Option Value}
    {read : List UInt8 → Option γ} {Told : γ → α → Prop} {list : List α} {image : List β}
    {values : List Value} {texts : List (List UInt8)}
    (hread : ∀ a ∈ list, ∀ b value text, write a = some b → encode b = some value →
      library.Tells text value → ∃ c, read text = some c ∧ Told c a)
    (himage : list.mapM write = some image) (hvalues : image.mapM encode = some values)
    (htold : List.Forall₂ library.Tells texts values) :
    ∃ wires, texts.mapM read = some wires ∧ List.Forall₂ Told wires list := by
  induction list generalizing image values texts with
  | nil =>
      cases himage
      cases hvalues
      cases htold
      exact ⟨[], rfl, .nil⟩
  | cons a rest ih =>
      rw [List.mapM_cons] at himage
      obtain ⟨b, hb, himage⟩ := Option.bind_eq_some_iff.mp himage
      obtain ⟨others, hothers, himage⟩ := Option.bind_eq_some_iff.mp himage
      cases himage
      rw [List.mapM_cons] at hvalues
      obtain ⟨value, hvalue, hvalues⟩ := Option.bind_eq_some_iff.mp hvalues
      obtain ⟨later, hlater, hvalues⟩ := Option.bind_eq_some_iff.mp hvalues
      cases hvalues
      cases htold with
      | cons hfirst hrest =>
          obtain ⟨c, hc, hsaid⟩ := hread a List.mem_cons_self b value _ hb hvalue hfirst
          obtain ⟨wires, hwires, hall⟩ :=
            ih (fun other hother => hread other (List.mem_cons_of_mem a hother))
              hothers hlater hrest
          exact ⟨c :: wires, by simp [hc, hwires], .cons hsaid hall⟩

/-- A written effect is read as its two texts. -/
theorem readEffect_told (hlibrary : library.Documented) {recorded : RecordedEffect}
    {wire : WireEffect Value} (hwire : wireEffect recorded = some wire)
    (hencode : WireEffect.codec.encode wire = some value) (htells : library.Tells text value) :
    ∃ texts, readEffect library text = some texts ∧ texts.Told library recorded := by
  obtain ⟨effect, heffect, hwire⟩ := Option.bind_eq_some_iff.mp hwire
  obtain ⟨operation, hoperation, hwire⟩ := Option.bind_eq_some_iff.mp hwire
  cases hwire
  cases hencode
  obtain ⟨texts, hfields, htold⟩ := @Library.Tells.fields library text hlibrary
    ["effect", "operation"] (by decide) [effect, operation] rfl htells
  obtain ⟨first, second, rfl, hfirst, hsecond⟩ := Serde.forall₂_two htold
  refine ⟨⟨first, second⟩, by rw [readEffect, hfields], ?_, ?_⟩
  · exact hfirst.read hlibrary ((Effect.codec_writes _ effect heffect).depth.trans (by decide))
      (Effect.codec_honest.decode_encode heffect)
  · exact hsecond.read hlibrary
      ((operationCodec_writes _ operation hoperation).depth.trans (by decide))
      (operationCodec_honest.decode_encode hoperation)

/-- A written replacement is read, its source and effects left as texts. -/
theorem readReplacement_told (hlibrary : library.Documented) {replacement : Replacement}
    {wire : WireReplacement Value} (hvalid : replacement.source.Valid)
    (hwire : wireReplacement replacement = some wire)
    (hencode : WireReplacement.codec.encode wire = some value) (htells : library.Tells text value) :
    value ≠ .null ∧
      ∃ texts, readReplacement library text = some texts ∧ texts.Told library replacement := by
  obtain ⟨source, hsource, hwire⟩ := Option.bind_eq_some_iff.mp hwire
  obtain ⟨effects, heffects, hwire⟩ := Option.bind_eq_some_iff.mp hwire
  cases hwire
  rw [WireReplacement.codec_encode] at hencode
  obtain ⟨mock, hmock, hencode⟩ := Option.bind_eq_some_iff.mp hencode
  obtain ⟨written, hwritten, rfl⟩ := Option.map_eq_some_iff.mp hencode
  obtain ⟨texts, hfields, htold⟩ := @Library.Tells.fields library text hlibrary
    ["mock", "source", "effects"] (by decide) [mock, source, .array written] rfl htells
  obtain ⟨first, second, third, rfl, hfirst, hsecond, hthird⟩ := Serde.forall₂_three htold
  obtain ⟨items, hitems, heach⟩ := hthird.items hlibrary
  obtain ⟨wires, hwires, hall⟩ := @mapM_told library _ _ _ _ _ _ (WireEffect.Told library) _ _ _ _
    (fun _ _ _ _ _ => readEffect_told hlibrary) heffects hwritten heach
  have hmockRead : library.read MockMode.codec first = some replacement.mock := by
    obtain ⟨held, hheld, hdecode⟩ := MockMode.codec.reads replacement.mock trivial
    cases hheld.symm.trans hmock
    exact hfirst.read hlibrary ((@named_writes _ _ _ _ 0 _ _ hmock).depth.trans (by decide)) hdecode
  have hsourceRead : library.read AttachmentSource.codec second = some replacement.source := by
    obtain ⟨held, hheld, hdecode⟩ := AttachmentSource.codec.reads _ hvalid
    cases hheld.symm.trans hsource
    exact hsecond.read hlibrary
      ((AttachmentSource.codec_writes _ source hsource).depth.trans (by decide)) hdecode
  refine ⟨nofun, ⟨replacement.mock, second, wires⟩, ?_, rfl, hsourceRead, hall⟩
  rw [readReplacement, hfields]
  simp [hmockRead, hitems, hwires]

/-- A written change is read. -/
theorem readChange_told (hlibrary : library.Documented) {cell : CellId} {change : Change}
    {wire : WireChange Value} (hobeys : change.Obeys cell) (hwire : wireChange change = some wire)
    (hencode : WireChange.codec.encode wire = some value) (htells : library.Tells text value) :
    ∃ texts, readChange library text = some texts ∧ texts.Told library change := by
  obtain ⟨plugin, replacement⟩ := change
  have hplugin : ∀ {name}, library.Tells name (.string plugin.name) →
      library.read PluginId.codec name = some plugin := fun hname =>
    hname.read hlibrary (Nat.zero_le _) rfl
  cases replacement with
  | none =>
      cases hwire
      cases hencode
      obtain ⟨texts, hfields, htold⟩ := @Library.Tells.fields library text hlibrary
        ["plugin", "replacement"] (by decide) [.string plugin.name, .null] rfl htells
      obtain ⟨first, second, rfl, hfirst, hsecond⟩ := Serde.forall₂_two htold
      refine ⟨⟨plugin, none⟩, ?_, rfl, .none⟩
      rw [readChange, hfields]
      simp only [hplugin hfirst, hsecond.null hlibrary]
      rfl
  | some replacement =>
      obtain ⟨written, hwritten, hwire⟩ := Option.bind_eq_some_iff.mp hwire
      cases hwire
      rw [WireChange.codec_encode_some] at hencode
      obtain ⟨held, hreplacement, rfl⟩ := Option.map_eq_some_iff.mp hencode
      obtain ⟨texts, hfields, htold⟩ := @Library.Tells.fields library text hlibrary
        ["plugin", "replacement"] (by decide) [.string plugin.name, held] rfl htells
      obtain ⟨first, second, rfl, hfirst, hsecond⟩ := Serde.forall₂_two htold
      obtain ⟨hsome, wire, hread, hsaid⟩ := readReplacement_told hlibrary
        (hobeys replacement rfl).source hwritten hreplacement hsecond
      have hdepth := (wireReplacement_plain hwritten hreplacement).depth
      have hheld := hsecond.nullable hlibrary (hdepth.trans (by decide)) hsome hread
      refine ⟨⟨plugin, some wire⟩, ?_, rfl, .some hsaid⟩
      rw [readChange, hfields]
      simp only [hplugin hfirst, hheld]
      rfl

/-- A written prepare is read. -/
theorem readPrepare_told (hlibrary : library.Documented) {cell : CellId} {prepare : Prepare}
    {wire : WirePrepare Value} (hobeys : prepare.Obeys cell)
    (hchanges : prepare.changes.mapM wireChange = some wire.changes)
    (hforce : wire.force.map (fun force => ForceAssertion.mk force.operator force.reason) =
      prepare.force)
    (hencode : WirePrepare.codec.encode wire = some value) (htells : library.Tells text value) :
    ∃ texts, readPrepare library text = some texts ∧ texts.Told library prepare := by
  rw [WirePrepare.codec_encode] at hencode
  obtain ⟨written, hwritten, hencode⟩ := Option.bind_eq_some_iff.mp hencode
  obtain ⟨force, hforceValue, rfl⟩ := Option.map_eq_some_iff.mp hencode
  obtain ⟨texts, hfields, htold⟩ := @Library.Tells.fields library text hlibrary
    ["changes", "force"] (by decide) [.array written, force] rfl htells
  obtain ⟨first, second, rfl, hfirst, hsecond⟩ := Serde.forall₂_two htold
  obtain ⟨items, hitems, heach⟩ := hfirst.items hlibrary
  obtain ⟨wires, hwires, hall⟩ := @mapM_told library _ _ _ _ _ _ (WireChange.Told library) _ _ _ _
    (fun change hchange _ _ _ => readChange_told hlibrary (hobeys.changes change hchange)) hchanges
    hwritten heach
  have hforceRead : library.read forceCodec second = some wire.force := by
    obtain ⟨held, hheld, hdecode⟩ :=
      forceCodec.reads wire.force fun _ _ => ⟨trivial, trivial, trivial⟩
    cases hheld.symm.trans hforceValue
    exact hsecond.read hlibrary ((Codec.writes_nullable WireForce.codec_writes wire.force force
      hforceValue).depth.trans (by decide)) hdecode
  refine ⟨⟨wires, wire.force⟩, ?_, hall, hforce⟩
  rw [readPrepare, hfields]
  simp [hitems, hwires, hforceRead]

/-- A written event is read. -/
theorem readEvent_told (hlibrary : library.Documented) {cell : CellId} {event : JournalEvent}
    {wire : WireEvent Value} (hobeys : ∀ prepare, event = .prepare prepare → prepare.Obeys cell)
    (hwire : wireEvent event = some wire) (hencode : WireEvent.codec.encode wire = some value)
    (htells : library.Tells text value) :
    ∃ texts, readEvent library text = some texts ∧ texts.Told library event := by
  obtain ⟨codec, hcodec, hencode⟩ := Option.bind_eq_some_iff.mp hencode
  obtain ⟨inner, hinner, hencode⟩ := Option.bind_eq_some_iff.mp hencode
  cases hencode
  obtain ⟨content, hvariant, hcontent⟩ := htells.variant hlibrary
  have hempty : inner = .object [] → library.fields [] content = some [] := by
    rintro rfl
    obtain ⟨texts, hfields, htold⟩ :=
      @Library.Tells.fields library content hlibrary [] List.nodup_nil [] rfl hcontent
    cases htold
    exact hfields
  cases event with
  | prepare prepare =>
      obtain ⟨changes, hchanges, hwire⟩ := Option.bind_eq_some_iff.mp hwire
      cases hwire
      cases hcodec
      obtain ⟨wire, hread, hsaid⟩ := @readPrepare_told library content inner hlibrary cell prepare
        ⟨changes, _⟩ (hobeys prepare rfl) hchanges (by cases prepare.force <;> rfl) hinner hcontent
      refine ⟨.prepare wire, ?_, .prepare hsaid⟩
      simp [readEvent, hvariant, WireEvent.tag, hread]
  | commit =>
      cases hwire
      cases hcodec
      cases hinner
      refine ⟨.commit, ?_, .commit⟩
      simp [readEvent, hvariant, WireEvent.tag, hempty rfl]
  | abort =>
      cases hwire
      cases hcodec
      cases hinner
      refine ⟨.abort, ?_, .abort⟩
      simp [readEvent, hvariant, WireEvent.tag, hempty rfl]
  | finish =>
      cases hwire
      cases hcodec
      cases hinner
      refine ⟨.finish, ?_, .finish⟩
      simp [readEvent, hvariant, WireEvent.tag, hempty rfl]

theorem read_u64 (hlibrary : library.Documented) {number : UInt64}
    (htells : library.Tells text (.ofU64 number)) : library.read .u64 text = some number :=
  htells.read hlibrary (Nat.zero_le _) rfl

/-- The probe of a written line finds the format it has. -/
theorem checkFormat_told (hlibrary : library.Documented) {generation event : Value}
    (htells : library.Tells text (.object [("format", .ofU64 cellJournalFormat),
      ("generation", generation), ("event", event)])) : checkFormat library text = .ok () := by
  obtain ⟨parts, hparts, htold⟩ := htells.members hlibrary
  obtain ⟨⟨_, format⟩, ⟨_, second⟩, ⟨_, third⟩, rfl, ⟨rfl, hformat⟩, ⟨rfl, -⟩, ⟨rfl, -⟩⟩ :=
    Serde.forall₂_three htold
  have htree := hformat.tree hlibrary (Nat.zero_le _)
  have hfromStr : library.fromStr format = some (.ofU64 cellJournalFormat) := by
    rw [Library.fromStr, Library.fromStrWithin]
    simp only [htree]
    rfl
  have hprobe : probeFormat library text = some (some (.ofU64 cellJournalFormat)) := by
    simp only [probeFormat, hparts]
    simp [htree, hfromStr, Value.ofU64, Value.depth, Serde.maxDepth]
  rw [checkFormat, hprobe]
  rfl

/-- A written record passes the probe and is read. -/
theorem readRecord_told (hlibrary : library.Documented) {cell : CellId}
    {record : CellJournalRecord} (hobeys : record.Obeys cell)
    (hencode : encodeValue record = some value) (htells : library.Tells text value) :
    checkFormat library text = .ok () ∧
      ∃ wire, readRecord library text = some ⟨cellJournalFormat, record.generation, wire⟩ ∧
        wire.Told library record.event := by
  obtain ⟨wire, event, hwire, hevent, -, rfl⟩ := encodeValue_eq_some hencode
  refine ⟨checkFormat_told hlibrary htells, ?_⟩
  obtain ⟨texts, hfields, htold⟩ := @Library.Tells.fields library text hlibrary
    ["format", "generation", "event"] (by decide) [_, _, event] rfl htells
  obtain ⟨first, second, third, rfl, hfirst, hsecond, hthird⟩ := Serde.forall₂_three htold
  obtain ⟨said, hread, hsaid⟩ := readEvent_told hlibrary hobeys.prepare hwire hevent hthird
  refine ⟨said, ?_, hsaid⟩
  rw [readRecord, hfields]
  simp only [read_u64 hlibrary hfirst, read_u64 hlibrary hsecond, hread]
  rfl

end Layers

/-! ## What is told reads back -/

section RoundTrip

variable {explain : Refused → String} {library : Library}

/-- The texts of an effect are read as it. -/
theorem effectFrom_told {owner : CellOwner} {recorded : RecordedEffect}
    {wire : WireEffect (List UInt8)} (hobeys : recorded.Obeys owner)
    (htold : wire.Told library recorded) :
    effectFrom explain library owner wire = .ok recorded := by
  rw [effectFrom, htold.effect, htold.operation]
  exact check_bind_eq_ok.mpr ⟨hobeys, rfl⟩

/-- A list read back item by item. -/
theorem mapM_back {α β ε : Type} {Told : β → α → Prop} {read : β → Except ε α} {list : List α}
    {image : List β} (hback : ∀ a ∈ list, ∀ b, Told b a → read b = .ok a)
    (htold : List.Forall₂ Told image list) : image.mapM read = .ok list := by
  induction htold with
  | nil => rfl
  | @cons b a image list hfirst _ ih =>
      have hrest := ih fun other hother => hback other (List.mem_cons_of_mem a hother)
      rw [List.mapM_cons, hback a List.mem_cons_self b hfirst, hrest]
      rfl

/-- The texts of a replacement are read as it. -/
theorem replacementFrom_told {owner : CellOwner} {replacement : Replacement}
    {wire : WireReplacement (List UInt8)} (hobeys : replacement.Obeys owner)
    (htold : wire.Told library replacement) :
    replacementFrom explain library owner wire = .ok replacement := by
  have hback : wire.effects.mapM (effectFrom explain library owner) = .ok replacement.effects :=
    mapM_back (fun recorded hrecorded _ => effectFrom_told (hobeys.effects recorded hrecorded))
      htold.effects
  rw [replacementFrom, htold.source]
  refine check_bind_eq_ok.mpr ⟨hobeys.member, ?_⟩
  rw [hback, htold.mock]
  rfl

/-- The texts of a change are read as it. -/
theorem changeFrom_told {cell : CellId} {change : Change} {wire : WireChange (List UInt8)}
    (hobeys : change.Obeys cell) (htold : wire.Told library change) :
    changeFrom explain library cell wire = .ok change := by
  obtain ⟨plugin, replacement⟩ := change
  obtain ⟨name, held⟩ := wire
  obtain ⟨rfl, hreplacement⟩ := htold
  cases hreplacement with
  | none => rfl
  | @some read replacement hsaid =>
      have hread : replacementFrom explain library ⟨cell, name⟩ read = .ok replacement :=
        replacementFrom_told (hobeys replacement rfl) hsaid
      rw [changeFrom]
      simp only [hread]
      rfl

theorem repeatedPlugin_eq_none {seen plugins : List PluginId} (hnodup : plugins.Nodup)
    (hfresh : ∀ plugin ∈ plugins, plugin ∉ seen) : repeatedPlugin seen plugins = none := by
  induction plugins generalizing seen with
  | nil => rfl
  | cons plugin rest ih =>
      obtain ⟨hplugin, hrest⟩ := List.nodup_cons.mp hnodup
      obtain ⟨hunseen, hothers⟩ := List.forall_mem_cons.mp hfresh
      rw [repeatedPlugin, if_neg (by simpa using hunseen)]
      refine ih hrest fun other hother hmem => ?_
      rcases List.mem_cons.mp hmem with rfl | hmem
      · exact hplugin hother
      · exact hothers other hother hmem

/-- What a prepare is read as, when nothing in it is refused. -/
theorem prepareFrom_eq_ok {cell : CellId} {wire : WirePrepare (List UInt8)}
    {prepare : Prepare}
    (hchanges : wire.changes.mapM (changeFrom explain library cell) = .ok prepare.changes)
    (hforce : wire.force.map (fun force => ForceAssertion.mk force.operator force.reason) =
      prepare.force)
    (hblank : wire.force.any WireForce.blank = false) :
    prepareFrom explain library cell wire = .ok prepare := by
  have hplugins := plugins_of_changesFrom explain library hchanges
  have hempty : wire.changes ≠ [] := by
    intro hempty
    rw [hempty] at hplugins
    exact prepare.nonempty (List.map_eq_nil_iff.mp hplugins)
  have hrepeated : repeatedPlugin [] (wire.changes.map WireChange.plugin) = none :=
    repeatedPlugin_eq_none (hplugins ▸ prepare.distinct) (by simp)
  unfold prepareFrom
  rw [dif_neg hempty]
  split
  next plugin hsome =>
    rw [hrepeated] at hsome
    cases hsome
  next =>
    rw [if_neg (by simp [hblank])]
    split
    next error herror =>
      rw [hchanges] at herror
      cases herror
    next changes hread =>
      cases hread.symm.trans hchanges
      cases prepare
      cases hforce
      rfl

/-- The texts of an event are read as it. -/
theorem eventFrom_told {cell : CellId} {event : JournalEvent} {wire : WireEvent (List UInt8)}
    (hobeys : ∀ prepare, event = .prepare prepare → prepare.Obeys cell)
    (htold : wire.Told library event) : eventFrom explain library cell wire = .ok event := by
  cases htold with
  | @prepare wire prepare hsaid =>
      have hprepare := hobeys prepare rfl
      have hback : wire.changes.mapM (changeFrom explain library cell) = .ok prepare.changes :=
        mapM_back (fun change hchange _ => changeFrom_told (hprepare.changes change hchange))
          hsaid.changes
      have hblank : wire.force.any WireForce.blank = false := by
        cases hforce : wire.force with
        | none => rfl
        | some force =>
            have hheld := hsaid.force
            rw [hforce] at hheld
            obtain ⟨hoperator, hreason⟩ := hprepare.force _ hheld.symm
            simp [WireForce.blank, hoperator, hreason]
      rw [eventFrom, prepareFrom_eq_ok hback hsaid.force hblank]
      rfl
  | commit => rfl
  | abort => rfl
  | finish => rfl

/-- A written record reads back. -/
theorem parseRecord_write (hlibrary : library.Documented) {cell : CellId}
    {record : CellJournalRecord} {value : Value} (hobeys : record.Obeys cell)
    (hencode : encodeValue record = some value) :
    parseRecord explain library cell (library.write value) = .ok record := by
  have hplain := encodeValue_plain hencode
  have htells := hlibrary.tells_write hplain.valid
  rw [hplain.exact library] at htells
  obtain ⟨hformat, wire, hread, hsaid⟩ := readRecord_told hlibrary hobeys hencode htells
  have hevent := @eventFrom_told explain library cell _ _ hobeys.prepare hsaid
  have hrecord : recordFrom explain library cell (library.write value) = .ok record := by
    rw [recordFrom, hformat, hread]
    change (if record.generation = 0 then _ else _) = _
    rw [if_neg hobeys.generation, hevent]
    rfl
  unfold parseRecord
  rw [Library.write, Utf8.decode_encode]
  exact hrecord

end RoundTrip

/-! ## What is read keeps the rules -/

section Accepted

variable {explain : Refused → String} {library : Library}

/-- The effect and the operation are ones that can be written. -/
def RecordedEffect.Writable (recorded : RecordedEffect) : Prop :=
  Effect.codec.Valid recorded.effect ∧ operationCodec.Valid recorded.operation

def Change.Writable (change : Change) : Prop :=
  ∀ recorded ∈ change.effects, recorded.Writable

theorem decoded_eq_ok {α : Type} {kind : CellJournalFaultKind} {refused : Refused} {item : Option α}
    {a : α} (hdecoded : decoded explain kind refused item = .ok a) : item = some a := by
  unfold decoded at hdecoded
  split at hdecoded
  · cases hdecoded
    rfl
  · cases hdecoded

/-- An effect that was read agrees with its operation. -/
theorem effectFrom_eq_ok {owner : CellOwner} {wire : WireEffect (List UInt8)}
    {recorded : RecordedEffect} (hread : effectFrom explain library owner wire = .ok recorded) :
    recorded.Obeys owner ∧ recorded.Writable := by
  obtain ⟨effect, heffect, hread⟩ := bind_eq_ok.mp hread
  obtain ⟨operation, hoperation, hread⟩ := bind_eq_ok.mp hread
  obtain ⟨hvalidate, hread⟩ := check_bind_eq_ok.mp hread
  cases hread
  obtain ⟨_, heffect⟩ := Library.exists_of_read (decoded_eq_ok heffect)
  obtain ⟨_, hoperation⟩ := Library.exists_of_read (decoded_eq_ok hoperation)
  exact ⟨hvalidate, Effect.codec_sound _ effect heffect,
    operationCodec_sound _ operation hoperation⟩

theorem mem_of_mapM_eq_ok {α β ε : Type} {read : α → Except ε β} {list : List α} {image : List β}
    (himage : list.mapM read = .ok image) {b : β}
    (hb : b ∈ image) : ∃ a ∈ list, read a = .ok b := by
  induction list generalizing image with
  | nil =>
      cases himage
      cases hb
  | cons a rest ih =>
      rw [List.mapM_cons] at himage
      obtain ⟨first, hfirst, himage⟩ := bind_eq_ok.mp himage
      obtain ⟨others, hothers, himage⟩ := bind_eq_ok.mp himage
      cases himage
      rcases List.mem_cons.mp hb with rfl | hb
      · exact ⟨a, List.mem_cons_self, hfirst⟩
      · obtain ⟨other, hother, heq⟩ := ih hothers hb
        exact ⟨other, List.mem_cons_of_mem a hother, heq⟩

/-- A replacement that was read obeys the rules of its owner. -/
theorem replacementFrom_eq_ok {owner : CellOwner} {wire : WireReplacement (List UInt8)}
    {replacement : Replacement}
    (hread : replacementFrom explain library owner wire = .ok replacement) :
    replacement.Obeys owner ∧ ∀ recorded ∈ replacement.effects, recorded.Writable := by
  obtain ⟨source, hsource, hread⟩ := bind_eq_ok.mp hread
  obtain ⟨hmember, hread⟩ := check_bind_eq_ok.mp hread
  obtain ⟨effects, heffects, hread⟩ := bind_eq_ok.mp hread
  cases hread
  have heach : ∀ recorded ∈ effects, recorded.Obeys owner ∧ recorded.Writable := by
    intro recorded hrecorded
    obtain ⟨wire, -, hwire⟩ := mem_of_mapM_eq_ok heffects hrecorded
    exact effectFrom_eq_ok hwire
  refine ⟨⟨?_, hmember, fun recorded hrecorded => (heach recorded hrecorded).1⟩,
    fun recorded hrecorded => (heach recorded hrecorded).2⟩
  obtain ⟨_, hsource⟩ := Library.exists_of_read (decoded_eq_ok hsource)
  exact AttachmentSource.codec_sound _ source hsource

/-- A change that was read obeys the rules of its cell. -/
theorem changeFrom_eq_ok {cell : CellId} {wire : WireChange (List UInt8)} {change : Change}
    (hread : changeFrom explain library cell wire = .ok change) :
    change.Obeys cell ∧ change.Writable := by
  unfold changeFrom at hread
  split at hread
  · cases hread
    exact ⟨by rintro _ ⟨⟩, by simp [Change.Writable, Change.effects]⟩
  · obtain ⟨replacement, hreplacement, hread⟩ := bind_eq_ok.mp hread
    cases hread
    obtain ⟨hobeys, hwritable⟩ := replacementFrom_eq_ok hreplacement
    refine ⟨?_, by simpa [Change.Writable, Change.effects] using hwritable⟩
    rintro _ ⟨⟩
    exact hobeys

/-- A prepare that was read obeys the rules of its cell. -/
theorem prepareFrom_obeys {cell : CellId} {wire : WirePrepare (List UInt8)} {prepare : Prepare}
    (hread : prepareFrom explain library cell wire = .ok prepare) :
    prepare.Obeys cell ∧ ∀ change ∈ prepare.changes, change.Writable := by
  unfold prepareFrom at hread
  split at hread
  · cases hread
  · split at hread
    · cases hread
    · split at hread
      · cases hread
      next hblank =>
        split at hread
        · cases hread
        next changes hchanges =>
          cases hread
          have heach : ∀ change ∈ changes, change.Obeys cell ∧ change.Writable := by
            intro change hchange
            obtain ⟨wire, -, hwire⟩ := mem_of_mapM_eq_ok hchanges hchange
            exact changeFrom_eq_ok hwire
          refine ⟨⟨fun change hchange => (heach change hchange).1, ?_⟩,
            fun change hchange => (heach change hchange).2⟩
          intro force hforce
          obtain ⟨wire, hwire, rfl⟩ := Option.map_eq_some_iff.mp hforce
          simpa [hwire, WireForce.blank] using hblank

/-- A record that was read obeys the rules of its cell. -/
theorem recordFrom_obeys {cell : CellId} {line : List UInt8} {record : CellJournalRecord}
    (hread : recordFrom explain library cell line = .ok record) :
    record.Obeys cell ∧ ∀ prepare, record.event = .prepare prepare →
      ∀ change ∈ prepare.changes, change.Writable := by
  obtain ⟨-, hread⟩ := check_bind_eq_ok.mp hread
  obtain ⟨wire, -, hread⟩ := bind_eq_ok.mp hread
  split at hread
  · cases hread
  next hgeneration =>
    obtain ⟨event, hevent, hread⟩ := bind_eq_ok.mp hread
    cases hread
    have hprepare : ∀ prepare, event = .prepare prepare →
        prepare.Obeys cell ∧ ∀ change ∈ prepare.changes, change.Writable := by
      rintro prepare rfl
      cases hwire : wire.event with
      | prepare held =>
          rw [hwire, eventFrom] at hevent
          cases hheld : prepareFrom explain library cell held with
          | error _ =>
              rw [hheld] at hevent
              cases hevent
          | ok read =>
              rw [hheld] at hevent
              cases hevent
              exact prepareFrom_obeys hheld
      | commit =>
          rw [hwire] at hevent
          cases hevent
      | abort =>
          rw [hwire] at hevent
          cases hevent
      | finish =>
          rw [hwire] at hevent
          cases hevent
    exact ⟨⟨hgeneration, fun prepare hevent => (hprepare prepare hevent).1⟩,
      fun prepare hevent => (hprepare prepare hevent).2⟩

/-! ## What keeps the rules is written -/

theorem RecordedEffect.Writable.wireEffect {recorded : RecordedEffect}
    (hwritable : recorded.Writable) :
    ∃ wire, wireEffect recorded = some wire := by
  obtain ⟨effect, heffect, -⟩ := Effect.codec.reads _ hwritable.1
  obtain ⟨operation, hoperation, -⟩ := operationCodec.reads _ hwritable.2
  exact ⟨⟨effect, operation⟩, by rw [Journal.wireEffect, heffect, hoperation]; rfl⟩

theorem Change.Writable.wireChange {cell : CellId} {change : Change} (hobeys : change.Obeys cell)
    (hwritable : change.Writable) : ∃ wire, wireChange change = some wire := by
  obtain ⟨plugin, replacement⟩ := change
  cases replacement with
  | none => exact ⟨_, rfl⟩
  | some replacement =>
      obtain ⟨source, hsource, -⟩ := AttachmentSource.codec.reads _ (hobeys replacement rfl).source
      obtain ⟨effects, heffects⟩ := @Codec.mapM_isSome _ _ Journal.wireEffect replacement.effects
        fun recorded hrecorded => (hwritable recorded (by
          simpa [Change.effects] using hrecorded)).wireEffect
      refine ⟨⟨plugin, some ⟨replacement.mock, source, effects⟩⟩, ?_⟩
      rw [Journal.wireChange]
      simp only [wireReplacement, hsource, heffects]
      rfl

/-- A record that obeys its rules, of values that can be written, is written. -/
theorem encodeRecord_isSome {cell : CellId} {record : CellJournalRecord}
    (hobeys : record.Obeys cell) (hwritable : ∀ prepare, record.event = .prepare prepare →
      ∀ change ∈ prepare.changes, change.Writable) :
    ∃ bytes, encodeRecord library record = some bytes := by
  have hevent : ∃ wire, wireEvent record.event = some wire := by
    cases hevent : record.event with
    | prepare prepare =>
        obtain ⟨changes, hchanges⟩ := @Codec.mapM_isSome _ _ wireChange prepare.changes
          fun change hchange => Change.Writable.wireChange
            ((hobeys.prepare prepare hevent).changes change hchange)
            (hwritable prepare hevent change hchange)
        exact ⟨_, by rw [wireEvent, hchanges]; rfl⟩
    | commit => exact ⟨_, rfl⟩
    | abort => exact ⟨_, rfl⟩
    | finish => exact ⟨_, rfl⟩
  obtain ⟨wire, hwire⟩ := hevent
  obtain ⟨value, hvalue, -⟩ := WireRecord.codec.reads _
    (WireRecord.codec_valid ⟨cellJournalFormat, record.generation, wire⟩)
  have hencode : encodeValue record = some value := by
    rw [encodeValue, hwire]
    exact hvalue
  exact ⟨_, by rw [encodeRecord, hencode]; rfl⟩

end Accepted

/-- A record that keeps the rules of its cell is written, if at all, as one line that reads back
as it. Every line that is read gives a record that keeps them, and that record is written. -/
theorem record_round_trips {library : Library} (hlibrary : library.Documented)
    (explain : Refused → String) (cell : CellId) :
    (∀ record bytes, record.Obeys cell → encodeRecord library record = some bytes →
      ∃ line, bytes = line ++ [Serde.newline] ∧ Serde.newline ∉ line ∧
        parseRecord explain library cell line = .ok record) ∧
    ∀ line record, parseRecord explain library cell line = .ok record →
      record.Obeys cell ∧ ∃ bytes, encodeRecord library record = some bytes := by
  constructor
  · intro record bytes hobeys hencode
    obtain ⟨value, hvalue, rfl⟩ := Option.map_eq_some_iff.mp hencode
    exact ⟨library.write value, rfl, Serde.newline_not_mem_write value,
      parseRecord_write hlibrary hobeys hvalue⟩
  · intro line record hread
    unfold parseRecord at hread
    split at hread
    · cases hread
    · obtain ⟨hobeys, hwritable⟩ := recordFrom_obeys hread
      exact ⟨hobeys, encodeRecord_isSome hobeys hwritable⟩

/-- A plugin's first attachment, with an effect outside the boundary and forced by an operator. -/
def firstAttachment : CellJournalRecord where
  generation := 1
  event := .prepare
    { changes := [⟨⟨"plugin"⟩, some ⟨.simulate, .local, [⟨.external "told", none⟩]⟩⟩]
      force := some ⟨"operator", "seen by hand"⟩
      nonempty := List.cons_ne_nil _ _
      distinct := List.nodup_singleton _ }

theorem firstAttachment_obeys : firstAttachment.Obeys ⟨"cell"⟩ := by
  refine ⟨by decide, ?_⟩
  rintro prepare ⟨⟩
  refine ⟨List.forall_mem_singleton.mpr ?_, ?_⟩
  · rintro replacement ⟨⟩
    exact ⟨trivial, rfl, List.forall_mem_singleton.mpr rfl⟩
  · rintro force ⟨⟩
    exact ⟨by decide, by decide⟩

theorem firstAttachment_writes : ∃ bytes,
    encodeRecord Serde.scanned firstAttachment = some bytes := ⟨_, rfl⟩

theorem attachment_round_trips : ∃ line,
    encodeRecord Serde.scanned firstAttachment = some (line ++ [Serde.newline]) ∧
      parseRecord (fun _ => "") Serde.scanned ⟨"cell"⟩ line = .ok firstAttachment := by
  obtain ⟨bytes, hbytes⟩ := firstAttachment_writes
  obtain ⟨line, rfl, -, hread⟩ := (record_round_trips Serde.scanned_documented (fun _ => "")
    ⟨"cell"⟩).1 _ bytes firstAttachment_obeys hbytes
  exact ⟨line, hbytes, hread⟩

end Plasmosome.Journal
