import Plasmosome.Backend.Text
import Plasmosome.Foundation.Checks
import Plasmosome.Journal.Source
import Plasmosome.Membrane.Readiness
import Plasmosome.Reversal.Codec
import Plasmosome.Serde.Deferred
import Plasmosome.Serde.Held

/-!
# Lines of a journal

A line is one object. It is read in two steps: first as its wire form, in which the
sources, the effects and the operations are still texts, and then, each of these by
itself, against the cell whose journal it stands in.
-/

namespace Plasmosome.Journal

open Foundation Backend Reversal
open Serde (Codec Fields Library Value)

/-- The only format of a journal. -/
def cellJournalFormat : UInt64 := 1

/-! ## The wire form -/

structure WireEffect (Raw : Type) where
  effect : Raw
  operation : Raw

structure WireReplacement (Raw : Type) where
  mock : MockMode
  source : Raw
  effects : List (WireEffect Raw)

structure WireChange (Raw : Type) where
  plugin : PluginId
  replacement : Option (WireReplacement Raw)

structure WireForce where
  operator : String
  reason : String

structure WirePrepare (Raw : Type) where
  changes : List (WireChange Raw)
  force : Option WireForce

inductive WireEvent (Raw : Type) where
  | prepare (prepare : WirePrepare Raw)
  | commit
  | abort
  | finish

structure WireRecord (Raw : Type) where
  format : UInt64
  generation : UInt64
  event : WireEvent Raw

/-- A value that is written as it is. -/
def rawCodec : Codec Value where
  encode := some
  decode := some
  Valid := fun _ => True
  reads := fun value _ => ⟨value, rfl, rfl⟩

def MockMode.codec : Codec MockMode :=
  Backend.named
    (fun
      | .simulate => "simulate"
      | .capture => "capture"
      | .passthrough => "passthrough")
    (fun
      | "simulate" => some .simulate
      | "capture" => some .capture
      | "passthrough" => some .passthrough
      | _ => none)
    (by rintro ⟨⟩ <;> rfl)

def WireEffect.codec : Codec (WireEffect Value) :=
  .through (.object (.field "effect" rawCodec (.field "operation" rawCodec .nil)) (by decide))
    (fun recorded => (recorded.effect, recorded.operation, ()))
    (fun (effect, operation, _) => ⟨effect, operation⟩) fun _ => rfl

def WireReplacement.codec : Codec (WireReplacement Value) :=
  .through
    (.object (.field "mock" MockMode.codec (.field "source" rawCodec
      (.field "effects" (.list WireEffect.codec) .nil))) (by decide))
    (fun replacement => (replacement.mock, replacement.source, replacement.effects, ()))
    (fun (mock, source, effects, _) => ⟨mock, source, effects⟩) fun _ => rfl

def WireChange.codec : Codec (WireChange Value) :=
  .through
    (.object (.field "plugin" PluginId.codec
      (.field "replacement" (.nullable WireReplacement.codec rfl) .nil)) (by decide))
    (fun change => (change.plugin, change.replacement, ()))
    (fun (plugin, replacement, _) => ⟨plugin, replacement⟩) fun _ => rfl

def WireForce.codec : Codec WireForce :=
  .through (.object (.field "operator" .string (.field "reason" .string .nil)) (by decide))
    (fun force => (force.operator, force.reason, ()))
    (fun (operator, reason, _) => ⟨operator, reason⟩)
    fun _ => rfl

def WirePrepare.codec : Codec (WirePrepare Value) :=
  .through
    (.object (.field "changes" (.list WireChange.codec)
      (.field "force" (.nullable WireForce.codec rfl) .nil)) (by decide))
    (fun prepare => (prepare.changes, prepare.force, ()))
    (fun (changes, force, _) => ⟨changes, force⟩)
    fun _ => rfl

namespace WireEvent

def tag {Raw : Type} : WireEvent Raw → String
  | .prepare _ => "prepare"
  | .commit => "commit"
  | .abort => "abort"
  | .finish => "finish"

/-- An event that holds nothing is written as an object of no members. -/
def empty : Codec Unit := .object .nil List.nodup_nil

def content : String → Option (Codec (WireEvent Value))
  | "prepare" => some <| .case WirePrepare.codec
      (fun
        | .prepare wire => some wire
        | _ => none)
      .prepare (by rintro ⟨⟩ _ ⟨⟩; rfl)
  | "commit" => some <| .case empty
      (fun
        | .commit => some ()
        | _ => none)
      (fun _ => .commit) (by rintro ⟨⟩ _ ⟨⟩; rfl)
  | "abort" => some <| .case empty
      (fun
        | .abort => some ()
        | _ => none)
      (fun _ => .abort) (by rintro ⟨⟩ _ ⟨⟩; rfl)
  | "finish" => some <| .case empty
      (fun
        | .finish => some ()
        | _ => none)
      (fun _ => .finish) (by rintro ⟨⟩ _ ⟨⟩; rfl)
  | _ => none

def codec : Codec (WireEvent Value) := .variants tag content (by rintro ⟨⟩ <;> exact ⟨_, rfl⟩)

end WireEvent

def WireRecord.codec : Codec (WireRecord Value) :=
  .through
    (.object (.field "format" .u64 (.field "generation" .u64 (.field "event" WireEvent.codec .nil)))
      (by decide))
    (fun record => (record.format, record.generation, record.event, ()))
    (fun (format, generation, event, _) => ⟨format, generation, event⟩) fun _ => rfl

/-! ## Writing -/

def operationCodec : Codec (Option UniverseOp) := .nullable UniverseOp.codec rfl

def wireEffect (recorded : RecordedEffect) : Option (WireEffect Value) := do
  let effect ← Effect.codec.encode recorded.effect
  let operation ← operationCodec.encode recorded.operation
  some ⟨effect, operation⟩

def wireReplacement (replacement : Replacement) : Option (WireReplacement Value) := do
  let source ← AttachmentSource.codec.encode replacement.source
  let effects ← replacement.effects.mapM wireEffect
  some ⟨replacement.mock, source, effects⟩

def wireChange (change : Change) : Option (WireChange Value) :=
  match change.replacement with
  | none => some ⟨change.plugin, none⟩
  | some replacement => do
      let replacement ← wireReplacement replacement
      some ⟨change.plugin, some replacement⟩

def wireEvent : JournalEvent → Option (WireEvent Value)
  | .prepare prepare => do
      let changes ← prepare.changes.mapM wireChange
      some (.prepare ⟨changes, prepare.force.map fun force => ⟨force.operator, force.reason⟩⟩)
  | .commit => some .commit
  | .abort => some .abort
  | .finish => some .finish

/-- The value of a record, unless a value in it cannot be written. -/
def encodeValue (record : CellJournalRecord) : Option Value := do
  let event ← wireEvent record.event
  WireRecord.codec.encode ⟨cellJournalFormat, record.generation, event⟩

/-- The compact object and a final newline. -/
def encodeRecord (library : Library) (record : CellJournalRecord) : Option (List UInt8) :=
  (encodeValue record).map fun value => library.write value ++ [Serde.newline]

/-! ## Reading -/

/-- A line, or a text in it, that the library refuses. -/
inductive Refused where
  | notUtf8 (line : List UInt8)
  | record (line : List UInt8)
  | source (text : List UInt8)
  | effect (text : List UInt8)
  | operation (text : List UInt8)

/-! ### The wire form of a line -/

section Wire

variable (library : Library)

def readEffect (text : List UInt8) : Option (WireEffect (List UInt8)) :=
  match library.fields ["effect", "operation"] text with
  | some [effect, operation] => some ⟨effect, operation⟩
  | _ => none

def readReplacement (text : List UInt8) : Option (WireReplacement (List UInt8)) :=
  match library.fields ["mock", "source", "effects"] text with
  | some [mock, source, effects] => do
      let mock ← library.read MockMode.codec mock
      let items ← library.items effects
      let effects ← items.mapM (readEffect library)
      some ⟨mock, source, effects⟩
  | _ => none

def readChange (text : List UInt8) : Option (WireChange (List UInt8)) :=
  match library.fields ["plugin", "replacement"] text with
  | some [plugin, replacement] => do
      let plugin ← library.read PluginId.codec plugin
      let replacement ← library.nullable (readReplacement library) replacement
      some ⟨plugin, replacement⟩
  | _ => none

def forceCodec : Codec (Option WireForce) := .nullable WireForce.codec rfl

def readPrepare (text : List UInt8) : Option (WirePrepare (List UInt8)) :=
  match library.fields ["changes", "force"] text with
  | some [changes, force] => do
      let items ← library.items changes
      let changes ← items.mapM (readChange library)
      let force ← library.read forceCodec force
      some ⟨changes, force⟩
  | _ => none

def readEvent (text : List UInt8) : Option (WireEvent (List UInt8)) := do
  let (tag, inner) ← library.variant text
  match tag with
  | "prepare" => (readPrepare library inner).map .prepare
  | "commit" => (library.fields [] inner).map fun _ => .commit
  | "abort" => (library.fields [] inner).map fun _ => .abort
  | "finish" => (library.fields [] inner).map fun _ => .finish
  | _ => none

def readRecord (text : List UInt8) : Option (WireRecord (List UInt8)) :=
  match library.fields ["format", "generation", "event"] text with
  | some [format, generation, event] => do
      let format ← library.read .u64 format
      let generation ← library.read .u64 generation
      let event ← readEvent library event
      some ⟨format, generation, event⟩
  | _ => none

/-- The `format` a probe of the line finds, when the probe reads the line: every other member is
passed over unread. A `null` is no format. -/
def probeFormat (line : List UInt8) : Option (Option Value) :=
  match library.outline line with
  | some (.object members) =>
      match members.filter fun member => member.1 = "format" with
      | [] => some none
      | [(_, text)] =>
          match library.tree text with
          | .ok .null => some none
          -- the line's own object is one level of nesting
          | .ok tree =>
              if tree.depth < Serde.maxDepth then (library.fromStr text).map some else none
          | .error _ => none
      | _ => none
  | _ => none

end Wire

/-! ### The record -/

def unparseable (detail : String) : JournalRuleError := ⟨.unparseable, detail⟩

namespace RecordedEffect

/-- Checks that the operation agrees with the effect. -/
def validate (recorded : RecordedEffect) (owner : CellOwner) : Except JournalRuleError Unit :=
  match universeInverse recorded.effect, recorded.operation with
  | some removal, some operation =>
      if operation.removal ≠ removal then
        .error ⟨.invalidEffect, "operation " ++ operation.id.display ++
          " does not create inverse " ++ removal.id.display⟩
      else if operation.owner ≠ owner then
        .error ⟨.invalidEffect, "operation " ++ operation.id.display ++ " belongs to " ++
          operation.owner.display ++ ", not " ++ owner.display⟩
      else .ok ()
  | none, none => .ok ()
  | some removal, none =>
      .error ⟨.invalidEffect, "effect " ++ removal.id.display ++ " has no operation"⟩
  | none, some operation =>
      .error ⟨.invalidEffect, "operation " ++ operation.id.display ++
        " has no universe inverse to match"⟩

end RecordedEffect

/-- The first plugin that changes twice. -/
def repeatedPlugin (seen : List PluginId) : List PluginId → Option PluginId
  | [] => none
  | plugin :: rest =>
      if seen.contains plugin then some plugin else repeatedPlugin (plugin :: seen) rest

def isBlank (text : String) : Bool := Membrane.Probe.trim text.toList = []

def WireForce.blank (force : WireForce) : Bool := isBlank force.operator || isBlank force.reason

section Reading

variable (explain : Refused → String) (library : Library)

def decoded {α : Type} (kind : CellJournalFaultKind) (refused : Refused) (item : Option α) :
    Except JournalRuleError α :=
  match item with
  | some a => .ok a
  | none => .error ⟨kind, explain refused⟩

def effectFrom (owner : CellOwner) (wire : WireEffect (List UInt8)) :
    Except JournalRuleError RecordedEffect := do
  let effect ← decoded explain .invalidEffect (.effect wire.effect)
    (library.read Effect.codec wire.effect)
  let operation ← decoded explain .invalidEffect (.operation wire.operation)
    (library.read operationCodec wire.operation)
  let recorded : RecordedEffect := ⟨effect, operation⟩
  recorded.validate owner
  return recorded

def replacementFrom (owner : CellOwner) (wire : WireReplacement (List UInt8)) :
    Except JournalRuleError Replacement := do
  let source ← decoded explain .invalidSource (.source wire.source)
    (library.read AttachmentSource.codec wire.source)
  source.validateMember owner.plugin
  let effects ← wire.effects.mapM (effectFrom explain library owner)
  return ⟨wire.mock, source, effects⟩

def changeFrom (cell : CellId) (wire : WireChange (List UInt8)) :
    Except JournalRuleError Change :=
  match wire.replacement with
  | none => .ok ⟨wire.plugin, none⟩
  | some replacement => do
      let replacement ← replacementFrom explain library ⟨cell, wire.plugin⟩ replacement
      return ⟨wire.plugin, some replacement⟩

/-- The changes name the plugins of their wire forms. -/
theorem plugins_of_changesFrom {cell : CellId} {wires : List (WireChange (List UInt8))}
    {changes : List Change}
    (hchanges : wires.mapM (changeFrom explain library cell) = .ok changes) :
    changes.map Change.plugin = wires.map WireChange.plugin := by
  induction wires generalizing changes with
  | nil =>
      cases hchanges
      rfl
  | cons wire rest ih =>
      rw [List.mapM_cons] at hchanges
      obtain ⟨change, hchange, hchanges⟩ := bind_eq_ok.mp hchanges
      obtain ⟨others, hothers, hchanges⟩ := bind_eq_ok.mp hchanges
      cases hchanges
      rw [List.map_cons, List.map_cons, ih hothers]
      congr 1
      unfold changeFrom at hchange
      split at hchange
      · cases hchange
        rfl
      · obtain ⟨replacement, -, hchange⟩ := bind_eq_ok.mp hchange
        cases hchange
        rfl

theorem nodup_of_repeatedPlugin {seen plugins : List PluginId}
    (hrepeated : repeatedPlugin seen plugins = none) :
    plugins.Nodup ∧ ∀ plugin ∈ plugins, plugin ∉ seen := by
  induction plugins generalizing seen with
  | nil => simp
  | cons plugin rest ih =>
      rw [repeatedPlugin] at hrepeated
      split at hrepeated
      · cases hrepeated
      next hseen =>
        obtain ⟨hnodup, hfresh⟩ := ih hrepeated
        have hplugin : plugin ∉ rest := fun hmem => hfresh plugin hmem List.mem_cons_self
        refine ⟨List.nodup_cons.mpr ⟨hplugin, hnodup⟩, List.forall_mem_cons.mpr ⟨?_, ?_⟩⟩
        · simpa using hseen
        · exact fun other hother hmem => hfresh other hother (List.mem_cons_of_mem plugin hmem)

theorem changes_nonempty {cell : CellId} {wires : List (WireChange (List UInt8))}
    {changes : List Change} (hwires : wires ≠ [])
    (hchanges : wires.mapM (changeFrom explain library cell) = .ok changes) : changes ≠ [] := by
  rintro rfl
  exact hwires (List.map_eq_nil_iff.mp (plugins_of_changesFrom explain library hchanges).symm)

theorem changes_distinct {cell : CellId} {wires : List (WireChange (List UInt8))}
    {changes : List Change} (hrepeated : repeatedPlugin [] (wires.map WireChange.plugin) = none)
    (hchanges : wires.mapM (changeFrom explain library cell) = .ok changes) :
    (changes.map Change.plugin).Nodup := by
  rw [plugins_of_changesFrom explain library hchanges]
  exact (nodup_of_repeatedPlugin hrepeated).1

def prepareFrom (cell : CellId) (wire : WirePrepare (List UInt8)) :
    Except JournalRuleError Prepare :=
  if hempty : wire.changes = [] then .error (unparseable "a prepare has no changes")
  else
    match hrepeated : repeatedPlugin [] (wire.changes.map WireChange.plugin) with
    | some plugin =>
        .error (unparseable ("plugin " ++ debugString plugin.name ++ " changes twice"))
    | none =>
        if wire.force.any WireForce.blank then
          .error (unparseable "a force needs an operator and a reason")
        else
          match hchanges : wire.changes.mapM (changeFrom explain library cell) with
          | .error error => .error error
          | .ok changes =>
              .ok ⟨changes, wire.force.map fun force => ⟨force.operator, force.reason⟩,
                changes_nonempty explain library hempty hchanges,
                changes_distinct explain library hrepeated hchanges⟩

def eventFrom (cell : CellId) : WireEvent (List UInt8) → Except JournalRuleError JournalEvent
  | .prepare wire => (prepareFrom explain library cell wire).map .prepare
  | .commit => .ok .commit
  | .abort => .ok .abort
  | .finish => .ok .finish

/-- A format that the probe finds must be the integer 1. -/
def checkFormat (line : List UInt8) : Except JournalRuleError Unit :=
  match probeFormat library line with
  | none => .ok ()
  | some format =>
      if format.bind Value.asU64 = some cellJournalFormat then .ok ()
      else
        let found := (format.map fun value => value.text library.floatChars).getD "missing"
        .error ⟨.unsupportedFormat, "format " ++ found ++ " is not 1"⟩

def recordFrom (cell : CellId) (line : List UInt8) : Except JournalRuleError CellJournalRecord := do
  checkFormat library line
  let wire ← decoded explain .unparseable (.record line) (readRecord library line)
  if wire.generation = 0 then .error ⟨.generationZero, "generation 0 appears in no record"⟩
  else
    let event ← eventFrom explain library cell wire.event
    return ⟨wire.generation, event⟩

/-- Reads one line as a record of the cell's journal. -/
def parseRecord (cell : CellId) (line : List UInt8) : Except JournalRuleError CellJournalRecord :=
  match Utf8.decode line 0 with
  | .error _ => .error (unparseable (explain (.notUtf8 line)))
  | .ok _ => recordFrom explain library cell line

end Reading

end Plasmosome.Journal
