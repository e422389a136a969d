import Plasmosome.Reply.Brackets
import Plasmosome.Reversal.LogUtf8
import Plasmosome.Serde.Strict

/-!
# What a log keeps

However often appending to a log is cut short, the log reads as the records that were
written whole, in order and of one plugin. Once a record is torn, nothing more is written.
-/

namespace Plasmosome.Reversal

open Backend Foundation
open Foundation.Frames
open Serde (Codec Fields Library Value newline)

/-! ## Records -/

theorem LogRecord.codec_writes : LogRecord.codec.Writes 10 :=
  Codec.writes_checked <| Codec.writes_through <| Codec.writes_object <|
    Fields.writes_field Codec.writes_u8 <|
    Fields.writes_field PluginId.codec_writes <|
    Fields.writes_field Effect.codec_writes Fields.writes_nil

/-- A record is written in the only format, as an object of three members. -/
theorem LogRecord.encode_cases {record : LogRecord} {value : Value}
    (hencode : LogRecord.codec.encode record = some value) : record.format = logFormat ∧
      ∃ plugin effect, Effect.codec.encode record.effect = some effect ∧
        value = .object [("format", .ofU64 logFormat.toUInt64), ("plugin", plugin),
        ("effect", effect)] := by
  have hformat : record.format = logFormat := by
    simpa using Codec.check_of_encode hencode
  refine ⟨hformat, ?_⟩
  obtain ⟨format, plugin, effect⟩ := record
  obtain rfl : format = logFormat := hformat
  obtain ⟨values, hvalues, rfl⟩ := Option.map_eq_some_iff.mp hencode
  obtain ⟨afterFormat, hafterFormat, hvalues⟩ := Option.bind_eq_some_iff.mp hvalues
  obtain ⟨afterPlugin, hafterPlugin, hafterFormat⟩ := Option.bind_eq_some_iff.mp hafterFormat
  obtain ⟨effectValue, heffect, hafterPlugin⟩ := Option.bind_eq_some_iff.mp hafterPlugin
  cases hafterPlugin
  cases hafterFormat
  cases hvalues
  exact ⟨.string plugin.name, effectValue, heffect, rfl⟩

theorem LogRecord.codec_honest : LogRecord.codec.Honest := by
  intro record value hencode
  obtain ⟨hformat, _, effect, heffect, -⟩ := encode_cases hencode
  exact ⟨decide_eq_true hformat, trivial, trivial, Effect.codec_honest _ effect heffect, trivial⟩

/-- A line that holds the record of an effect. -/
def Line (library : Library) (plugin : PluginId) (line : List UInt8) (effect : Effect) : Prop :=
  ∃ value, LogRecord.codec.encode ⟨logFormat, plugin, effect⟩ = some value ∧
  line = library.write value

/-- The library says of a record's beginning that it ran out of bytes. -/
def TellsTorn (library : Library) (eof : List UInt8 → Bool) : Prop :=
  ∀ plugin line effect, Line library plugin line effect → ∀ cut, cut <+: line → cut ≠ line →
  eof cut = true

section Lines

variable {library : Library} {plugin : PluginId} {line : List UInt8} {effect : Effect}

theorem Line.free (hline : Line library plugin line effect) : newline ∉ line := by
  obtain ⟨value, -, rfl⟩ := hline
  exact Serde.newline_not_mem_write value

theorem Line.decode (hlibrary : library.Documented) (hline : Line library plugin line effect) :
    decodeRecord library line = .ok ⟨logFormat, plugin, effect⟩ := by
  obtain ⟨value, hencode, rfl⟩ := hline
  have hplain := LogRecord.codec_writes _ value hencode
  have htells := hlibrary.tells_write hplain.valid
  rw [hplain.exact library] at htells
  have hread := htells.read hlibrary (hplain.depth.trans (by decide))
    (LogRecord.codec_honest.decode_encode hencode)
  have hprobe : probeVersion library (library.write value) = some logFormat.toUInt64 := by
    obtain ⟨-, _, _, -, rfl⟩ := LogRecord.encode_cases hencode
    obtain ⟨parts, hparts, htold⟩ := htells.members hlibrary
    obtain ⟨⟨_, format⟩, ⟨_, second⟩, ⟨_, third⟩, rfl, ⟨rfl, hformat⟩, ⟨rfl, -⟩, ⟨rfl, -⟩⟩ :=
      Serde.forall₂_three htold
    have hnumber : library.read .u64 format = some logFormat.toUInt64 :=
      hformat.read hlibrary (Nat.zero_le _) rfl
    simp only [probeVersion, hparts]
    simpa using hnumber
  unfold decodeRecord
  rw [hprobe, hread]
  rfl

/-- The text of a line is an object's. -/
theorem Line.spells (hlibrary : library.Documented) (hline : Line library plugin line effect) :
    ∃ text members, line = Utf8.encode text ∧ Reply.Spells text (.value (.object members)) := by
  obtain ⟨value, hencode, rfl⟩ := hline
  have hplain := LogRecord.codec_writes _ value hencode
  obtain ⟨json, hspells, hmeans, -⟩ := Serde.spelled_write hlibrary hplain.valid
  rw [hplain.exact library] at hmeans
  obtain ⟨-, _, _, -, rfl⟩ := LogRecord.encode_cases hencode
  cases hmeans with
  | object hkeys hvalues => exact ⟨_, _, rfl, hspells⟩

theorem Line.ne_nil (hlibrary : library.Documented) (hline : Line library plugin line effect) :
    line ≠ [] := by
  obtain ⟨text, members, rfl, hspells⟩ := hline.spells hlibrary
  obtain ⟨inner, rfl, -⟩ := hspells.object_inner
  rw [← List.length_pos_iff, Utf8.length_encode, Utf8.size_cons]
  have hsize := ('\x7b' : Char).utf8Size_pos
  omega

/-- The beginning of a line is no document. -/
theorem Line.cut_tree (hlibrary : library.Documented) (hline : Line library plugin line effect)
    {cut : List UInt8} (hcut : cut <+: line) (hproper : cut ≠ line) :
    (library.tree cut).toOption = none := by
  obtain ⟨text, members, rfl, hspells⟩ := hline.spells hlibrary
  cases htree : library.tree cut with
  | error _ => rfl
  | ok value =>
      obtain ⟨short, json, rfl, hdocument, -⟩ := hlibrary.sound cut value htree
      refine absurd hdocument (hspells.not_document (Utf8.prefix_of_encode hcut) ?_ json)
      rintro rfl
      exact hproper rfl

theorem Line.cut_unread (hlibrary : library.Documented) (hline : Line library plugin line effect)
    {cut : List UInt8} (hcut : cut <+: line) (hproper : cut ≠ line) :
    decodeRecord library cut = .error .unread := by
  have hwhole : library.outline cut = none := by
    obtain ⟨text, members, rfl, hspells⟩ := hline.spells hlibrary
    exact hlibrary.cuts text members cut hspells hcut hproper
  unfold decodeRecord probeVersion Library.read
  rw [hwhole, hline.cut_tree hlibrary hcut hproper]
  rfl

theorem Line.valid_utf8 (hlibrary : library.Documented) (hline : Line library plugin line effect)
    (newlineEnded : Bool) : invalidUtf8 newlineEnded line = none := by
  obtain ⟨text, -, rfl, -⟩ := hline.spells hlibrary
  exact invalidUtf8_encode newlineEnded text

theorem Line.cut_utf8 (hlibrary : library.Documented) (hline : Line library plugin line effect)
    {cut : List UInt8} (hcut : cut <+: line) : invalidUtf8 false cut = none := by
  obtain ⟨text, -, rfl, -⟩ := hline.spells hlibrary
  exact invalidUtf8_cut hcut

end Lines

/-! ## Reading lines -/

/-- Whose effects a log holds, when it holds any. -/
def ownerOf (plugin : PluginId) (effects : List Effect) : Option PluginId :=
  if effects = [] then none else some plugin

theorem ownerOf_append (plugin : PluginId) (effects : List Effect) (effect : Effect) :
    ownerOf plugin (effects ++ [effect]) = some plugin := if_neg (by simp)

section Reading

variable {explain : Unusable → String} {library : Library} {eof : List UInt8 → Bool}
  {plugin : PluginId}

theorem readLines_record {index : Nat} {effects : List Effect} {framed line : List UInt8}
    {newlineEnded : Bool} {effect : Effect}
    (hended : decide (framed.getLast? = some newline) = newlineEnded)
    (hline : (if newlineEnded then framed.dropLast else framed) = line)
    (hutf8 : invalidUtf8 newlineEnded line = none)
    (hdecode : decodeRecord library line = .ok ⟨logFormat, plugin, effect⟩)
    (rest : List (List UInt8)) :
    readLines explain library eof index (ownerOf plugin effects) effects (framed :: rest) =
      readLines explain library eof (index + 1) (ownerOf plugin (effects ++ [effect]))
        (effects ++ [effect]) rest := by
  rw [readLines, ownerOf_append]
  simp only [hended, hline, hutf8, hdecode]
  unfold ownerOf
  split_ifs with hempty <;> simp

theorem readLines_lines (hlibrary : library.Documented) {lines : List (List UInt8)}
    {before effects : List Effect} (hlines : List.Forall₂ (Line library plugin) lines effects)
    (index : Nat) (rest : List (List UInt8)) :
    readLines explain library eof index (ownerOf plugin before) before
        (lines.map (· ++ [newline]) ++ rest) =
      readLines explain library eof (index + lines.length) (ownerOf plugin (before ++ effects))
        (before ++ effects) rest := by
  induction hlines generalizing before index with
  | nil => rw [List.map_nil, List.nil_append, List.append_nil, List.length_nil, Nat.add_zero]
  | @cons line effect lines effects hline hlines ih =>
      have hended : decide ((line ++ [newline]).getLast? = some newline) = true := by simp
      rw [List.map_cons, List.cons_append, readLines_record hended (if_pos rfl)
        (by rw [List.dropLast_concat]; exact hline.valid_utf8 hlibrary true)
        (by rw [List.dropLast_concat]; exact hline.decode hlibrary), ih, List.append_assoc,
        List.singleton_append, List.length_cons, Nat.add_assoc, Nat.add_comm 1]

theorem readLines_nil (index : Nat) (effects : List Effect) :
    readLines explain library eof index (ownerOf plugin effects) effects [] =
      .ok (ownerOf plugin effects, effects) := rfl

theorem last_of_free {bytes : List UInt8} (hfree : newline ∉ bytes) :
    decide (bytes.getLast? = some newline) = false := by
  rw [decide_eq_false_iff_not]
  exact fun hlast => hfree (List.mem_of_getLast? hlast)

/-- The beginning of a line at a log's end, and what is read of it. -/
theorem readLines_tail (hlibrary : library.Documented) (htorn : TellsTorn library eof)
    {line : List UInt8} {effect : Effect} (hline : Line library plugin line effect)
    {tail : List UInt8} (htail : tail <+: line) (index : Nat) (effects : List Effect) :
    let landed := if tail = line then effects ++ [effect] else effects
    readLines explain library eof index (ownerOf plugin effects) effects
    (splitInclusive newline tail) =
      .ok (ownerOf plugin landed, landed) := by
  intro landed
  by_cases hempty : tail = []
  · have hlanded : landed = effects := if_neg (by rw [hempty]; exact (hline.ne_nil hlibrary).symm)
    rw [hlanded, hempty]
    rfl
  · have hfree : newline ∉ tail := fun hmem => hline.free (htail.subset hmem)
    rw [splitInclusive_rest hfree hempty]
    by_cases hwhole : tail = line
    · have hlanded : landed = effects ++ [effect] := if_pos hwhole
      rw [hlanded, hwhole]
      rw [hwhole] at hfree
      rw [readLines_record (last_of_free hfree) (if_neg (by decide)) (hline.valid_utf8 hlibrary false)
        (hline.decode hlibrary), readLines_nil]
    · have hlanded : landed = effects := if_neg hwhole
      rw [hlanded, readLines]
      simp only [last_of_free hfree, Bool.false_eq_true, if_false, hline.cut_utf8 hlibrary htail,
        hline.cut_unread hlibrary htail hwhole]
      rw [if_pos]
      simp [RecordRefusal.isEof, htorn plugin line effect hline tail htail hwhole]

end Reading

end Plasmosome.Reversal
