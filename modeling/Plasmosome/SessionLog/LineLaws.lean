import Plasmosome.SessionLog.Line

/-!
# What the scan reads of what is written

An event's line is refused, or it is read with its number and its kind. It is read
back as long as none of its fields is nested too deep and no object of it begins with
the library's own key. A scan of lines one after another is the scan of the first, then
of the others.
-/

namespace Plasmosome.SessionLog

open Foundation
open Serde

/-! ## The fields of an event -/

theorem lookup_orInsert (event : List (String × Value)) (field : String × Value) (key : String) :
    (orInsert event field).lookup key =
      (event.lookup key).or (if key = field.1 then some field.2 else none) := by
  rw [orInsert]
  split
  next hheld =>
    by_cases hkey : key = field.1
    · obtain ⟨value, hvalue⟩ := Option.isSome_iff_exists.mp hheld
      rw [hkey, hvalue, Option.some_or]
    · rw [if_neg hkey, Option.or_none]
  next hfree =>
    rw [lookup_insertMember]
    by_cases hkey : key = field.1
    · rw [if_pos hkey, if_pos hkey, hkey, Option.not_isSome_iff_eq_none.mp hfree, Option.none_or]
    · rw [if_neg hkey, if_neg hkey, Option.or_none]

/-- A payload fills in only the keys the envelope lacks. -/
theorem lookup_foldl_orInsert (fields event : List (String × Value)) (key : String) :
    (fields.foldl orInsert event).lookup key = (event.lookup key).or (fields.lookup key) := by
  induction fields generalizing event with
  | nil => simp
  | cons field rest ih =>
      rcases field with ⟨first, value⟩
      rw [List.foldl_cons, ih, lookup_orInsert, lookup_cons_ite]
      by_cases hkey : key = first <;> simp [hkey]

theorem ordered_foldl_orInsert (fields : List (String × Value)) {event : List (String × Value)}
    (hevent : Ordered event) : Ordered (fields.foldl orInsert event) := by
  induction fields generalizing event with
  | nil => exact hevent
  | cons field rest ih =>
      refine ih ?_
      rw [orInsert]
      split
      · exact hevent
      · exact ordered_insertMember _ _ hevent

def envelopeKeys : List String := ["ts_ms", "seq", "kind"]

/-- The envelope has a kind, a number and a time. -/
theorem lookup_envelope (tsMs seq : UInt64) (kind key : String) :
    (envelope tsMs seq kind).lookup key =
      if key = "kind" then some (.string kind)
      else if key = "seq" then some (.ofU64 seq)
      else if key = "ts_ms" then some (.ofU64 tsMs)
      else none := by
  rw [envelope, lookup_insertMember, lookup_insertMember, lookup_insertMember, List.lookup_nil]

theorem lookup_envelope_eq_none {tsMs seq : UInt64} {kind key : String}
    (hkey : key ∉ envelopeKeys) : (envelope tsMs seq kind).lookup key = none := by
  simp only [envelopeKeys, List.mem_cons, List.not_mem_nil, or_false, not_or] at hkey
  rw [lookup_envelope, if_neg hkey.2.2, if_neg hkey.2.1, if_neg hkey.1]

theorem ordered_envelope (tsMs seq : UInt64) (kind : String) : Ordered (envelope tsMs seq kind) :=
  ordered_insertMember _ _ (ordered_insertMember _ _ (ordered_insertMember _ _ .nil))

theorem fields_nodup {value : Value} (hvalid : value.Valid) :
    ((fieldsOf value).map Prod.fst).Nodup := by
  cases hvalid with
  | object hkeys _ => exact hkeys
  | _ => exact List.nodup_nil

theorem fields_valid {value : Value} (hvalid : value.Valid) :
    ∀ field ∈ fieldsOf value, field.2.Valid := by
  cases hvalid with
  | object _ hvalues => exact hvalues
  | _ =>
      intro field hfield
      cases hfield

/-- The fields of a payload are in key order inside. -/
theorem fields_ordered (payload : Payload) {field : String × Value}
    (hfield : field ∈ fieldsOf payload.value) : field.2.sorted = field.2 := by
  have hnodup := fields_nodup payload.valid
  have hlookup := (mem_iff_lookup hnodup field.1 field.2).mp hfield
  have hordered := payload.ordered
  cases hvalue : payload.value with
  | object fields =>
      rw [hvalue] at hnodup hlookup hordered
      rw [Value.sorted] at hordered
      change (fields.map Prod.fst).Nodup at hnodup
      change fields.lookup field.1 = some field.2 at hlookup
      have hsorted := lookup_sortedMembers hnodup [] field.1
      rw [Value.object.inj hordered, hlookup, List.lookup_nil, Option.or_none] at hsorted
      exact (Option.some_inj.mp hsorted).symm
  | _ =>
      rw [hvalue] at hfield
      cases hfield

namespace Event

variable (event : Event)

theorem ordered_members : Ordered event.members :=
  ordered_foldl_orInsert _ (ordered_envelope _ _ _)

theorem lookup_members (key : String) :
    event.members.lookup key =
      ((envelope event.tsMs event.seq event.kind).lookup key).or
        ((fieldsOf event.payload.value).lookup key) :=
  lookup_foldl_orInsert _ _ _

/-- A field of the payload that is not part of the envelope. -/
def Field (key : String) (value : Value) : Prop :=
  (key, value) ∈ fieldsOf event.payload.value ∧ key ∉ envelopeKeys

/-- A field of the payload stands among the members. -/
theorem lookup_field {event : Event} {key : String} {value : Value}
    (hfield : event.Field key value) : event.members.lookup key = some value := by
  rw [lookup_members, lookup_envelope_eq_none hfield.2, Option.none_or]
  exact (mem_iff_lookup (fields_nodup event.payload.valid) key value).mp hfield.1

theorem lookup_seq : event.members.lookup "seq" = some (.ofU64 event.seq) := by
  rw [lookup_members, lookup_envelope, if_neg (by decide), if_pos rfl, Option.some_or]

theorem lookup_kind : event.members.lookup "kind" = some (.string event.kind) := by
  rw [lookup_members, lookup_envelope, if_pos rfl, Option.some_or]

/-- A member of an event is part of its envelope or a field of its payload. -/
theorem member_cases {key : String} {value : Value} (hmember : (key, value) ∈ event.members) :
    value = .string event.kind ∨ value = .ofU64 event.seq ∨ value = .ofU64 event.tsMs ∨
      event.Field key value := by
  have hlookup := (mem_iff_lookup event.ordered_members.nodup key value).mp hmember
  by_cases hkey : key ∈ envelopeKeys
  · rw [lookup_members, lookup_envelope] at hlookup
    simp only [envelopeKeys, List.mem_cons, List.not_mem_nil, or_false] at hkey
    rcases hkey with rfl | rfl | rfl
    · rw [if_neg (by decide), if_neg (by decide), if_pos rfl, Option.some_or] at hlookup
      exact .inr (.inr (.inl (Option.some_inj.mp hlookup).symm))
    · rw [if_neg (by decide), if_pos rfl, Option.some_or] at hlookup
      exact .inr (.inl (Option.some_inj.mp hlookup).symm)
    · rw [if_pos rfl, Option.some_or] at hlookup
      exact .inl (Option.some_inj.mp hlookup).symm
  · rw [lookup_members, lookup_envelope_eq_none hkey, Option.none_or] at hlookup
    exact .inr (.inr (.inr
      ⟨(mem_iff_lookup (fields_nodup event.payload.valid) key value).mpr hlookup, hkey⟩))

theorem valid_members : (Value.object event.members).Valid := by
  refine .object event.ordered_members.nodup fun member hmember => ?_
  rcases event.member_cases hmember with hkind | hseq | htime | hfield
  · exact hkind ▸ .string _
  · exact hseq ▸ .number trivial
  · exact htime ▸ .number trivial
  · exact fields_valid event.payload.valid member hfield.1

/-- No field of the payload is nested so deep that the line is refused. -/
def Shallow : Prop := ∀ key value, event.Field key value → value.depth < maxDepth

/-- No object of the line begins with the library's own key. -/
def NoRaw : Prop := (Value.object event.members).NoRaw

/-- Every field of the payload reads back as it was given. -/
def Faithful (library : Library) : Prop :=
  ∀ key value, event.Field key value → library.Exact value

theorem membersDepth_le_iff {members : List (String × Value)} {bound : Nat} :
    Value.membersDepth members ≤ bound ↔ ∀ member ∈ members, member.2.depth ≤ bound := by
  induction members with
  | nil => simp [Value.membersDepth]
  | cons member rest ih =>
      rcases member with ⟨key, value⟩
      rw [Value.membersDepth, max_le_iff, ih, List.forall_mem_cons]

theorem depth_le_iff : (Value.object event.members).depth ≤ maxDepth ↔ event.Shallow := by
  have hbound : (Value.object event.members).depth ≤ maxDepth ↔
      Value.membersDepth event.members ≤ 126 := by
    rw [Value.depth, maxDepth]
    omega
  rw [hbound, membersDepth_le_iff]
  constructor
  · intro hall key value hfield
    have hmember := (mem_iff_lookup event.ordered_members.nodup key value).mpr (lookup_field hfield)
    have hle : value.depth ≤ 126 := hall (key, value) hmember
    rw [maxDepth]
    omega
  · rintro hshallow ⟨key, value⟩ hmember
    rcases event.member_cases hmember with rfl | rfl | rfl | hfield
    · exact Nat.zero_le _
    · exact Nat.zero_le _
    · exact Nat.zero_le _
    · have hless := hshallow key value hfield
      rw [maxDepth] at hless
      change value.depth ≤ 126
      omega

variable {library : Library}

/-! ## Reading one line -/

/-- The members that are read from an event's line. -/
def entries (library : Library) : List (String × Value) :=
  Value.sortedMembers [] (library.rereadMembers event.members)

/-- The line is read as an object with the event's number and kind. -/
structure Reads (library : Library) (entries : List (String × Value)) : Prop where
  read : library.fromStr (library.write (.object event.members)) = some (.object entries)
  seq : entries.lookup "seq" = some (.ofU64 event.seq)
  kind : entries.lookup "kind" = some (.string event.kind)

/-- How the library reads a text inside the event's line. -/
def inside (library : Library) : List UInt8 → Option Value :=
  library.fromStrWithin (library.write (.object event.members)).length

theorem reread_nodup : ((library.rereadMembers event.members).map Prod.fst).Nodup := by
  rw [rereadMembers_eq_map, List.map_map]
  exact event.ordered_members.nodup

theorem lookup_reread {key : String} {value : Value}
    (hlookup : event.members.lookup key = some value) :
    (library.rereadMembers event.members).lookup key = some (library.reread value) := by
  rw [rereadMembers_eq_map, lookup_mapValues, hlookup]
  rfl

/-- An event has more members than one. -/
theorem rawText_reread : rawText (library.rereadMembers event.members) = none := by
  cases htext : rawText (library.rereadMembers event.members) with
  | none => rfl
  | some text =>
      obtain ⟨⟨key, value⟩, hone⟩ := rawText_eq_some htext
      have hseq := @lookup_reread event library _ _ event.lookup_seq
      have hkind := @lookup_reread event library _ _ event.lookup_kind
      rw [hone, lookup_cons_ite] at hseq hkind
      split at hseq
      next hkey =>
        rw [← hkey, if_neg (by decide)] at hkind
        cases hkind
      next => cases hseq

/-- A line that is not too deep is either refused or reads as the event. -/
theorem read_cases (hlibrary : library.Documented) (hshallow : event.Shallow) :
    library.fromStr (library.write (.object event.members)) = none ∨
      ∃ entries, event.Reads library entries ∧
        ∃ held, Value.unrawMembers (event.inside library) (library.rereadMembers event.members) =
          some held ∧ entries = Value.sortedMembers [] held ∧ ¬ RawFirst event.members := by
  have hread := hlibrary.fromStr_write event.valid_members (event.depth_le_iff.mpr hshallow)
  rw [Library.reread, Value.unraw] at hread
  split at hread
  next hraw =>
    rw [event.rawText_reread] at hread
    exact .inl hread
  next hraw =>
    cases hheld : Value.unrawMembers (event.inside library)
        (library.rereadMembers event.members) with
    | none =>
        rw [inside] at hheld
        rw [hheld] at hread
        exact .inl hread
    | some held =>
        have hnodup : (held.map Prod.fst).Nodup := by
          rw [← unrawMembers_keys hheld]
          exact event.reread_nodup
        have hlookup {key : String} {value : Value}
            (hmember : event.members.lookup key = some value)
            (hplain : (library.reread value).unraw (event.inside library) = some value)
            (hsorted : value.sorted = value) :
            (Value.sortedMembers [] held).lookup key = some value := by
          obtain ⟨read, hat, hunraw⟩ := unrawMembers_lookup hheld (event.lookup_reread hmember)
          rw [hplain] at hunraw
          cases hunraw
          rw [lookup_sortedMembers hnodup, hat, Option.map_some, Option.some_or, hsorted]
        refine .inr ⟨Value.sortedMembers [] held, ⟨?_, hlookup event.lookup_seq rfl rfl,
          hlookup event.lookup_kind rfl rfl⟩, held, rfl, rfl, fun hfirst => hraw ?_⟩
        · rw [inside] at hheld
          rw [hread, hheld]
          rfl
        · rw [rereadMembers_eq_map]
          cases hmembers : event.members with
          | nil =>
              rw [hmembers] at hfirst
              cases hfirst
          | cons member rest =>
              rw [hmembers] at hfirst
              exact hfirst

theorem lookup_entries_field {key : String} {value : Value} (hfield : event.Field key value) :
    (event.entries library).lookup key = some (library.reread value) := by
  rw [entries, lookup_sortedMembers event.reread_nodup, event.lookup_reread (lookup_field hfield),
    Option.map_some, Option.some_or, sorted_reread, fields_ordered event.payload hfield.1]

/-- A line without a raw value reads back. -/
theorem reads_entries (hlibrary : library.Documented) (hshallow : event.Shallow)
    (hraw : event.NoRaw) : event.Reads library (event.entries library) := by
  have hread := hlibrary.fromStr_write event.valid_members (event.depth_le_iff.mpr hshallow)
  rw [hraw.reread.unraw] at hread
  have hlookup {key : String} {value : Value} (hmember : event.members.lookup key = some value) :
      (event.entries library).lookup key = some (library.reread value).sorted := by
    rw [entries, lookup_sortedMembers event.reread_nodup, event.lookup_reread hmember,
      Option.map_some, Option.some_or]
  exact ⟨hread, hlookup event.lookup_seq, hlookup event.lookup_kind⟩

/-- An event whose fields are read back as they were given has no object that begins with the
library's own key. -/
theorem noRaw_of_reads (hlibrary : library.Documented) (hshallow : event.Shallow)
    {entries : List (String × Value)} (hreads : event.Reads library entries)
    (hfields : ∀ key value, event.Field key value → entries.lookup key = some value) :
    event.NoRaw := by
  rcases event.read_cases hlibrary hshallow with hnone | ⟨others, hothers, held, hheld, rfl, hfirst⟩
  · rw [hreads.read] at hnone
    cases hnone
  · have hsame := hreads.read.symm.trans hothers.read
    cases Value.object.inj (Option.some_inj.mp hsame)
    have hnodup : (held.map Prod.fst).Nodup := by
      rw [← unrawMembers_keys hheld]
      exact event.reread_nodup
    refine .object hfirst ?_
    rintro ⟨key, value⟩ hmember
    rcases event.member_cases hmember with hkind | hseq | htime | hfield
    · exact hkind ▸ .string _
    · exact hseq ▸ .number _
    · exact htime ▸ .number _
    · obtain ⟨read, hat, hunraw⟩ :=
        unrawMembers_lookup hheld (event.lookup_reread (lookup_field hfield))
      have hlookup := hfields key value hfield
      rw [lookup_sortedMembers hnodup, hat, Option.map_some, Option.some_or] at hlookup
      exact noRaw_of_unraw (fun bytes _ hread => fromStrWithin_not_allRaw library _ bytes hread)
        (fields_valid event.payload.valid _ hfield.1) hunraw (Option.some_inj.mp hlookup)

/-- A line nested too deep is refused. -/
theorem unread_deep (hlibrary : library.Documented) (hdeep : ¬event.Shallow) :
    library.fromStr (library.write (.object event.members)) = none :=
  hlibrary.fromStr_write_deep event.valid_members
    (not_le.mp fun hdepth => hdeep (event.depth_le_iff.mp hdepth))

/-- A line is read or it is refused. -/
theorem reads_or_unread (hlibrary : library.Documented) :
    library.fromStr (library.write (.object event.members)) = none ∨
      ∃ entries, event.Reads library entries := by
  by_cases hshallow : event.Shallow
  · rcases event.read_cases hlibrary hshallow with hnone | ⟨entries, hreads, -⟩
    · exact .inl hnone
    · exact .inr ⟨entries, hreads⟩
  · exact .inl (event.unread_deep hlibrary hshallow)

/-- A line that reads back passes its check, with its number. -/
theorem checkLine_write {entries : List (String × Value)} (hreads : event.Reads library entries) :
    checkLine library (library.write (.object event.members)) =
    .ok (.object entries, event.seq) := by
  have hdecode : Utf8.decode (library.write (.object event.members)) 0 =
      .ok ((Value.object event.members).write library.floatChars) := Utf8.decode_encode _ _
  rw [checkLine, hdecode, hreads.read]
  simp only [hreads.seq, hreads.kind, Option.bind_some, Value.asU64_ofU64, Value.asStr_string]

theorem checkLine_write_unread
    (hunread : library.fromStr (library.write (.object event.members)) = none) :
    checkLine library (library.write (.object event.members)) = .error .notJson := by
  have hdecode : Utf8.decode (library.write (.object event.members)) 0 =
      .ok ((Value.object event.members).write library.floatChars) := Utf8.decode_encode _ _
  rw [checkLine, hdecode, hunread]

end Event

/-! ## Scanning -/

theorem write_no_newline (library : Library) (value : Value) : newline ∉ library.write value := by
  intro hmem
  have hcode := encode_printable (write_printable value) newline hmem
  exact absurd hcode (by decide)

/-- Reading up to a newline stops right after it. -/
theorem readUntil_line {segment : List UInt8} (hplain : newline ∉ segment) {limit : Nat}
    (hlimit : segment.length < limit) (rest : List UInt8) :
    readUntil limit (segment ++ newline :: rest) = (segment ++ [newline], rest) := by
  induction segment generalizing limit with
  | nil =>
      obtain ⟨limit, rfl⟩ := Nat.exists_eq_succ_of_ne_zero (Nat.ne_of_gt hlimit)
      rw [List.nil_append, readUntil, if_pos rfl]
      rfl
  | cons byte segment ih =>
      rw [List.length_cons] at hlimit
      obtain ⟨limit, rfl⟩ := Nat.exists_eq_succ_of_ne_zero (show limit ≠ 0 by omega)
      rw [List.mem_cons, not_or] at hplain
      rw [List.cons_append, readUntil, if_neg (Ne.symm hplain.1), ih hplain.2 (by omega)]
      rfl

/-- A line that was read is read the same when more bytes follow it. -/
theorem readUntil_append_right {limit : Nat} {bytes : List UInt8} (rest : List UInt8)
    (hline : (readUntil limit bytes).1.getLast? = some newline) :
    readUntil limit (bytes ++ rest) =
      ((readUntil limit bytes).1, (readUntil limit bytes).2 ++ rest) := by
  induction limit generalizing bytes with
  | zero => cases hline
  | succ limit ih =>
      cases bytes with
      | nil => cases hline
      | cons byte bytes =>
          rw [List.cons_append, readUntil, readUntil]
          rw [readUntil] at hline
          split
          · rfl
          next hbyte =>
            rw [if_neg hbyte] at hline
            change (byte :: (readUntil limit bytes).1).getLast? = some newline at hline
            have htail : (readUntil limit bytes).1.getLast? = some newline := by
              cases hsegment : (readUntil limit bytes).1 with
              | nil =>
                  rw [hsegment] at hline
                  exact absurd (Option.some_inj.mp hline) hbyte
              | cons first others =>
                  rw [hsegment] at hline
                  exact hline
            rw [ih htail]

variable {Path : Type} {library : Library} {path : Path}

/-- A scan goes on where the lines before it end. -/
theorem scanFrom_append {bytes rest : List UInt8} {line : Nat} {last final : Option (Nat × UInt64)}
    {events : List Value}
    (hscan : scanFrom library path (fun _ => false) line last bytes = .ok (events, final)) :
    scanFrom library path (fun _ => false) line last (bytes ++ rest) =
      (scanFrom library path (fun _ => false) (line + events.length) final rest).map
        fun scanned => (events ++ scanned.1, scanned.2) := by
  induction hlength : bytes.length using Nat.strong_induction_on
    generalizing bytes line last events with
  | _ length ih =>
  rw [scanFrom, if_neg Bool.false_ne_true] at hscan
  by_cases hempty : bytes = []
  · rw [if_pos hempty] at hscan
    cases hscan
    subst hempty
    cases hrest : scanFrom library path (fun _ => false) line final rest <;>
      simp [hrest, Except.map]
  · rw [if_neg hempty] at hscan
    cases hread : readUntil (maxLineBytes + 1) bytes with
    | mk segment after =>
    simp only [hread] at hscan
    have hshorter := congrArg List.length (readUntil_append (maxLineBytes + 1) bytes)
    rw [hread, List.length_append] at hshorter
    split at hscan
    next hnewline =>
      have hpositive : 0 < segment.length := by
        refine List.length_pos_iff.mpr ?_
        rintro rfl
        cases hnewline
      have hline : (readUntil (maxLineBytes + 1) bytes).1.getLast? = some newline := by
        rw [hread]
        exact hnewline
      have hmore := readUntil_append_right rest hline
      rw [hread] at hmore
      split at hscan
      next => cases hscan
      next event seq hcheck =>
        split at hscan
        next => cases hscan
        next hincreasing =>
          split at hscan
          next => cases hscan
          next others lastLine hothers =>
            cases hscan
            have hafter := ih after.length (by simp only at hshorter; omega) hothers rfl
            rw [scanFrom, if_neg Bool.false_ne_true, if_neg (by simp [hempty])]
            simp only [hmore, hnewline, dif_pos, hcheck, hincreasing, Bool.false_eq_true, if_false,
              hafter]
            rw [List.length_cons, ← Nat.add_assoc, Nat.add_right_comm]
            cases hrest : scanFrom library path (fun _ => false) (line + others.length + 1) final
              rest <;> simp [Except.map]
    next => cases hscan

namespace Event

variable {fails : Nat → Bool} {event : Event}

/-- The line is within the limit, so that it is written and a scan reads the whole of it. -/
def Fits (library : Library) (event : Event) : Prop :=
  (event.line library).length - 1 ≤ maxLineBytes

theorem length_line : (event.line library).length =
    (library.write (.object event.members)).length + 1 := by
  rw [line, List.length_append, List.length_singleton]

/-- An event that fits is read as one line. -/
theorem readUntil_event (hfits : event.Fits library) (rest : List UInt8) :
    readUntil (maxLineBytes + 1) (event.line library ++ rest) = (event.line library, rest) := by
  rw [Fits, length_line] at hfits
  rw [line, List.append_assoc, List.singleton_append]
  exact readUntil_line (write_no_newline library _) (by omega) rest

theorem line_ne_nil (library : Library) (event : Event) (rest : List UInt8) :
    event.line library ++ rest ≠ [] := by
  simp [line]

theorem getLast?_line : (event.line library).getLast? = some newline := by simp [line]

theorem dropLast_line :
    (event.line library).dropLast = library.write (.object event.members) := by simp [line]

/-- A scan goes on past an event that reads back. -/
theorem scanFrom_line {entries : List (String × Value)} (hreads : event.Reads library entries)
    (hfits : event.Fits library) {line : Nat} (hread : fails line = false)
    {last : Option (Nat × UInt64)} (hlast : ∀ before ∈ last, before.2 < event.seq)
    (rest : List UInt8) :
    scanFrom library path fails line last (event.line library ++ rest) =
      (scanFrom library path fails (line + 1) (some (line, event.seq)) rest).map
        fun scanned => (.object entries :: scanned.1, scanned.2) := by
  have hincreasing : (last.any fun before => event.seq ≤ before.2) = false := by
    cases last with
    | none => rfl
    | some before => simpa using hlast before rfl
  rw [scanFrom, hread, if_neg Bool.false_ne_true, if_neg (line_ne_nil library event rest)]
  simp only [readUntil_event hfits, getLast?_line, dropLast_line,
    event.checkLine_write hreads, hincreasing, dif_pos, Bool.false_eq_true, if_false]
  cases scanFrom library path fails (line + 1) (some (line, event.seq)) rest <;> rfl

/-- A scan refuses the whole log at a line the library refuses. -/
theorem scanFrom_line_unread
    (hunread : library.fromStr (library.write (.object event.members)) = none)
    (hfits : event.Fits library) {line : Nat} (hread : fails line = false)
    (last : Option (Nat × UInt64)) (rest : List UInt8) :
    scanFrom library path fails line last (event.line library ++ rest) =
      .error (.malformed path line .notJson) := by
  rw [scanFrom, hread, if_neg Bool.false_ne_true, if_neg (line_ne_nil library event rest)]
  simp only [readUntil_event hfits, getLast?_line, dropLast_line,
    event.checkLine_write_unread hunread, dif_pos]

end Event

section Lines

variable {fails : Nat → Bool}

/-- Bytes without an LF are no line: a scan that accepts them found none. -/
theorem scanFrom_torn {torn : List UInt8} (htorn : newline ∉ torn) {line : Nat}
    {last : Option (Nat × UInt64)} {scanned : Scanned}
    (hscan : scanFrom library path fails line last torn = .ok scanned) :
    torn = [] ∧ scanned.2 = last := by
  rw [scanFrom] at hscan
  split at hscan
  next => cases hscan
  next =>
    split at hscan
    next hempty =>
      cases hscan
      exact ⟨hempty, rfl⟩
    next =>
      split at hscan
      next segment rest hread =>
        split at hscan
        next hnewline =>
          have happend := readUntil_append (maxLineBytes + 1) torn
          rw [hread] at happend
          exact (htorn (happend ▸ List.mem_append_left _ (List.mem_of_getLast? hnewline))).elim
        next => cases hscan

/-- A scan that accepts event lines and what follows the last LF found nothing there, and holds
the last line's `seq`. -/
theorem scanFrom_lines (hlibrary : library.Documented) {events : List Event}
    (hfits : ∀ event ∈ events, event.Fits library) {torn : List UInt8} (htorn : newline ∉ torn)
    {line : Nat} {last : Option (Nat × UInt64)}
    (hincreasing : (last.toList.map Prod.snd ++ events.map Event.seq).Pairwise (· < ·))
    {scanned : Scanned}
    (hscan : scanFrom library path fails line last
      (events.flatMap (Event.line library) ++ torn) = .ok scanned) :
    torn = [] ∧
      scanned.2.map Prod.snd = (last.toList.map Prod.snd ++ events.map Event.seq).getLast? := by
  induction events generalizing line last scanned with
  | nil =>
      obtain ⟨hnil, hlast⟩ := scanFrom_torn htorn hscan
      refine ⟨hnil, ?_⟩
      rw [hlast]
      cases last <;> simp
  | cons event rest ih =>
      rw [List.flatMap_cons, List.append_assoc] at hscan
      have hfit := hfits event List.mem_cons_self
      have hread : fails line = false := by
        cases hfails : fails line with
        | false => rfl
        | true =>
            rw [scanFrom, hfails, if_pos rfl] at hscan
            cases hscan
      obtain ⟨-, hevents, hbefore⟩ := List.pairwise_append.mp hincreasing
      have hlast : ∀ before ∈ last, before.2 < event.seq := by
        rintro before hmem
        cases hmem
        exact hbefore before.2 (by simp) event.seq (by simp)
      rcases event.reads_or_unread hlibrary with hunread | ⟨entries, hreads⟩
      · rw [Event.scanFrom_line_unread hunread hfit hread] at hscan
        cases hscan
      rw [Event.scanFrom_line hreads hfit hread hlast] at hscan
      cases hafter : scanFrom library path fails (line + 1) (some (line, event.seq))
          (rest.flatMap (Event.line library) ++ torn) with
      | error error =>
          rw [hafter] at hscan
          cases hscan
      | ok after =>
          rw [hafter] at hscan
          cases hscan
          obtain ⟨hnil, hfinal⟩ := ih (fun other hother => hfits other (List.mem_cons_of_mem _ hother))
            (by simpa using hevents) hafter
          refine ⟨hnil, hfinal.trans ?_⟩
          simp [List.getLast?_append, List.getLast?_cons]

end Lines

end Plasmosome.SessionLog
