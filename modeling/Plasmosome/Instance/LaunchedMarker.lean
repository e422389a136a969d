import Plasmosome.Backend.Text
import Plasmosome.Instance.CellId
import Plasmosome.Instance.SupervisorLock
import Plasmosome.Serde.Strict

/-!
# The launched marker

A record of the cell, the boot session its supervisor started in, and whether it
was stopped cleanly. Its text is one line, read strictly: an unknown key, a cell
that is no cell ID and a boot session in any other spelling are refused.
-/

namespace Plasmosome.Instance

open Foundation Serde Backend

structure LaunchedMarker (Session : Type) where
  cell : String
  bootSession : Session
  stopped : Bool
deriving DecidableEq

/-- The library that reads and prints the identity of a boot session. -/
structure UuidLibrary (Session : Type) where
  tryParse : String → Option Session
  hyphenated : Session → String

/-- What the library documents: the hyphenated text is 36 characters of lowercase hexadecimal and
hyphens, and reads back. -/
structure UuidLibrary.Documented {Session : Type} (uuid : UuidLibrary Session) : Prop where
  parse : ∀ session, uuid.tryParse (uuid.hyphenated session) = some session
  size : ∀ session, Utf8.size (uuid.hyphenated session).toList = 36
  plain : ∀ session, ∀ char ∈ (uuid.hyphenated session).toList,
    char = '-' ∨ char.isDigit ∨ ('a' ≤ char ∧ char ≤ 'f')

inductive MarkerFault where
  | acl
  | symlink
  | notRegular
  | tooLarge
  | io (errno : SupervisorLock.Errno)
  | malformed (reason : String)
  | wrongCell (found : String)
deriving DecidableEq

def maxMarkerBytes : Nat := 4096

def markerKeys : List String := ["cell", "boot_session", "stopped"]

def LineFault.markerFault : LineFault → MarkerFault
  | .notOneLine => .malformed "the record is not one line ending in a newline"
  | .tooLarge _ => .tooLarge
  | .notUtf8 => .malformed "the record is not UTF-8"
  | .notJson detail => .malformed ("not JSON: " ++ detail)
  | .duplicateKey field => .malformed ("the key " ++ debugString field ++ " is repeated")

variable {Session : Type} (library : Library) (uuid : UuidLibrary Session)

def UuidLibrary.parse (text : String) : Option Session :=
  if Utf8.size text.toList ≠ 36 then none else uuid.tryParse text

namespace LaunchedMarker

def text (marker : LaunchedMarker Session) : List Char :=
  let stopped := if marker.stopped then ",\"stopped\":true" else ""
  "\x7b\"cell\":".toList ++ quoted marker.cell ++ ",\"boot_session\":\"".toList ++
    (uuid.hyphenated marker.bootSession).toList ++ "\"".toList ++ stopped.toList ++
    "\x7d\n".toList

def encode (marker : LaunchedMarker Session) : List UInt8 := Utf8.encode (marker.text uuid)

def cellOf (entries : List (String × Value)) : Except MarkerFault String :=
  match entries.lookup "cell" with
  | some (.string text) =>
      if (parseCellId text.toList).isSome then .ok text
      else .error (.malformed "\x60cell\x60 is not a cell ID")
  | some _ => .error (.malformed "\x60cell\x60 is not a cell ID")
  | none => .error (.malformed "\x60cell\x60 is missing")

def bootSessionOf (entries : List (String × Value)) : Except MarkerFault Session :=
  match entries.lookup "boot_session" with
  | some (.string text) =>
      match (uuid.parse text).filter fun session => uuid.hyphenated session = text with
      | some session => .ok session
      | none => .error (.malformed "\x60boot_session\x60 is not a lowercase hyphenated UUID")
  | some _ => .error (.malformed "\x60boot_session\x60 is not a string")
  | none => .error (.malformed "\x60boot_session\x60 is missing")

def stoppedOf (entries : List (String × Value)) : Except MarkerFault Bool :=
  match entries.lookup "stopped" with
  | none => .ok false
  | some (.bool true) => .ok true
  | some _ => .error (.malformed "\x60stopped\x60 is present but not true")

def decode (bytes : List UInt8) : Except MarkerFault (LaunchedMarker Session) := do
  if maxMarkerBytes < bytes.length then throw .tooLarge
  match ← (readLine library bytes).mapError LineFault.markerFault with
  | .object entries =>
      match (entries.map Prod.fst).find? fun key => !markerKeys.contains key with
      | some key => throw (.malformed ("an unknown key " ++ debugString key))
      | none =>
          let cell ← cellOf entries
          let bootSession ← bootSessionOf uuid entries
          let stopped ← stoppedOf entries
          return ⟨cell, bootSession, stopped⟩
  | _ => throw (.malformed "the record is not a JSON object")

/-- The value a marker's line spells. -/
def value (marker : LaunchedMarker Session) : List (String × Value) :=
  [("cell", .string marker.cell), ("boot_session", .string (uuid.hyphenated marker.bootSession))] ++
    if marker.stopped then [("stopped", .bool true)] else []

section Laws

variable {library : Library} {uuid : UuidLibrary Session}

/-- A character that needs no escape is written as it is. -/
theorem escapeChar_plain {char : Char} (hlow : 0x2d ≤ char.toNat) (hslash : char.toNat ≠ 0x5c) :
    escapeChar char = [char] := by
  have hne : ∀ other : Char, other.toNat < 0x2d ∨ other.toNat = 0x5c → char ≠ other := by
    rintro other hcase rfl
    omega
  have hquote := hne '"' (by decide)
  have hbackslash := hne '\\' (by decide)
  have hback := hne '\x08' (by decide)
  have hfeed := hne '\x0c' (by decide)
  have hline := hne '\n' (by decide)
  have hreturn := hne '\r' (by decide)
  have htab := hne '\t' (by decide)
  have hcontrol : ¬char.toNat < 32 := by omega
  simp only [escapeChar, hquote, hbackslash, hback, hfeed, hline, hreturn, htab, hcontrol, if_false]

theorem isDigit_code {char : Char} (hdigit : char.isDigit) :
    0x30 ≤ char.toNat ∧ char.toNat ≤ 0x39 := by
  simp only [Char.isDigit, Bool.and_eq_true, decide_eq_true_eq, UInt32.le_iff_toNat_le] at hdigit
  exact hdigit

/-- A text without escapes is written between quotes. -/
theorem quoted_plain {text : String}
    (hplain : ∀ char ∈ text.toList, 0x2d ≤ char.toNat ∧ char.toNat ≠ 0x5c) :
    quoted text = '"' :: (text.toList ++ ['"']) := by
  have hescape : ∀ char ∈ text.toList, escapeChar char = [char] := fun char hchar =>
    escapeChar_plain (hplain char hchar).1 (hplain char hchar).2
  rw [quoted, List.cons_append, List.flatMap_congr hescape, List.flatMap_singleton']

theorem quoted_hyphenated (huuid : uuid.Documented) (session : Session) :
    quoted (uuid.hyphenated session) = '"' :: ((uuid.hyphenated session).toList ++ ['"']) := by
  refine quoted_plain fun char hchar => ?_
  rcases huuid.plain session char hchar with rfl | hdigit | ⟨hlow, hhigh⟩
  · decide
  · have hcode := isDigit_code hdigit
    omega
  · rw [Char.le_def, UInt32.le_iff_toNat_le] at hlow hhigh
    have hfirst : ('a' : Char).val.toNat = 97 := rfl
    have hnat : char.toNat = char.val.toNat := rfl
    omega

theorem cellKey_toList : "\x7b\"cell\":".toList = '\x7b' :: (quoted "cell" ++ [':']) := by
  simp [quoted, escapeChar]

theorem bootSessionKey_toList :
    ",\"boot_session\":\"".toList = ',' :: (quoted "boot_session" ++ [':', '"']) := by
  simp [quoted, escapeChar]

theorem stopped_toList :
    ",\"stopped\":true".toList = ',' :: (quoted "stopped" ++ ':' :: "true".toList) := by
  simp [quoted, escapeChar]

theorem quote_toList : "\"".toList = ['"'] := by simp

theorem close_toList : "\x7d\n".toList = ['\x7d', '\n'] := by simp

/-- The text of a marker is its value, written compactly, and a newline. -/
theorem text_eq_write (huuid : uuid.Documented) (marker : LaunchedMarker Session)
    (floatText : UInt64 → List Char) :
    marker.text uuid = (Value.object (marker.value uuid)).write floatText ++ ['\n'] := by
  have hsession := quoted_hyphenated huuid marker.bootSession
  unfold text value
  rw [cellKey_toList, bootSessionKey_toList, quote_toList, close_toList]
  cases marker.stopped with
  | false => simp [Value.write, Value.writeMembers, hsession]
  | true =>
      simp only [if_true]
      rw [stopped_toList]
      simp [Value.write, Value.writeMembers, hsession]

/-- The bytes of a marker are its value as the library writes it, and a newline. -/
theorem encode_eq_write (huuid : uuid.Documented) (marker : LaunchedMarker Session) :
    marker.encode uuid = library.write (.object (marker.value uuid)) ++ [newline] := by
  have hline : Utf8.encode ['\n'] = [newline] := by decide
  rw [encode, text_eq_write huuid marker library.floatChars, Utf8.encode_append, hline]
  rfl

/-- The value of a marker reads back as it is. -/
theorem value_exact (marker : LaunchedMarker Session) :
    library.Exact (.object (marker.value uuid)) := by
  cases hstopped : marker.stopped <;> simp [Library.Exact, value, hstopped, Library.reread,
    Library.rereadMembers]

theorem value_valid (marker : LaunchedMarker Session) :
    (Value.object (marker.value uuid)).Valid := by
  cases hstopped : marker.stopped <;> simp only [value, hstopped, if_true, Bool.false_eq_true, if_false]
  · refine .object (by simp) fun member hmember => ?_
    simp only [List.append_nil, List.mem_cons, List.not_mem_nil, or_false] at hmember
    rcases hmember with rfl | rfl
    · exact .string _
    · exact .string _
  · refine .object (by simp) fun member hmember => ?_
    simp only [List.cons_append, List.nil_append, List.mem_cons, List.not_mem_nil,
      or_false] at hmember
    rcases hmember with rfl | rfl | rfl
    · exact .string _
    · exact .string _
    · exact .bool _

/-! ## Reading a marker back -/

/-- A cell ID is `cell-` and at most ten digits. -/
theorem cellId_plain {text : List Char} {number : Nat} (hcell : parseCellId text = some number) :
    text.length ≤ 15 ∧ ∀ char ∈ text, 0x2d ≤ char.toNat ∧ char.toNat ≤ 0x7a ∧
    char.toNat ≠ 0x5c := by
  unfold parseCellId at hcell
  split at hcell
  next digits =>
    split at hcell
    next hdigits =>
      obtain ⟨-, hlength, hall, -⟩ := hdigits
      rw [maxDigits] at hlength
      refine ⟨by simp only [List.length_cons]; omega, ?_⟩
      intro char hchar
      simp only [List.mem_cons] at hchar
      rcases hchar with rfl | rfl | rfl | rfl | rfl | hmem
      iterate 5 decide
      have hcode := isDigit_code (List.all_eq_true.mp hall char hmem)
      omega
    next => cases hcell
  next => cases hcell

theorem size_le_of_ascii {text : List Char} (hascii : ∀ char ∈ text, char.toNat ≤ 0x7f) :
    Utf8.size text = text.length := by
  induction text with
  | nil => rfl
  | cons char rest ih =>
      have hone : char.utf8Size = 1 := by
        rw [Char.utf8Size_eq_one_iff, UInt32.le_iff_toNat_le]
        exact hascii char List.mem_cons_self
      rw [Utf8.size_cons, hone, ih fun other hother => hascii other (List.mem_cons_of_mem _ hother),
        List.length_cons, Nat.add_comm]

theorem cellKey_size : Utf8.size "\x7b\"cell\":".toList = 8 := by
  simp [Utf8.size]
  decide

theorem bootSessionKey_size : Utf8.size ",\"boot_session\":\"".toList = 17 := by
  simp [Utf8.size]
  decide

theorem quote_size : Utf8.size "\"".toList = 1 := by
  simp [Utf8.size]
  decide

theorem quoteChar_size : ('"' : Char).utf8Size = 1 := by decide

theorem close_size : Utf8.size "\x7d\n".toList = 2 := by
  simp [Utf8.size]
  decide

theorem stopped_size (stopped : Bool) :
    Utf8.size (if stopped then ",\"stopped\":true" else "").toList ≤ 15 := by
  cases stopped with
  | false => simp
  | true =>
      simp [Utf8.size]
      decide

/-- A marker of a valid cell has at most 110 bytes. -/
theorem text_size (huuid : uuid.Documented) {marker : LaunchedMarker Session}
    (hcell : (parseCellId marker.cell.toList).isSome) : Utf8.size (marker.text uuid) ≤ 110 := by
  obtain ⟨number, hnumber⟩ := Option.isSome_iff_exists.mp hcell
  obtain ⟨hlength, hplain⟩ := cellId_plain hnumber
  have hname : Utf8.size marker.cell.toList ≤ 15 := by
    rw [size_le_of_ascii fun char hchar => by have := hplain char hchar; omega]
    exact hlength
  have hquoted : quoted marker.cell = '"' :: (marker.cell.toList ++ ['"']) :=
    quoted_plain fun char hchar => ⟨(hplain char hchar).1, (hplain char hchar).2.2⟩
  have hsession := huuid.size marker.bootSession
  have hstopped := stopped_size marker.stopped
  unfold text
  rw [hquoted]
  simp only [Utf8.size_append, Utf8.size_cons, Utf8.size_nil, hsession, cellKey_size,
    bootSessionKey_size, quote_size, close_size, quoteChar_size]
  omega

/-- The line of a marker reads back as its value, the keys in order. -/
theorem readLine_encode (hlibrary : library.Documented) (huuid : uuid.Documented)
    {marker : LaunchedMarker Session} (hcell : (parseCellId marker.cell.toList).isSome) :
    readLine library (marker.encode uuid) = .ok (Value.object (marker.value uuid)).sorted := by
  have hsize := text_size huuid hcell
  have hlength : (marker.encode uuid).length ≤ 110 := by
    rw [encode, Utf8.length_encode]
    exact hsize
  have hline := @encode_eq_write _ library _ huuid marker
  have hbody : (library.write (.object (marker.value uuid))).length ≤ maxRecordBytes := by
    rw [hline, List.length_append] at hlength
    rw [maxRecordBytes]
    omega
  rw [hline]
  have hexact : library.reread (.object (marker.value uuid)) = .object (marker.value uuid) :=
    value_exact marker
  have hread := readLine_write hlibrary (value_valid marker) ?_ hbody
  · rwa [hexact] at hread
  cases hstopped : marker.stopped <;>
    simp [value, hstopped, Value.depth, Value.membersDepth, maxDepth]

/-- What a marker's line holds at a key, once it is read. -/
theorem lookup_value (marker : LaunchedMarker Session) (key : String) :
    (Value.sortedMembers [] (marker.value uuid)).lookup key =
      ((marker.value uuid).lookup key).map Value.sorted := by
  cases @value_valid _ uuid marker with
  | object hkeys _ =>
      rw [lookup_sortedMembers hkeys, List.lookup_nil, Option.or_none]

theorem lookup_cell (marker : LaunchedMarker Session) :
    (marker.value uuid).lookup "cell" = some (.string marker.cell) := by
  rw [value, List.cons_append, lookup_cons_ite, if_pos rfl]

theorem lookup_bootSession (marker : LaunchedMarker Session) :
    (marker.value uuid).lookup "boot_session" =
      some (.string (uuid.hyphenated marker.bootSession)) := by
  rw [value, List.cons_append, lookup_cons_ite, if_neg (by decide), List.cons_append,
    lookup_cons_ite, if_pos rfl]

theorem lookup_stopped (marker : LaunchedMarker Session) :
    (marker.value uuid).lookup "stopped" = if marker.stopped then some (.bool true) else none := by
  rw [value, List.cons_append, lookup_cons_ite, if_neg (by decide), List.cons_append,
    lookup_cons_ite, if_neg (by decide), List.nil_append]
  cases marker.stopped <;> rfl

theorem cellOf_value {marker : LaunchedMarker Session}
    (hcell : (parseCellId marker.cell.toList).isSome) :
    cellOf (Value.sortedMembers [] (marker.value uuid)) = .ok marker.cell := by
  rw [cellOf, lookup_value, lookup_cell]
  exact if_pos hcell

theorem bootSessionOf_value (huuid : uuid.Documented) (marker : LaunchedMarker Session) :
    bootSessionOf uuid (Value.sortedMembers [] (marker.value uuid)) = .ok marker.bootSession := by
  have hsession : uuid.parse (uuid.hyphenated marker.bootSession) = some marker.bootSession := by
    rw [UuidLibrary.parse, if_neg (not_not.mpr (huuid.size marker.bootSession)), huuid.parse]
  have hfilter : ((uuid.parse (uuid.hyphenated marker.bootSession)).filter fun session =>
      uuid.hyphenated session = uuid.hyphenated marker.bootSession) = some marker.bootSession := by
    rw [hsession, Option.filter_some, if_pos (decide_eq_true rfl)]
  rw [bootSessionOf, lookup_value, lookup_bootSession]
  simp only [Option.map_some, Value.sorted, hfilter]

theorem stoppedOf_value (marker : LaunchedMarker Session) :
    stoppedOf (Value.sortedMembers [] (marker.value uuid)) = .ok marker.stopped := by
  rw [stoppedOf, lookup_value, lookup_stopped]
  cases marker.stopped <;> rfl

/-- A marker of a cell with a cell ID reads back. -/
theorem decode_encode (hlibrary : library.Documented) (huuid : uuid.Documented)
    {marker : LaunchedMarker Session} (hcell : (parseCellId marker.cell.toList).isSome) :
    decode library uuid (marker.encode uuid) = .ok marker := by
  have hlength : ¬maxMarkerBytes < (marker.encode uuid).length := by
    have hsize := text_size huuid hcell
    rw [encode, Utf8.length_encode, maxMarkerBytes]
    omega
  have hunknown : ((Value.sortedMembers [] (marker.value uuid)).map Prod.fst).find?
      (fun key => !markerKeys.contains key) = none := by
    rw [List.find?_eq_none]
    intro key hkey
    rw [mem_sortedMembers_keys] at hkey
    cases hstopped : marker.stopped <;> simp [value, hstopped, markerKeys] at hkey ⊢ <;> tauto
  rw [decode, if_neg hlength, readLine_encode hlibrary huuid hcell]
  simp only [Value.sorted, Except.mapError, bind, Except.bind, hunknown, cellOf_value hcell,
    bootSessionOf_value huuid, stoppedOf_value, pure, Except.pure]

/-- A marker that was read names a valid cell. -/
theorem cell_of_decode {bytes : List UInt8} {marker : LaunchedMarker Session}
    (hdecode : decode library uuid bytes = .ok marker) :
    (parseCellId marker.cell.toList).isSome := by
  have hcellOf : ∀ entries cell, cellOf entries = .ok cell → (parseCellId cell.toList).isSome := by
    intro entries cell hcell
    unfold cellOf at hcell
    split at hcell
    next text _ =>
      split at hcell
      next hsome =>
        cases hcell
        exact hsome
      next => cases hcell
    next => cases hcell
    next => cases hcell
  unfold decode at hdecode
  split at hdecode
  next => cases hdecode
  next =>
    obtain ⟨value, -, hvalue⟩ := bind_eq_ok.mp hdecode
    split at hvalue
    next entries =>
      split at hvalue
      next => cases hvalue
      next =>
        obtain ⟨cell, hcell, hrest⟩ := bind_eq_ok.mp hvalue
        obtain ⟨bootSession, -, hrest⟩ := bind_eq_ok.mp hrest
        obtain ⟨stopped, -, hmarker⟩ := bind_eq_ok.mp hrest
        cases hmarker
        exact hcellOf entries cell hcell
    next => cases hvalue

/-- Whatever is read as a marker is written as a text that reads as the same marker. -/
theorem decode_encode_of_decode (hlibrary : library.Documented) (huuid : uuid.Documented)
    {bytes : List UInt8} {marker : LaunchedMarker Session}
    (hdecode : decode library uuid bytes = .ok marker) :
    decode library uuid (marker.encode uuid) = .ok marker :=
  decode_encode hlibrary huuid (cell_of_decode hdecode)

end Laws

end LaunchedMarker

end Plasmosome.Instance
