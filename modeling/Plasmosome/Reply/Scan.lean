import Plasmosome.Foundation.Pointer
import Plasmosome.Reply.Strings

/-!
# Scanning a document

The scan keeps a stack of the containers that are still open, the innermost
first. It either expects a value, or holds one that the innermost container, or
the document, has still to take.
-/

namespace Plasmosome.Reply

open Foundation Foundation.Cursor

/-- The most members whose keys are searched one by one. -/
def linearKeys : Nat := 8

/-- The longest text a scan reads. -/
def maxReplyBytes : Nat := 16 * 1024 * 1024

def member (members : List (String × Json)) (key : String) : Option Json :=
  (members.find? fun member => member.1 = key).map Prod.snd

/-- An open object: its members, the key that awaits its value, and the keys it has seen. -/
structure ObjectFrame where
  members : List (String × Json)
  key : String
  seen : Option (Finset String)

namespace ObjectFrame

def take (object : ObjectFrame) (value : Json) : ObjectFrame :=
  { object with members := object.members ++ [(object.key, value)], key := "" }

/-- Takes a new key, which must repeat none; past the linear bound the keys become a set. -/
def admitKey (object : ObjectFrame) (key : String) : Except String ObjectFrame :=
  match object.seen with
  | some seen =>
      if key ∈ seen then .error key else .ok { object with key, seen := some (insert key seen) }
  | none =>
      if (member object.members key).isSome then .error key
      else if linearKeys ≤ object.members.length then
        .ok { object with
          key, seen := some (insert key (object.members.map Prod.fst).toFinset) }
      else .ok { object with key }

/-- The frame of an object with these members whose next key is `key`. -/
def holding (members : List (String × Json)) (key : String) : ObjectFrame where
  members := members
  key := key
  seen :=
    if linearKeys < (members.map Prod.fst ++ [key]).length then
      some (members.map Prod.fst ++ [key]).toFinset
    else none

end ObjectFrame

inductive Frame where
  | array (items : List Json)
  | object (object : ObjectFrame)

/-- What a frame adds to a pointer: the index or the key its open end stands at. -/
def Frame.pointerText : Frame → List Char
  | .array items => (toString items.length).toList
  | .object frame => Pointer.escape frame.key.toList

/-- The pointer to a key of the innermost open container, whose enclosing ones are `outer`. -/
def pointer (outer : List Frame) (repeated : String) : String :=
  String.ofList (outer.reverse.flatMap (fun frame => '/' :: frame.pointerText) ++
    '/' :: Pointer.escape repeated.toList)

/-- Whether the scan expects a value or holds one. -/
inductive Phase where
  | expects
  | holds (value : Json)

structure Scan where
  frames : List Frame
  phase : Phase
  scanner : Scanner

namespace Scan

abbrev Outcome := Except ScanError Json ⊕ Scan

/-- Opens an array, or reads it whole when it is empty. -/
def openArray (frames : List Frame) (scanner : Scanner) : Outcome :=
  match (Scanner.skipWhitespace scanner.advance).eat ']' with
  | some next => .inr ⟨frames, .holds (.array []), next⟩
  | none => .inr ⟨.array [] :: frames, .expects, Scanner.skipWhitespace scanner.advance⟩

/-- Opens an object and reads its first key, or reads it whole when it is empty. -/
def openObject (frames : List Frame) (scanner : Scanner) : Outcome :=
  match (Scanner.skipWhitespace scanner.advance).eat '\x7d' with
  | some next => .inr ⟨frames, .holds (.object []), next⟩
  | none =>
      match Scanner.key (Scanner.skipWhitespace scanner.advance) with
      | .ok (_, key, next) => .inr ⟨.object ⟨[], key, none⟩ :: frames, .expects, next⟩
      | .error error => .inl (.error error)

def expect (frames : List Frame) (scanner : Scanner) : Outcome :=
  match scanner.peek with
  | some '[' => openArray frames scanner
  | some '\x7b' => openObject frames scanner
  | _ =>
      match Scanner.scalar scanner with
      | .ok (value, next) => .inr ⟨frames, .holds value, next⟩
      | .error error => .inl (.error error)

def holdInArray (outer : List Frame) (items : List Json) (scanner : Scanner) : Outcome :=
  match scanner.eat ',' with
  | some next => .inr ⟨.array items :: outer, .expects, next⟩
  | none =>
      match scanner.eat ']' with
      | some next => .inr ⟨outer, .holds (.array items), next⟩
      | none => .inl (.error (Scanner.unexpected scanner "',' or ']'"))

def holdInObject (outer : List Frame) (object : ObjectFrame) (scanner : Scanner) : Outcome :=
  match scanner.eat ',' with
  | some next =>
      match Scanner.key next with
      | .error error => .inl (.error error)
      | .ok (offset, key, afterKey) =>
          match object.admitKey key with
          | .ok object => .inr ⟨.object object :: outer, .expects, afterKey⟩
          | .error key => .inl (.error ⟨offset, .duplicateKey (pointer outer key)⟩)
  | none =>
      match scanner.eat '\x7d' with
      | some next => .inr ⟨outer, .holds (.object object.members), next⟩
      | none => .inl (.error (Scanner.unexpected scanner "',' or '\x7d'"))

def hold (frames : List Frame) (value : Json) (scanner : Scanner) : Outcome :=
  match frames with
  | [] =>
      if scanner.rest = [] then .inl (.ok value)
      else .inl (.error (Scanner.error scanner .trailing))
  | .array items :: outer => holdInArray outer (items ++ [value]) scanner
  | .object object :: outer => holdInObject outer (object.take value) scanner

/-- One turn of the scan: the value it expects begins, or the value it holds is taken. -/
def step (scan : Scan) : Outcome :=
  match scan.phase with
  | .expects => expect scan.frames (Scanner.skipWhitespace scan.scanner)
  | .holds value => hold scan.frames value (Scanner.skipWhitespace scan.scanner)

end Scan

/-! ## Frames and the texts that open them -/

namespace ObjectFrame

theorem member_isSome_iff {members : List (String × Json)} {key : String} :
    (member members key).isSome ↔ key ∈ members.map Prod.fst := by
  simp [member, List.find?_isSome]

theorem holding_nil (key : String) : holding [] key = ⟨[], key, none⟩ := rfl

/-- Past the linear bound or not, the check is membership among the keys held so far. -/
theorem admitKey_take (members : List (String × Json)) (key : String) (value : Json)
    (next : String) :
    ((holding members key).take value).admitKey next =
      if next ∈ members.map Prod.fst ++ [key] then .error next
      else .ok (holding (members ++ [(key, value)]) next) := by
  have hset : insert next (members.map Prod.fst ++ [key]).toFinset =
      ((members ++ [(key, value)]).map Prod.fst ++ [next]).toFinset := by
    ext other
    simp
    tauto
  by_cases hlinear : linearKeys < (members.map Prod.fst ++ [key]).length
  · have hnext : linearKeys < ((members ++ [(key, value)]).map Prod.fst ++ [next]).length := by
      simp only [List.length_append, List.length_map, List.length_singleton] at hlinear ⊢
      omega
    simp only [admitKey, take, holding, if_pos hlinear, if_pos hnext, List.mem_toFinset, hset]
  · have hkeys : (member (members ++ [(key, value)]) next).isSome ↔
        next ∈ members.map Prod.fst ++ [key] := by
      rw [member_isSome_iff, List.map_append, List.map_singleton]
    simp only [admitKey, take, holding, if_neg hlinear, hkeys]
    refine if_congr Iff.rfl rfl ?_
    have hlength : linearKeys ≤ (members ++ [(key, value)]).length ↔
        linearKeys < ((members ++ [(key, value)]).map Prod.fst ++ [next]).length := by
      simp only [List.length_append, List.length_map, List.length_singleton]
      omega
    by_cases hbound : linearKeys ≤ (members ++ [(key, value)]).length
    · rw [if_pos hbound, if_pos (hlength.mp hbound), ← hset]
      simp
    · rw [if_neg hbound, if_neg (mt hlength.mpr hbound)]

end ObjectFrame

/-- The text that opens a frame: its bracket and what it holds, up to where a value is due. -/
inductive FrameText : List Char → Frame → Prop where
  | array {blank text : List Char} {items : List Json} (hblank : Blank blank)
      (hitems : Spells text (.items items)) (hvalues : ∀ item ∈ items, item.NoRepeat) :
      FrameText ('[' :: (text ++ blank)) (.array items)
  | object {text keyText : List Char} {members : List (String × Json)} {key : String}
      (hmembers : Spells text (.members members)) (hkey : KeyText keyText key)
      (hkeys : (members.map Prod.fst ++ [key]).Nodup)
      (hvalues : ∀ member ∈ members, member.2.NoRepeat) :
      FrameText ('\x7b' :: (text ++ keyText)) (.object (.holding members key))

theorem Spells.ne_nil {text : List Char} {value : Json} (hspells : Spells text (.value value)) :
    text ≠ [] := by
  cases hspells with
  | number number =>
      intro hempty
      have hvalid := number.valid
      rw [hempty] at hvalid
      generalize hnil : ([] : List Char) = text at hvalid
      cases hvalid with
      | number _ hinteger _ _ => cases hinteger <;> simp at hnil
  | string htext =>
      cases htext
      simp
  | _ => simp

/-- The text up to where a value is due inside the open frames. -/
inductive Opened : List Char → List Frame → Prop where
  | document : Opened [] []
  | frame {text blank inner : List Char} {outer : List Frame} {frame : Frame}
      (houter : Opened text outer) (hblank : Blank blank) (hframe : FrameText inner frame) :
      Opened (text ++ (blank ++ inner)) (frame :: outer)

/-- The text up to an object's next key, where the frames around the object are `outer`. -/
inductive Cut : List Char → List Frame → List (String × Json) → Prop where
  | members {text blank inner after : List Char} {outer : List Frame}
      {members : List (String × Json)} (houter : Opened text outer) (hblank : Blank blank)
      (hmembers : Spells inner (.members members)) (hkeys : (members.map Prod.fst).Nodup)
      (hvalues : ∀ member ∈ members, member.2.NoRepeat) (hafter : Blank after) :
      Cut (text ++ (blank ++ ('\x7b' :: (inner ++ after)))) outer members

/-- What a scan has read so far, from where it started. -/
inductive Scan.Read (start : Scanner) : Scan → Prop where
  | expects {text : List Char} {frames : List Frame} {scanner : Scanner}
      (hopened : Opened text frames) (htook : Took start text scanner) :
      Read start ⟨frames, .expects, scanner⟩
  | holds {text blank inner : List Char} {frames : List Frame} {value : Json} {scanner : Scanner}
      (hopened : Opened text frames) (hblank : Blank blank)
      (hvalue : Spells inner (.value value)) (hrepeat : value.NoRepeat)
      (htook : Took start (text ++ (blank ++ inner)) scanner) :
      Read start ⟨frames, .holds value, scanner⟩

/-- A duplicate key is reported where it stands, and by the pointer to it. -/
def Scan.Refused (start : Scanner) (offset : Nat) (path : String) : Prop :=
  ∃ text raw outer members key quote stop, Cut text outer members ∧ StringText raw key ∧
    Took start text quote ∧ Took quote raw stop ∧ quote.offset = offset ∧
    key ∈ members.map Prod.fst ∧ path = pointer outer key

/-- What an accepted or a refused text is known to be. -/
def Scan.Settled (start : Scanner) : Except ScanError Json → Prop
  | .ok value => DocumentText start.rest value ∧ value.NoRepeat
  | .error error => ∀ path, error.reason = .duplicateKey path → Scan.Refused start error.offset path

namespace Scan

variable {start : Scanner}

/-- Where the scan is after reading blanks. -/
theorem Read.took_skipWhitespace {frames : List Frame} {scanner : Scanner}
    (hread : Read start ⟨frames, .expects, scanner⟩) :
    ∃ text blank, Opened text frames ∧ Blank blank ∧
      Took start (text ++ blank) (Scanner.skipWhitespace scanner) := by
  cases hread with
  | expects hopened htook =>
      obtain ⟨blank, hblank, hskipped⟩ := Scanner.skipWhitespace_took scanner
      exact ⟨_, blank, hopened, hblank, htook.trans hskipped⟩

theorem openArray_read {text blank : List Char} {frames : List Frame} {scanner : Scanner}
    {next : Scan} (hopened : Opened text frames) (hblank : Blank blank)
    (htook : Took start (text ++ blank) scanner) (hpeek : scanner.peek = some '[')
    (hstep : openArray frames scanner = .inr next) :
    Read start next := by
  obtain ⟨inside, hinside, hskipped⟩ := Scanner.skipWhitespace_took scanner.advance
  have hbracket := took_advance hpeek
  rw [openArray] at hstep
  split at hstep
  next stop heat =>
    cases hstep
    have hall := hbracket.trans (hskipped.trans (eat_eq_some.mp heat))
    refine .holds hopened hblank (.emptyArray hinside) (.array (by simp)) ?_
    rw [← List.append_assoc]
    exact htook.trans hall
  next =>
    cases hstep
    have hall := hbracket.trans hskipped
    refine .expects (.frame hopened hblank (.array hinside .noItems (by simp))) ?_
    rw [← List.append_assoc]
    exact htook.trans hall

theorem openObject_read {text blank : List Char} {frames : List Frame} {scanner : Scanner}
    {next : Scan} (hopened : Opened text frames) (hblank : Blank blank)
    (htook : Took start (text ++ blank) scanner) (hpeek : scanner.peek = some '\x7b')
    (hstep : openObject frames scanner = .inr next) :
    Read start next := by
  obtain ⟨inside, hinside, hskipped⟩ := Scanner.skipWhitespace_took scanner.advance
  have hbrace := took_advance hpeek
  rw [openObject] at hstep
  split at hstep
  next stop heat =>
    cases hstep
    have hall := hbrace.trans (hskipped.trans (eat_eq_some.mp heat))
    refine .holds hopened hblank (.emptyObject hinside) (.object (by simp) (by simp)) ?_
    rw [← List.append_assoc]
    exact htook.trans hall
  next =>
    split at hstep
    next offset key stop hkey =>
      cases hstep
      obtain ⟨before, raw, after, middle, hbefore, hraw, hafter, hlead, _, hrest⟩ :=
        Scanner.key_took hkey
      have hall := hbrace.trans (hskipped.trans (hlead.trans hrest))
      have hkeyText : KeyText ((inside ++ before) ++ (raw ++ (after ++ [':']))) key :=
        .key (hinside.append hbefore) hraw hafter
      have hframe : FrameText ('\x7b' :: ([] ++ ((inside ++ before) ++ (raw ++ (after ++ [':'])))))
          (.object (.holding [] key)) :=
        .object .noMembers hkeyText (by simp) (by simp)
      refine .expects (.frame hopened hblank hframe) ?_
      have hwhole := htook.trans hall
      simpa [List.append_assoc] using hwhole
    next => cases hstep

theorem expect_read {text blank : List Char} {frames : List Frame} {scanner : Scanner}
    {next : Scan} (hopened : Opened text frames) (hblank : Blank blank)
    (htook : Took start (text ++ blank) scanner) (hstep : expect frames scanner = .inr next) :
    Read start next := by
  rw [expect] at hstep
  split at hstep
  next hpeek => exact openArray_read hopened hblank htook hpeek hstep
  next hpeek => exact openObject_read hopened hblank htook hpeek hstep
  next =>
    split at hstep
    next value stop hscalar =>
      cases hstep
      obtain ⟨inner, hvalue, hrepeat, hinner⟩ := Scanner.scalar_took hscalar
      refine .holds hopened hblank hvalue hrepeat ?_
      rw [← List.append_assoc]
      exact htook.trans hinner
    next => cases hstep

theorem holdInArray_read {text blank inner after : List Char} {outer : List Frame}
    {items : List Json} {value : Json} {scanner : Scanner} {next : Scan}
    (hopened : Opened text (.array items :: outer)) (hblank : Blank blank)
    (hvalue : Spells inner (.value value)) (hrepeat : value.NoRepeat) (hafter : Blank after)
    (htook : Took start (text ++ (blank ++ (inner ++ after))) scanner)
    (hstep : holdInArray outer (items ++ [value]) scanner = .inr next) :
    Read start next := by
  cases hopened with
  | frame houter hlead hframe =>
      cases hframe with
      | array hinside hitems hnone =>
          have hall : ∀ item ∈ items ++ [value], item.NoRepeat :=
            List.forall_mem_append.mpr ⟨hnone, by simpa using hrepeat⟩
          rw [holdInArray] at hstep
          split at hstep
          next stop hcomma =>
            cases hstep
            have hcomma := eat_eq_some.mp hcomma
            have hread := hitems.item (hinside.append hblank) hvalue hafter
            refine .expects (.frame houter hlead (.array .nil hread hall)) ?_
            have hwhole := htook.trans hcomma
            simpa [List.append_assoc] using hwhole
          next =>
            split at hstep
            next stop hbracket =>
              cases hstep
              have hbracket := eat_eq_some.mp hbracket
              refine .holds houter hlead
                (hitems.array (hinside.append hblank) hvalue hafter) (.array hall) ?_
              have hwhole := htook.trans hbracket
              simpa [List.append_assoc] using hwhole
            next => cases hstep

/-- What is known of an object whose pending key awaits its value. -/
theorem Opened.object {text : List Char} {outer : List Frame} {object : ObjectFrame}
    (hopened : Opened text (.object object :: outer)) :
    ∃ lead space members keyText held key, Opened lead outer ∧ Blank space ∧
      Spells members (.members held) ∧ KeyText keyText key ∧
      text = lead ++ (space ++ ('\x7b' :: (members ++ keyText))) ∧
      object = .holding held key ∧ (held.map Prod.fst ++ [key]).Nodup ∧
      ∀ member ∈ held, member.2.NoRepeat := by
  cases hopened with
  | frame houter hlead hframe =>
      cases hframe with
      | object hmembers hkey hkeys hvalues =>
          exact ⟨_, _, _, _, _, _, houter, hlead, hmembers, hkey, rfl, rfl, hkeys, hvalues⟩

theorem holdInObject_read {text blank inner after : List Char} {outer : List Frame}
    {object : ObjectFrame} {value : Json} {scanner : Scanner} {next : Scan}
    (hopened : Opened text (.object object :: outer)) (hblank : Blank blank)
    (hvalue : Spells inner (.value value)) (hrepeat : value.NoRepeat) (hafter : Blank after)
    (htook : Took start (text ++ (blank ++ (inner ++ after))) scanner)
    (hstep : holdInObject outer (object.take value) scanner = .inr next) :
    Read start next := by
  obtain ⟨lead, space, membersText, keyText, held, key, houter, hspace, hmembers, hkey, rfl, rfl,
    hkeys, hheld⟩ := Opened.object hopened
  have hvalues : ∀ member ∈ held ++ [(key, value)], member.2.NoRepeat :=
    List.forall_mem_append.mpr ⟨hheld, by simpa using hrepeat⟩
  rw [holdInObject] at hstep
  split at hstep
  next stop hcomma =>
    split at hstep
    next => cases hstep
    next offset following afterKey hfollowing =>
      rw [ObjectFrame.admitKey_take] at hstep
      split at hstep
      next object' hadmitted =>
        cases hstep
        split at hadmitted
        next => cases hadmitted
        next hnew =>
          cases hadmitted
          obtain ⟨before, raw, behind, middle, hbefore, hraw, hbehind, hskipped, _, hrest⟩ :=
            Scanner.key_took hfollowing
          have hcomma := eat_eq_some.mp hcomma
          have hall := hcomma.trans (hskipped.trans hrest)
          have hread := hmembers.member hkey hblank hvalue hafter
          have hfollows : KeyText (before ++ (raw ++ (behind ++ [':']))) following :=
            .key hbefore hraw hbehind
          have hdistinct : ((held ++ [(key, value)]).map Prod.fst ++ [following]).Nodup := by
            simp only [List.map_append, List.map_singleton]
            exact hkeys.append (List.nodup_singleton _) (by simpa using hnew)
          refine .expects (.frame houter hspace (.object hread hfollows hdistinct hvalues)) ?_
          have hwhole := htook.trans hall
          simpa [List.append_assoc] using hwhole
      next => cases hstep
  next =>
    split at hstep
    next stop hbrace =>
      cases hstep
      have hbrace := eat_eq_some.mp hbrace
      have hdistinct : ((held ++ [(key, value)]).map Prod.fst).Nodup := by
        simpa [List.map_append] using hkeys
      refine .holds houter hspace (hmembers.object hkey hblank hvalue hafter)
        (.object hdistinct hvalues) ?_
      have hwhole := htook.trans hbrace
      simpa [List.append_assoc] using hwhole
    next => cases hstep

/-- A turn keeps what is known of the text it has read. -/
theorem Read.step {scan next : Scan} (hread : Read start scan) (hstep : scan.step = .inr next) :
    Read start next := by
  cases hread with
  | expects hopened htook =>
      obtain ⟨text, blank, hopened, hblank, hskipped⟩ :=
        (Read.expects hopened htook).took_skipWhitespace
      exact expect_read hopened hblank hskipped hstep
  | holds hopened hblank hvalue hrepeat htook =>
      rename_i frames value scanner
      obtain ⟨after, hafter, hskipped⟩ := Scanner.skipWhitespace_took scanner
      have hwhole := htook.trans hskipped
      rw [List.append_assoc, List.append_assoc] at hwhole
      simp only [Scan.step, hold] at hstep
      rcases frames with _ | ⟨⟨items⟩ | ⟨object⟩, outer⟩
      · simp only at hstep
        split at hstep <;> cases hstep
      · exact holdInArray_read hopened hblank hvalue hrepeat hafter hwhole hstep
      · exact holdInObject_read hopened hblank hvalue hrepeat hafter hwhole hstep

/-! ## The scan ends -/

theorem eat_shorter {scanner next : Scanner} {char : Char} (heat : scanner.eat char = some next) :
    next.rest.length < scanner.rest.length :=
  Scanner.Took.length_lt (eat_eq_some.mp heat) (by simp)

theorem key_shorter {scanner stop : Scanner} {offset : Nat} {key : String}
    (hkey : scanner.key = .ok (offset, key, stop)) : stop.rest.length < scanner.rest.length := by
  obtain ⟨before, raw, after, middle, _, _, _, hlead, _, hrest⟩ := Scanner.key_took hkey
  exact Scanner.Took.length_lt (hlead.trans hrest) (by simp)

theorem skipWhitespace_le (scanner : Scanner) :
    (Scanner.skipWhitespace scanner).rest.length ≤ scanner.rest.length := by
  obtain ⟨blank, _, hskipped⟩ := Scanner.skipWhitespace_took scanner
  have hlength := hskipped.length_eq
  omega

theorem expect_shorter {frames : List Frame} {scanner : Scanner} {next : Scan}
    (hstep : expect frames scanner = .inr next) :
    next.scanner.rest.length < scanner.rest.length := by
  have hskipped := skipWhitespace_le scanner.advance
  rw [expect] at hstep
  split at hstep
  next hpeek =>
    have hbracket := Scanner.Took.length_lt (took_advance hpeek) (by simp)
    rw [openArray] at hstep
    split at hstep
    next heat =>
      cases hstep
      exact (eat_shorter heat).trans_le (hskipped.trans hbracket.le)
    next =>
      cases hstep
      exact hskipped.trans_lt hbracket
  next hpeek =>
    have hbrace := Scanner.Took.length_lt (took_advance hpeek) (by simp)
    rw [openObject] at hstep
    split at hstep
    next heat =>
      cases hstep
      exact (eat_shorter heat).trans_le (hskipped.trans hbrace.le)
    next =>
      split at hstep
      next hkey =>
        cases hstep
        exact (key_shorter hkey).trans_le (hskipped.trans hbrace.le)
      next => cases hstep
  next =>
    split at hstep
    next value stop hscalar =>
      cases hstep
      obtain ⟨inner, hvalue, _, hinner⟩ := Scanner.scalar_took hscalar
      exact Scanner.Took.length_lt hinner hvalue.ne_nil
    next => cases hstep

theorem hold_shorter {frames : List Frame} {value : Json} {scanner : Scanner} {next : Scan}
    (hstep : hold frames value scanner = .inr next) :
    next.scanner.rest.length < scanner.rest.length := by
  rcases frames with _ | ⟨⟨items⟩ | ⟨object⟩, outer⟩
  · rw [hold] at hstep
    split at hstep <;> cases hstep
  · rw [hold, holdInArray] at hstep
    split at hstep
    next hcomma =>
      cases hstep
      exact eat_shorter hcomma
    next =>
      split at hstep
      next hbracket =>
        cases hstep
        exact eat_shorter hbracket
      next => cases hstep
  · rw [hold, holdInObject] at hstep
    split at hstep
    next hcomma =>
      split at hstep
      next => cases hstep
      next hkey =>
        split at hstep
        next =>
          cases hstep
          exact (key_shorter hkey).trans (eat_shorter hcomma)
        next => cases hstep
    next =>
      split at hstep
      next hbrace =>
        cases hstep
        exact eat_shorter hbrace
      next => cases hstep

theorem step_shorter (scan next : Scan) (hstep : scan.step = .inr next) :
    next.scanner.rest.length < scan.scanner.rest.length := by
  have hskipped := skipWhitespace_le scan.scanner
  rw [step] at hstep
  split at hstep
  next => exact (expect_shorter hstep).trans_le hskipped
  next => exact (hold_shorter hstep).trans_le hskipped

def loop : Loop Scan (Except ScanError Json) where
  step := step
  measure scan := scan.scanner.rest.length
  decreases := step_shorter

end Scan

/-- Reads one value, with optional blanks around it, from where the scanner stands. -/
def Scanner.document (scanner : Scanner) : Except ScanError Json :=
  Scan.loop.run ⟨[], .expects, scanner⟩

/-- Reads one value from bytes. -/
def scan (bytes : List UInt8) : Except ScanError Json :=
  if maxReplyBytes < bytes.length then .error ⟨maxReplyBytes, .tooLarge⟩
  else
    match Utf8.decode bytes 0 with
    | .error offset => .error ⟨offset, .notUtf8⟩
    | .ok text => Scanner.document ⟨text, 0⟩

end Plasmosome.Reply
