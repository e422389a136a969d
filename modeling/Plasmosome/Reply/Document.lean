import Plasmosome.Reply.ScanComplete
import Plasmosome.Reply.WriteLaws

/-!
# Documents and repeated keys

A scan accepts exactly the documents whose objects repeat no key, and reads back
what the compact writer writes. A repeated key is reported at its opening quote,
under the pointer to it.
-/

namespace Plasmosome.Reply

open Foundation Foundation.Cursor

/-! ## Acceptance -/

theorem scan_eq_ok {bytes : List UInt8} {value : Json} :
    scan bytes = .ok value ↔ bytes.length ≤ maxReplyBytes ∧
      ∃ text, bytes = Utf8.encode text ∧ Scanner.document ⟨text, 0⟩ = .ok value := by
  rw [scan]
  split
  next hlarge =>
    constructor
    · intro hok
      cases hok
    · intro hok
      exact absurd hok.1 (by omega)
  next hfits =>
    constructor
    · intro hok
      split at hok
      next => cases hok
      next text hdecode => exact ⟨by omega, text, Utf8.decode_eq_ok.mp hdecode, hok⟩
    · intro hok
      obtain ⟨_, text, rfl, hdocument⟩ := hok
      rw [Utf8.decode_encode]
      exact hdocument

/-- A scan accepts exactly the texts of documents that repeat no key. -/
theorem scan_eq_ok_iff_document (bytes : List UInt8) (value : Json) :
    scan bytes = .ok value ↔ bytes.length ≤ maxReplyBytes ∧
      ∃ text, bytes = Utf8.encode text ∧ DocumentText text value ∧ value.NoRepeat := by
  rw [scan_eq_ok]
  refine and_congr_right fun _ => exists_congr fun text => and_congr_right fun _ => ?_
  constructor
  · intro hdocument
    have hsettled := Scan.document_settled ⟨text, 0⟩
    rw [hdocument] at hsettled
    exact hsettled
  · intro hdocument
    exact Scan.document_of_text hdocument.1 hdocument.2

theorem writeCompact_toList (value : Json) :
    (writeCompact value).toList = print .compact 0 value := by
  rw [writeCompact, String.toList_ofList, writeValue_eq_print, List.nil_append]

/-- Exactly the documents without repeated keys are accepted, and what the compact writer writes is
read back as it was. -/
theorem scan_inverts_writeCompact :
    (∀ bytes value, scan bytes = .ok value ↔ bytes.length ≤ maxReplyBytes ∧
      ∃ text, bytes = Utf8.encode text ∧ DocumentText text value ∧ value.NoRepeat) ∧
    ∀ value : Json, value.NoRepeat →
      (Utf8.encode (writeCompact value).toList).length ≤ maxReplyBytes →
        scan (Utf8.encode (writeCompact value).toList) = .ok value := by
  refine ⟨scan_eq_ok_iff_document, ?_⟩
  intro value hrepeat hfits
  have hdocument := DocumentText.document Blank.nil (spells_print value 0) Blank.nil
  refine (scan_eq_ok_iff_document _ value).mpr ⟨hfits, _, rfl, ?_, hrepeat⟩
  rw [writeCompact_toList]
  simpa using hdocument

/-- A value of every kind, with a key that needs escaping. -/
def sampleReply : Json :=
  .object [("a\"", .array [.null, .bool true, .object []]), ("\n", .string "~")]

theorem sampleReply_noRepeat : sampleReply.NoRepeat := by
  refine .object (by decide) ?_
  intro member hmember
  simp only [List.mem_cons, List.not_mem_nil, or_false] at hmember
  rcases hmember with rfl | rfl
  · refine .array ?_
    intro item hitem
    simp only [List.mem_cons, List.not_mem_nil, or_false] at hitem
    rcases hitem with rfl | rfl | rfl
    · exact .null
    · exact .bool true
    · exact .object (by decide) (by simp)
  · exact .string "~"

theorem scan_inverts_writeCompact_sample :
    scan (Utf8.encode (writeCompact sampleReply).toList) = .ok sampleReply :=
  scan_inverts_writeCompact.2 sampleReply sampleReply_noRepeat
    (by rw [writeCompact_toList]; decide +kernel)

/-! ## Repeated keys -/

/-- A text cut where an open object's next key is due: the value it holds so far, the path to that
object, and the object's members. -/
inductive Partial : List Char → Json → List String → List (String × Json) → Prop where
  | here {text after : List Char} {members : List (String × Json)}
      (hmembers : Spells text (.members members)) (hafter : Blank after) :
      Partial ('\x7b' :: (text ++ after)) (.object members) [] members
  | item {text blank inner : List Char} {items : List Json} {tree : Json} {path : List String}
      {members : List (String × Json)} (hitems : Spells text (.items items))
      (hblank : Blank blank) (hinner : Partial inner tree path members) :
      Partial ('[' :: (text ++ (blank ++ inner))) (.array (items ++ [tree]))
        (toString items.length :: path) members
  | member {text keyText blank inner : List Char} {held : List (String × Json)} {key : String}
      {tree : Json} {path : List String} {members : List (String × Json)}
      (hheld : Spells text (.members held)) (hkey : KeyText keyText key) (hblank : Blank blank)
      (hinner : Partial inner tree path members) :
      Partial ('\x7b' :: (text ++ (keyText ++ (blank ++ inner)))) (.object (held ++ [(key, tree)]))
        (key :: path) members

/-- The index a segment of a pointer names, in the one spelling it has. -/
def index? (segment : String) : Option Nat :=
  segment.toNat?.filter fun index => toString index = segment

/-- The value a path leads to. -/
def Json.resolve : List String → Json → Option Json
  | [], value => some value
  | segment :: path, .array items =>
      (index? segment).bind fun index => items[index]?.bind (Json.resolve path)
  | segment :: path, .object members => (member members segment).bind (Json.resolve path)
  | _ :: _, _ => none

theorem index?_toString (index : Nat) : index? (toString index) = some index := by
  have hread : (toString index).toNat? = some index := Nat.toNat?_repr index
  rw [index?, hread]
  simp

theorem member_append_of_notMem {held : List (String × Json)} {key : String}
    (hkey : key ∉ held.map Prod.fst) (value : Json) :
    member (held ++ [(key, value)]) key = some value := by
  have hnone : held.find? (fun member => member.1 = key) = none := by
    rw [List.find?_eq_none]
    intro other hother
    simp only [decide_eq_true_eq]
    intro heq
    exact hkey (heq ▸ List.mem_map_of_mem hother)
  rw [member, List.find?_append, hnone]
  simp

theorem Partial.resolve {text : List Char} {tree : Json} {path : List String}
    {members : List (String × Json)} (hinside : Partial text tree path members)
    (hrepeat : tree.NoRepeat) : tree.resolve path = some (.object members) := by
  induction hinside with
  | here => rfl
  | item _ _ _ ih =>
      cases hrepeat with
      | array hitems =>
          have htree := ih (hitems _ (by simp))
          rw [Json.resolve, index?_toString]
          simpa using htree
  | @member _ _ _ _ held key tree _ _ _ _ _ _ ih =>
      cases hrepeat with
      | object hkeys hvalues =>
          have htree := ih (hvalues _ (List.mem_append_right _ List.mem_cons_self))
          have hkey : key ∉ held.map Prod.fst := by
            rw [List.map_append, List.nodup_append] at hkeys
            intro hmem
            exact hkeys.2.2 key hmem key (by simp) rfl
          rw [Json.resolve, member_append_of_notMem hkey]
          exact htree

/-- The path of an open container, from the outermost one in. -/
def segmentOf : Frame → String
  | .array items => toString items.length
  | .object frame => frame.key

/-- The frames around an open container put its value where their own open ends stand. -/
theorem Opened.cut {text blank inner : List Char} {outer : List Frame} {tree : Json}
    {path : List String} {members : List (String × Json)} (hopened : Opened text outer)
    (hblank : Blank blank) (hinner : Partial inner tree path members) (hrepeat : tree.NoRepeat) :
    ∃ lead whole held, text ++ (blank ++ inner) = lead ++ whole ∧ Blank lead ∧ held.NoRepeat ∧
      Partial whole held (outer.reverse.map segmentOf ++ path) members := by
  induction hopened generalizing blank inner tree path with
  | document => exact ⟨blank, inner, tree, rfl, hblank, hrepeat, hinner⟩
  | frame houter hlead hframe ih =>
      cases hframe with
      | array hinside hitems hvalues =>
          have hitem := Partial.item hitems (hinside.append hblank) hinner
          have hone : ∀ item ∈ [tree], item.NoRepeat := by simpa using hrepeat
          have hheld := Json.NoRepeat.array (List.forall_mem_append.mpr ⟨hvalues, hone⟩)
          obtain ⟨lead, whole, held, htext, hresult⟩ := ih hlead hitem hheld
          refine ⟨lead, whole, held, ?_, by simpa [segmentOf] using hresult⟩
          rw [← htext]
          simp [List.append_assoc]
      | @object _ _ held key hmembers hkey hkeys hvalues =>
          have hmember := Partial.member hmembers hkey hblank hinner
          have hone : ∀ member ∈ [(key, tree)], member.2.NoRepeat := by simpa using hrepeat
          have hdistinct : ((held ++ [(key, tree)]).map Prod.fst).Nodup := by
            simpa [List.map_append] using hkeys
          have hheld := Json.NoRepeat.object hdistinct (List.forall_mem_append.mpr ⟨hvalues, hone⟩)
          obtain ⟨lead, whole, held, htext, hresult⟩ := ih hlead hmember hheld
          refine ⟨lead, whole, held, ?_, by simpa [segmentOf, ObjectFrame.holding] using hresult⟩
          rw [← htext]
          simp [List.append_assoc]

theorem pointerText_eq (frame : Frame) :
    frame.pointerText = Pointer.escape (segmentOf frame).toList := by
  cases frame with
  | array items =>
      rw [Frame.pointerText, segmentOf, Pointer.escape_of_plain]
      intro char hchar
      have hdigit : char.isDigit := by
        have htext : (toString items.length).toList = Nat.toDigits 10 items.length := by
          simp [toString, Nat.repr]
        rw [htext] at hchar
        exact Nat.isDigit_of_mem_toDigits (by decide) (by decide) hchar
      constructor
      · rintro rfl
        cases hdigit
      · rintro rfl
        cases hdigit
  | object frame => rfl

theorem parse_pointer (outer : List Frame) (key : String) :
    Pointer.parse (pointer outer key).toList =
      some ((outer.reverse.map segmentOf ++ [key]).map String.toList) := by
  have hwrite : (pointer outer key).toList =
      Pointer.write ((outer.reverse.map segmentOf ++ [key]).map String.toList) := by
    rw [pointer, String.toList_ofList, Pointer.write, List.map_append, List.flatMap_append]
    simp [-List.map_reverse, List.flatMap_map, pointerText_eq]
  rw [hwrite, Pointer.parse_write]

/-- A duplicate key is reported at its opening quote, under the pointer to it: what stands before it
holds that key in the object the pointer's parent names, and repeats no key so far. -/
theorem duplicateKey_is_reported_where_it_is (bytes : List UInt8) (offset : Nat) (path : String)
    (hscan : scan bytes = .error ⟨offset, .duplicateKey path⟩) :
    ∃ lead before raw after tree segments members key,
      bytes = Utf8.encode (lead ++ (before ++ (raw ++ after))) ∧ Blank lead ∧
      Partial before tree segments members ∧ StringText raw key ∧
      offset = Utf8.size (lead ++ before) ∧
      Pointer.parse path.toList = some ((segments ++ [key]).map String.toList) ∧
      tree.resolve segments = some (.object members) ∧ key ∈ members.map Prod.fst ∧
      tree.NoRepeat := by
  rw [scan] at hscan
  split at hscan
  next => cases hscan
  next =>
    split at hscan
    next => cases hscan
    next text hdecode =>
      have hsettled := Scan.document_settled ⟨text, 0⟩
      rw [hscan] at hsettled
      obtain ⟨read, raw, outer, members, key, quote, stop, hcut, hraw, hquote, hkey, hoffset,
        hheld, hpath⟩ := hsettled path rfl
      cases hcut with
      | members houter hblank hmembers hkeys hvalues hafter =>
          obtain ⟨lead, whole, tree, htext, hlead, hrepeat, hinside⟩ :=
            houter.cut hblank (.here hmembers hafter) (.object hkeys hvalues)
          rw [htext] at hquote
          refine ⟨lead, whole, raw, stop.rest, tree, _, members, key, ?_, hlead, hinside, hraw, ?_,
            ?_, hinside.resolve hrepeat, hheld, hrepeat⟩
          · have hrest := hquote.rest
            rw [hkey.rest, List.append_assoc] at hrest
            rw [← hrest]
            exact Utf8.decode_eq_ok.mp hdecode
          · have hposition := hquote.offset
            rw [hoffset, Nat.zero_add] at hposition
            exact hposition
          · rw [hpath, parse_pointer, List.append_nil]

/-- The error a scan ends with, if it does. -/
def refusal (bytes : List UInt8) : Option ScanError :=
  match scan bytes with
  | .error error => some error
  | .ok _ => none

theorem refusal_eq_some {bytes : List UInt8} {error : ScanError} :
    refusal bytes = some error ↔ scan bytes = .error error := by
  rw [refusal]
  cases scan bytes <;> simp

/-- An array whose second item repeats the key `b~`. -/
def repeatingReply : List Char := "\x7b\"a\": [1, \x7b\"b~\":2, \"b~\":3\x7d]\x7d".toList

theorem duplicateKey_is_reported_where_it_is_nested :
    ∃ lead before raw after tree segments members key,
      Utf8.encode repeatingReply = Utf8.encode (lead ++ (before ++ (raw ++ after))) ∧ Blank lead ∧
      Partial before tree segments members ∧ StringText raw key ∧
      19 = Utf8.size (lead ++ before) ∧
      Pointer.parse "/a/1/b~0".toList = some ((segments ++ [key]).map String.toList) ∧
      tree.resolve segments = some (.object members) ∧ key ∈ members.map Prod.fst ∧
      tree.NoRepeat :=
  duplicateKey_is_reported_where_it_is (Utf8.encode repeatingReply) 19 "/a/1/b~0"
    (refusal_eq_some.mp (by decide +kernel))

end Plasmosome.Reply
