import Plasmosome.Backend.CodecForms
import Plasmosome.Guest.ObservationCodec
import Plasmosome.Journal.Record

/-!
# Where an attachment came from, as a value

A registry's identity, a release and its digest each have one text. An attachment's
source is an object tagged by its kind, and a registry source names a plasmid.
-/

namespace Plasmosome.Journal

open Foundation Backend
open Serde (Codec Fields Value)

/-- Why a text is no reference. -/
inductive ArtifactRefError where
  | registryId (text : String)
  | digest (text : String)
  | identifier (field text : String)
  | version (text : String)
deriving DecidableEq, Repr

/-! ## Texts -/

namespace RegistryId

/-- The canonical lower-case hyphenated form. -/
def display (id : RegistryId) : String :=
  String.ofList (['-'].intercalate (Uuid.groups (Uuid.digits id.uuid)))

/-- Of the forms an identity can be read from, only the canonical one is accepted. -/
def parse (text : String) : Except ArtifactRefError RegistryId :=
  match Uuid.parse text with
  | some uuid =>
      if nonNil : uuid ≠ 0 then
        let id : RegistryId := ⟨uuid, nonNil⟩
        if id.display = text then .ok id else .error (.registryId text)
      else .error (.registryId text)
  | none => .error (.registryId text)

theorem parse_display (id : RegistryId) : parse id.display = .ok id := by
  have hparse : Uuid.parse id.display = some id.uuid :=
    Uuid.parse_groups id.uuid String.toList_ofList
  rw [parse, hparse]
  exact (dif_pos id.nonNil).trans (if_pos rfl)

def codec : Codec RegistryId where
  encode := fun id => some (.string id.display)
  decode := fun value => value.asStr.bind fun text => (parse text).toOption
  Valid := fun _ => True
  reads := by
    intro id _
    refine ⟨.string id.display, rfl, ?_⟩
    rw [Value.asStr_string, Option.bind_some, parse_display]
    rfl

end RegistryId

def digestScheme : List Char := "sha256:".toList

def displayDigest (digest : Digest) : String :=
  String.ofList (digestScheme ++ (Guest.hex digest.bytes).toList)

/-- Accepts exactly `sha256:` and 64 lower-case hexadecimal digits. -/
def parseDigest (text : String) : Except ArtifactRefError Digest :=
  if digestScheme.isPrefixOf text.toList then
    match Guest.parseHex (String.ofList (text.toList.drop digestScheme.length)) with
    | .ok bytes => .ok ⟨bytes⟩
    | .error _ => .error (.digest text)
  else .error (.digest text)

theorem parseDigest_display (digest : Digest) :
    parseDigest (displayDigest digest) = .ok digest := by
  have hscheme : digestScheme.isPrefixOf (displayDigest digest).toList = true := by
    rw [displayDigest, String.toList_ofList, List.isPrefixOf_iff_prefix]
    exact List.prefix_append _ _
  rw [parseDigest, if_pos hscheme, displayDigest, String.toList_ofList,
    List.drop_left, String.ofList_toList, Guest.parseHex_hex]

def digestCodec : Codec Digest where
  encode := fun digest => some (.string (displayDigest digest))
  decode := fun value => value.asStr.bind fun text => (parseDigest text).toOption
  Valid := fun _ => True
  reads := by
    intro digest _
    refine ⟨.string (displayDigest digest), rfl, ?_⟩
    rw [Value.asStr_string, Option.bind_some, parseDigest_display]
    rfl

/-! ## Releases -/

/-- Checks one publisher or name: groups of lower-case letters and digits joined by hyphens. -/
def checkIdentifier (field text : String) : Except ArtifactRefError Unit :=
  let segmentsValid := (text.toList.splitOn '-').all fun segment =>
    segment ≠ [] && segment.all fun char => char.isLower || char.isDigit
  if text.utf8ByteSize ≤ 64 ∧ segmentsValid then .ok () else .error (.identifier field text)

/-- Checks one exact version. The text is never interpreted. -/
def checkVersion (text : String) : Except ArtifactRefError Unit :=
  let startsAlphanumeric := text.toList.head?.any Char.isAlphanum
  let restValid := text.toList.all fun char =>
    char.isAlphanum || char = '.' || char = '_' || char = '-'
  if text.utf8ByteSize ≤ 128 ∧ startsAlphanumeric ∧ restValid then .ok ()
  else .error (.version text)

/-- Refuses the first field that fails. -/
def ReleaseKey.checked (key : ReleaseKey) : Except ArtifactRefError Unit := do
  checkIdentifier "publisher" key.publisher
  checkIdentifier "name" key.name
  checkVersion key.version

def ArtifactKind.codec : Codec ArtifactKind :=
  Backend.named
    (fun
      | .plasmid => "plasmid"
      | .genome => "genome")
    (fun
      | "plasmid" => some .plasmid
      | "genome" => some .genome
      | _ => none)
    (by rintro ⟨⟩ <;> rfl)

def Population.codec : Codec Population :=
  Backend.named
    (fun
      | .curated => "curated"
      | .user => "user")
    (fun
      | "curated" => some .curated
      | "user" => some .user
      | _ => none)
    (by rintro ⟨⟩ <;> rfl)

/-- A release is written flat, its digest beside the fields of its key. -/
def ReleaseRef.codec : Codec ReleaseRef :=
  .screened (fun release => passes ReleaseKey.checked release.key) <|
    .through
      (.object (.field "kind" ArtifactKind.codec (.field "population" Population.codec
        (.field "publisher" .string (.field "name" .string (.field "version" .string
          (.field "digest" digestCodec .nil)))))) (by decide))
      (fun release => (release.key.kind, release.key.population, release.key.publisher,
        release.key.name, release.key.version, release.digest, ()))
      (fun (kind, population, publisher, name, version, digest, _) =>
        ⟨⟨kind, population, publisher, name, version⟩, digest⟩) fun _ => rfl

/-! ## Sources -/

namespace AttachmentSource

def keys : List String := ["kind", "registry_id", "root", "member"]

def encode : AttachmentSource → Option Value
  | .local => some (.object [("kind", .string "local")])
  | .registry registryId root member => do
      let registryId ← RegistryId.codec.encode registryId
      let root ← ReleaseRef.codec.encode root
      let member ← ReleaseRef.codec.encode member
      some (.object [("kind", .string "registry"), ("registry_id", registryId), ("root", root),
        ("member", member)])

/-- The source among the members of an object. A local source has no member but its kind. -/
def decodeMembers (members : List (String × Value)) : Option AttachmentSource := do
  let kind ← members.lookup "kind"
  match ← kind.asStr with
  | "local" => if members.length = 1 then some .local else none
  | "registry" => do
      let member ← ReleaseRef.codec.decode (← members.lookup "member")
      if member.key.kind = .plasmid then
        let registryId ← RegistryId.codec.decode (← members.lookup "registry_id")
        let root ← ReleaseRef.codec.decode (← members.lookup "root")
        some (.registry registryId root member)
      else none
  | _ => none

/-- Each key of the four at most once, and no other. -/
def decode : Value → Option AttachmentSource
  | .object members =>
      if (members.map Prod.fst).Nodup ∧ ∀ key ∈ members.map Prod.fst, key ∈ keys then
        decodeMembers members
      else none
  | _ => none

/-- The releases pass their checks and the member is a plasmid. -/
def Valid : AttachmentSource → Prop
  | .local => True
  | .registry _ root member => root.key.checked = .ok () ∧ member.key.checked = .ok () ∧
      member.key.kind = .plasmid

theorem releaseCodec_valid {release : ReleaseRef} (hchecked : release.key.checked = .ok ()) :
    ReleaseRef.codec.Valid release :=
  ⟨passes_iff.mpr hchecked, trivial, trivial, trivial, trivial, trivial, trivial, trivial⟩

theorem decode_encode (source : AttachmentSource) (hvalid : source.Valid) :
    ∃ value, source.encode = some value ∧ decode value = some source := by
  cases source with
  | «local» => exact ⟨_, rfl, rfl⟩
  | registry registryId root member =>
      obtain ⟨hroot, hmember, hplasmid⟩ := hvalid
      obtain ⟨idValue, hid, hidRead⟩ := RegistryId.codec.reads registryId trivial
      obtain ⟨rootValue, hrootWritten, hrootRead⟩ :=
        ReleaseRef.codec.reads root (releaseCodec_valid hroot)
      obtain ⟨memberValue, hmemberWritten, hmemberRead⟩ :=
        ReleaseRef.codec.reads member (releaseCodec_valid hmember)
      refine ⟨_, by simp [encode, hid, hrootWritten, hmemberWritten]; rfl, ?_⟩
      rw [decode, if_pos]
      · simp [decodeMembers, List.lookup, hidRead, hrootRead, hmemberRead, hplasmid]
      · simp [keys]

def codec : Codec AttachmentSource := ⟨encode, decode, Valid, decode_encode⟩

/-- Checks that a registry member is a plasmid named as the change's plugin. -/
def validateMember (source : AttachmentSource) (plugin : PluginId) :
    Except JournalRuleError Unit :=
  match source with
  | .registry _ _ member =>
      if member.key.kind ≠ .plasmid ∨ member.key.name ≠ plugin.name then
        .error ⟨.invalidSource, "member " ++ debugString member.key.name ++ " is not the plasmid " ++
          debugString plugin.name⟩
      else .ok ()
  | .local => .ok ()

end AttachmentSource

/-! ## What is written and read -/

theorem RegistryId.codec_writes {bound : Nat} : RegistryId.codec.Writes bound := by
  rintro id _ ⟨⟩
  exact .string _

theorem digestCodec_writes {bound : Nat} : digestCodec.Writes bound := by
  rintro digest _ ⟨⟩
  exact .string _

theorem ReleaseRef.codec_writes : ReleaseRef.codec.Writes 1 :=
  Codec.writes_screened <| Codec.writes_through <| Codec.writes_object <|
    Fields.writes_field Backend.named_writes <|
    Fields.writes_field Backend.named_writes <|
    Fields.writes_field Codec.writes_string <|
    Fields.writes_field Codec.writes_string <|
    Fields.writes_field Codec.writes_string <|
    Fields.writes_field digestCodec_writes Fields.writes_nil

theorem AttachmentSource.codec_writes : AttachmentSource.codec.Writes 2 := by
  intro source value hencode
  cases source with
  | «local» =>
      cases hencode
      exact .object (by decide) (List.forall_mem_singleton.mpr (.string _))
  | registry registryId root member =>
      change AttachmentSource.encode (.registry registryId root member) = some value at hencode
      rw [AttachmentSource.encode] at hencode
      obtain ⟨idValue, hid, hencode⟩ := Option.bind_eq_some_iff.mp hencode
      obtain ⟨rootValue, hroot, hencode⟩ := Option.bind_eq_some_iff.mp hencode
      obtain ⟨memberValue, hmember, hencode⟩ := Option.bind_eq_some_iff.mp hencode
      cases hencode
      refine .object (by simp) ?_
      simp only [List.forall_mem_cons, List.not_mem_nil, false_implies, implies_true, and_true]
      exact ⟨.string _, RegistryId.codec_writes registryId idValue hid,
        ReleaseRef.codec_writes root rootValue hroot,
        ReleaseRef.codec_writes member memberValue hmember⟩

theorem ReleaseRef.checked_of_decode {value : Value} {release : ReleaseRef}
    (hdecode : ReleaseRef.codec.decode value = some release) : release.key.checked = .ok () := by
  have hcheck : passes ReleaseKey.checked release.key = true :=
    (Option.filter_eq_some_iff.mp hdecode).2
  exact passes_iff.mp hcheck

theorem AttachmentSource.codec_sound : AttachmentSource.codec.Sound := by
  intro value source hdecode
  change AttachmentSource.decode value = some source at hdecode
  unfold AttachmentSource.decode at hdecode
  split at hdecode
  next members =>
    split at hdecode
    next =>
      obtain ⟨kind, -, hdecode⟩ := Option.bind_eq_some_iff.mp hdecode
      obtain ⟨name, -, hdecode⟩ := Option.bind_eq_some_iff.mp hdecode
      split at hdecode
      · split at hdecode
        · cases hdecode
          trivial
        · cases hdecode
      · obtain ⟨memberValue, -, hdecode⟩ := Option.bind_eq_some_iff.mp hdecode
        obtain ⟨member, hmember, hdecode⟩ := Option.bind_eq_some_iff.mp hdecode
        split at hdecode
        next hplasmid =>
          obtain ⟨idValue, -, hdecode⟩ := Option.bind_eq_some_iff.mp hdecode
          obtain ⟨registryId, -, hdecode⟩ := Option.bind_eq_some_iff.mp hdecode
          obtain ⟨rootValue, -, hdecode⟩ := Option.bind_eq_some_iff.mp hdecode
          obtain ⟨root, hroot, hdecode⟩ := Option.bind_eq_some_iff.mp hdecode
          cases hdecode
          exact ⟨ReleaseRef.checked_of_decode hroot, ReleaseRef.checked_of_decode hmember, hplasmid⟩
        next => cases hdecode
      · cases hdecode
    next => cases hdecode
  next => cases hdecode

end Plasmosome.Journal
