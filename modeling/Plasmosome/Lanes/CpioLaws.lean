import Plasmosome.Lanes.Cpio
import Plasmosome.Membrane.InitramfsAudit

/-!
# Writing and reading newc

What the writer writes is one member after another, each laid out with the sizes its
header says, and the cursor reads a member wherever it is laid out.
-/

namespace Plasmosome.Lanes.Cpio

open Foundation
open Membrane.Initramfs (HexText hexNumber toDigit16 Stands Header Member)

/-! ## Numbers -/

theorem toDigit16_hexDigit {value : Nat} (hvalue : value < 16) :
    toDigit16 (UInt8.ofNat (Serde.hexDigit value).toNat) = some (UInt32.ofNat value) := by
  have hall : ∀ digit : Fin 16, toDigit16 (UInt8.ofNat (Serde.hexDigit digit).toNat) =
      some (UInt32.ofNat digit) := by decide
  exact hall ⟨value, hvalue⟩

theorem hexText_hexBytes (field : UInt32) : HexText field (hexBytes field) := by
  refine ⟨rfl, ?_⟩
  have hlt := field.toNat_lt
  have hdigit : ∀ place, toDigit16 (UInt8.ofNat (Serde.hexDigit
      (field.toNat / 16 ^ place % 16)).toNat) =
        some (UInt32.ofNat (field.toNat / 16 ^ place % 16)) :=
    fun place => toDigit16_hexDigit (Nat.mod_lt _ (by decide))
  have hnumber : ∀ place, (UInt32.ofNat (field.toNat / 16 ^ place % 16)).toNat =
      field.toNat / 16 ^ place % 16 := by
    intro place
    rw [UInt32.toNat_ofNat']
    omega
  simp only [hexNumber, hexBytes, List.map_cons, List.map_nil, List.foldlM_cons, List.foldlM_nil,
    hdigit, Option.map_some, hnumber, Option.bind_eq_bind, Option.bind_some, pure]
  congr 1
  omega

theorem toDigit16_low {byte : UInt8} {digit : UInt32} (hdigit : toDigit16 byte = some digit) :
    byte.toNat < 128 ∧ byte ≠ 43 := by
  unfold toDigit16 at hdigit
  simp only [UInt8.le_iff_toNat_le] at hdigit
  constructor
  · by_contra hhigh
    rw [if_neg (by simp; omega), if_neg (by simp; omega), if_neg (by simp; omega)] at hdigit
    cases hdigit
  · rintro rfl
    cases hdigit

theorem digits_of_hexNumber {text : List UInt8} {value : Nat}
    (hnumber : hexNumber text = some value) :
    ∀ byte ∈ text, byte.toNat < 128 ∧ byte ≠ 43 := by
  induction text using List.reverseRecOn generalizing value with
  | nil => simp
  | append_singleton text last ih =>
      rw [Membrane.Initramfs.hexNumber_concat, Option.bind_eq_some_iff] at hnumber
      obtain ⟨high, hhigh, hlow⟩ := hnumber
      obtain ⟨digit, hdigit, -⟩ := Option.map_eq_some_iff.mp hlow
      intro byte hmem
      rcases List.mem_append.mp hmem with hmem | hmem
      · exact ih hhigh byte hmem
      · rw [List.mem_singleton.mp hmem]
        exact toDigit16_low hdigit

theorem toU32_eq_some {value : Nat} {number : UInt32} :
    toU32 value = some number ↔ value = number.toNat := by
  have hlt := number.toNat_lt
  simp only [toU32, Option.ite_none_right_eq_some, Option.some.injEq]
  constructor
  · rintro ⟨hfits, rfl⟩
    rw [UInt32.toNat_ofNat']
    omega
  · rintro rfl
    exact ⟨hlt, UInt32.ofNat_toNat⟩

theorem fromStrRadix16_of_hexText {value : UInt32} {text : List UInt8}
    (htext : HexText value text) :
    Cursor.fromStrRadix16 text = some value := by
  have hdigits := digits_of_hexNumber htext.2
  have hread : (hexNumber text).bind toU32 = some value := by
    rw [htext.2, Option.bind_some, toU32_eq_some]
  unfold Cursor.fromStrRadix16
  split
  next => simp [HexText] at htext
  next => simp [HexText] at htext
  next digits => exact absurd rfl (hdigits 43 List.mem_cons_self).2
  next => exact hread

/-! ## Reading what stands -/

section Standing

variable {bytes part text : List UInt8} {start stop : Nat}

theorem take_of_stands {length : Nat} (hbytes : bytes.length < 2 ^ 63)
    (hstands : Stands bytes start part stop) (hlength : part.length = length) :
    Cursor.take ⟨bytes, start⟩ length = .ok (part, ⟨bytes, stop⟩) := by
  have hstop := hstands.stop_eq
  have hwithin := hstands.stop_le
  have hwhole := drop_eq_window_append bytes (show start ≤ stop by omega)
  have hsame : window bytes start stop = part :=
    List.append_cancel_right (hwhole.symm.trans hstands.drop_eq)
  have hadd : (Words.add start length).filter (· ≤ bytes.length) = some stop := by
    rw [Words.add_fits (by omega), Option.filter_some, if_pos (by simpa using by omega), ← hlength,
      ← hstop]
  simp only [Cursor.take, hadd, okOr]
  refine bind_eq_ok.mpr ⟨stop, rfl, ?_⟩
  rw [if_pos ⟨by omega, hwithin⟩, hsame]

theorem field_of_stands {value : UInt32} (hbytes : bytes.length < 2 ^ 63)
    (hstands : Stands bytes start text stop) (htext : HexText value text) :
    Cursor.field ⟨bytes, start⟩ = .ok (value, ⟨bytes, stop⟩) := by
  obtain ⟨chars, hchars⟩ := Utf8.exists_encode_of_lt
    fun byte hmem => (digits_of_hexNumber htext.2 byte hmem).1
  refine bind_eq_ok.mpr ⟨_, take_of_stands hbytes hstands htext.1, ?_⟩
  dsimp only
  rw [Utf8.decode_eq_ok.mpr hchars]
  dsimp only
  rw [fromStrRadix16_of_hexText htext]

theorem fields_of_stands {values : List UInt32} {texts : List (List UInt8)}
    (hbytes : bytes.length < 2 ^ 63) (htexts : List.Forall₂ HexText values texts)
    (hstands : Stands bytes start texts.flatten stop) :
    Cursor.fields values.length ⟨bytes, start⟩ = .ok (values, ⟨bytes, stop⟩) := by
  induction htexts generalizing start with
  | nil =>
      have hstop : stop = start := hstands.stop_eq
      rw [hstop]
      rfl
  | cons hvalue htexts ih =>
      rw [List.flatten_cons] at hstands
      obtain ⟨hfirst, hrest⟩ := hstands.split
      refine bind_eq_ok.mpr ⟨_, field_of_stands hbytes hfirst hvalue, ?_⟩
      exact bind_eq_ok.mpr ⟨_, ih hrest, rfl⟩

end Standing

/-! ## A member laid out -/

/-- The entry that a member is to the lanes. -/
def entryOf (member : Member) : Entry :=
  ⟨member.name, member.header.mode, member.header.uid, member.header.gid, member.header.rdevmajor,
    member.header.rdevminor, member.data⟩

/-- Bytes that lay out a member: its header with the sizes of its name and body, then both. -/
def LaidOut (member : Member) (text : List UInt8) : Prop :=
  member.header.namesize.toNat = member.nameBytes.length ∧
    member.header.filesize.toNat = member.data.length ∧ ∃ texts,
      List.Forall₂ HexText member.header.fields texts ∧
      text = (MAGIC ++ texts.flatten) ++ (member.nameBytes ++
        (Membrane.Initramfs.padding (110 + member.nameBytes.length) ++
          (member.data ++ Membrane.Initramfs.padding member.data.length)))

theorem written_iff_laidOut {member : Member} {text : List UInt8} :
    member.Written text ↔ member.Sized ∧ LaidOut member text := by
  rw [Member.written_iff]
  constructor
  · rintro ⟨hsized, hlaid⟩
    exact ⟨hsized, hsized.2.1, hsized.2.2.1, hlaid⟩
  · rintro ⟨hsized, -, -, hlaid⟩
    exact ⟨hsized, hlaid⟩

@[simp] theorem stripNul_nameBytes (member : Member) :
    Cursor.stripNul member.nameBytes = Utf8.encode member.name := by
  rw [Cursor.stripNul, Member.nameBytes, if_pos (by simp), List.dropLast_concat]

/-- What the cursor reads where a member is laid out. -/
theorem readEntry_of_laidOut {bytes text : List UInt8} {start stop : Nat} {member : Member}
    (hbytes : bytes.length < 2 ^ 63) (hlaid : LaidOut member text)
    (hstands : Stands bytes start text stop) (hdata : member.name = TRAILER → member.data = []) :
    Cursor.readEntry ⟨bytes, start⟩ =
      .ok (if member.name = TRAILER then none else some (entryOf member), ⟨bytes, stop⟩) := by
  obtain ⟨hname, hbody, texts, htexts, rfl⟩ := hlaid
  obtain ⟨hheader, hrest⟩ := hstands.split
  obtain ⟨hmagic, hfields⟩ := hheader.split
  obtain ⟨hraw, hrest⟩ := hrest.split
  obtain ⟨hgap, hrest⟩ := hrest.split
  obtain ⟨hdataStands, hfill⟩ := hrest.split
  refine bind_eq_ok.mpr ⟨_, take_of_stands hbytes hmagic rfl, ?_⟩
  dsimp only
  rw [if_neg (not_not.mpr rfl)]
  refine bind_eq_ok.mpr ⟨_, fields_of_stands hbytes htexts hfields, ?_⟩
  simp only [Header.fields]
  refine bind_eq_ok.mpr ⟨_, take_of_stands hbytes hraw hname.symm, ?_⟩
  dsimp only
  rw [stripNul_nameBytes, Utf8.decode_encode]
  dsimp only
  have hsize := member.header.namesize.toNat_lt
  have hadd : word (Words.add HEADER member.header.namesize.toNat) =
      .ok (110 + member.nameBytes.length) := by
    rw [Words.add_fits (by simp only [HEADER]; omega), hname]
    rfl
  refine bind_eq_ok.mpr ⟨_, hadd, ?_⟩
  refine bind_eq_ok.mpr ⟨_, take_of_stands hbytes hgap (by simp [padding]), ?_⟩
  dsimp only
  split
  next htrailer =>
    have hempty := hdata htrailer
    have hend := hfill.stop_eq
    rw [hempty] at hend
    rw [hend]
    rfl
  next =>
    refine bind_eq_ok.mpr ⟨_, take_of_stands hbytes hdataStands hbody.symm, ?_⟩
    dsimp only
    refine bind_eq_ok.mpr ⟨_, take_of_stands hbytes hfill (by simp [padding, hbody]), ?_⟩
    rfl

/-! ## The walk -/

/-- The cursor reads the entries, one after another, and comes to a last place. -/
inductive Reads : Cursor → List Entry → Cursor → Prop
  | here (cursor : Cursor) : Reads cursor [] cursor
  | entry {cursor next last : Cursor} {entry : Entry} {rest : List Entry} :
      cursor.readEntry = .ok (some entry, next) → Reads next rest last →
        Reads cursor (entry :: rest) last

theorem readFrom_of_entry {cursor next : Cursor} {entry : Entry} {entries : List Entry}
    (hread : cursor.readEntry = .ok (some entry, next)) :
    readFrom cursor entries = readFrom next (entries ++ [entry]) := by
  rw [readFrom]
  split
  next hother => cases hread.symm.trans hother
  next hother => cases hread.symm.trans hother
  next hother =>
    cases hread.symm.trans hother
    rfl

theorem readFrom_of_trailer {cursor next : Cursor} {entries : List Entry}
    (hread : cursor.readEntry = .ok (none, next)) :
    readFrom cursor entries = .ok (entries, next) := by
  rw [readFrom]
  split
  next hother => cases hread.symm.trans hother
  next hother =>
    cases hread.symm.trans hother
    rfl
  next hother => cases hread.symm.trans hother

theorem readFrom_of_error {cursor : Cursor} {entries : List Entry} {stop : Stop}
    (hread : cursor.readEntry = .error stop) : readFrom cursor entries = .error stop := by
  rw [readFrom]
  split
  next hother =>
    cases hread.symm.trans hother
    rfl
  next hother => cases hread.symm.trans hother
  next hother => cases hread.symm.trans hother

/-- A walk that comes to a trailer returns the entries it read. -/
theorem readFrom_of_reads {cursor last stop : Cursor} {entries before : List Entry}
    (hreads : Reads cursor entries last) (htrailer : last.readEntry = .ok (none, stop)) :
    readFrom cursor before = .ok (before ++ entries, stop) := by
  induction hreads generalizing before with
  | here cursor => rw [readFrom_of_trailer htrailer, List.append_nil]
  | entry hread _ ih =>
      rw [readFrom_of_entry hread, ih htrailer, List.append_assoc, List.singleton_append]

/-- Members laid out one after another are read in their order. -/
theorem reads_of_laidOut {bytes rest : List UInt8} {members : List Member}
    {texts : List (List UInt8)}
    {start : Nat} (hbytes : bytes.length < 2 ^ 63) (hstart : start ≤ bytes.length)
    (hlaid : List.Forall₂ LaidOut members texts)
    (hnames : ∀ member ∈ members, member.name ≠ TRAILER)
    (hdrop : bytes.drop start = texts.flatten ++ rest) :
    ∃ stop, Stands bytes start texts.flatten stop ∧
      Reads ⟨bytes, start⟩ (members.map entryOf) ⟨bytes, stop⟩ := by
  induction hlaid generalizing start with
  | nil => exact ⟨start, ⟨hstart, rfl, rfl⟩, Reads.here _⟩
  | @cons member text members texts hmember hlaid ih =>
      rw [List.flatten_cons, List.append_assoc] at hdrop
      obtain ⟨hstands, hafter⟩ := Stands.of_drop hstart hdrop
      have hname := hnames member List.mem_cons_self
      have hread :=
        readEntry_of_laidOut hbytes hmember hstands fun htrailer => absurd htrailer hname
      rw [if_neg hname] at hread
      obtain ⟨stop, hrest, hreads⟩ := ih hstands.stop_le
        (fun other hmem => hnames other (List.mem_cons_of_mem member hmem)) hafter
      exact ⟨stop, hstands.append hrest, Reads.entry hread hreads⟩

/-! ## What is written -/

/-- The link count the writer gives an entry. -/
def linksOf (entry : Entry) : UInt32 := if entry.mode &&& 0o170000 = S_IFDIR then 2 else 1

/-- A member as the writer lays it out: the entry, with zeros in the fields it does not hold. -/
structure MemberOf (entry : Entry) (links : UInt32) (member : Member) : Prop where
  entry_eq : entryOf member = entry
  links_eq : member.header.nlink = links
  check_eq : member.header.check = 0

theorem hexTexts_hexBytes (fields : List UInt32) :
    List.Forall₂ HexText fields (fields.map hexBytes) := by
  induction fields with
  | nil => exact List.Forall₂.nil
  | cons field fields ih => exact List.Forall₂.cons (hexText_hexBytes field) ih

theorem pushHeader_eq (out : List UInt8) (fields : List UInt32) :
    pushHeader out fields = out ++ (MAGIC ++ (fields.map hexBytes).flatten) := by
  have hall : ∀ before : List UInt8, fields.foldl (fun out field => out ++ hexBytes field) before =
      before ++ (fields.map hexBytes).flatten := by
    induction fields with
    | nil => simp
    | cons field fields ih =>
        intro before
        rw [List.foldl_cons, ih, List.map_cons, List.flatten_cons, List.append_assoc]
  rw [pushHeader, hall, List.append_assoc]

/-- A member that is pushed is laid out after what was written before. -/
theorem pushMember_eq_ok {out result : List UInt8} {ino links : UInt32} {entry : Entry}
    (hpush : pushMember out ino entry links = .ok result) :
    ∃ member text, MemberOf entry links member ∧ LaidOut member text ∧ result = out ++ text := by
  simp only [pushMember, bind_eq_ok, okOr_eq_ok, toU32_eq_some] at hpush
  obtain ⟨size, hsize, nameSize, hname, hresult⟩ := hpush
  refine ⟨⟨⟨ino, entry.mode, entry.uid, entry.gid, links, 0, size, 0, 0, entry.rdevMajor,
    entry.rdevMinor, nameSize, 0⟩, entry.name, entry.data⟩, _, ⟨rfl, rfl, rfl⟩,
    ⟨?_, hsize.symm, _, hexTexts_hexBytes _, rfl⟩, ?_⟩
  · rw [← hname, Member.nameBytes, List.length_append, Utf8.length_encode]
    rfl
  · rw [← Except.ok.inj hresult, pushHeader_eq]
    simp only [Header.fields, Member.nameBytes, Membrane.Initramfs.padding, padding, HEADER,
      List.append_assoc, List.length_append, Utf8.length_encode, List.length_singleton,
      Nat.add_assoc]

/-- A name the writer admits: nonempty parts, none of which is a dot or two, without a NUL. -/
structure PlainName (name : List Char) : Prop where
  parts : ∀ part ∈ name.splitOn '/', part ≠ [] ∧ part ≠ ['.'] ∧ part ≠ ['.', '.']
  no_nul : '\x00' ∉ name
  not_trailer : name ≠ TRAILER

theorem checkName_eq_ok {name : List Char} {done : Unit} :
    checkName name = .ok done ↔ PlainName name := by
  simp only [checkName]
  constructor
  · intro hcheck
    split at hcheck
    next => cases hcheck
    next hplain =>
      simp only [Bool.or_eq_true, Bool.not_eq_true', not_or, Bool.not_eq_false, List.all_eq_true,
        Bool.and_eq_true, List.isEmpty_eq_false_iff, bne_iff_ne, List.contains_eq_mem,
        decide_eq_true_eq, beq_iff_eq] at hplain
      exact ⟨fun part hpart => by simpa [and_assoc] using hplain.1.1 part hpart, hplain.1.2,
        hplain.2⟩
  · rintro ⟨hparts, hnul, htrailer⟩
    rw [if_neg]
    simp only [Bool.or_eq_true, Bool.not_eq_true', not_or, Bool.not_eq_false, List.all_eq_true,
      Bool.and_eq_true, List.isEmpty_eq_false_iff, bne_iff_ne, List.contains_eq_mem,
      decide_eq_true_eq, beq_iff_eq]
    exact ⟨⟨fun part hpart => by simpa [and_assoc] using hparts part hpart, hnul⟩, htrailer⟩

/-- Entries that the writer admits are laid out in their order, under names that all differ. -/
theorem writeEntries_eq_ok {entries : List Entry} {seen : List (List Char)} {index : Nat}
    {out result : List UInt8} (hwrite : writeEntries seen index out entries = .ok result) :
    (∀ entry ∈ entries, PlainName entry.name ∧ entry.name ∉ seen) ∧
      (entries.map Entry.name).Nodup ∧ ∃ members texts, List.Forall₂ LaidOut members texts ∧
        List.Forall₂ (fun entry member => MemberOf entry (linksOf entry) member) entries members ∧
        result = out ++ texts.flatten := by
  induction entries generalizing seen index out with
  | nil =>
      cases hwrite
      exact ⟨by simp, List.nodup_nil, [], [], List.Forall₂.nil, List.Forall₂.nil, by simp⟩
  | cons entry rest ih =>
      rw [writeEntries, check_bind_eq_ok, checkName_eq_ok] at hwrite
      obtain ⟨hname, hwrite⟩ := hwrite
      split at hwrite
      next => cases hwrite
      next hnew =>
        simp only [bind_eq_ok, okOr_eq_ok] at hwrite
        obtain ⟨ino, -, pushed, hpush, hwrite⟩ := hwrite
        obtain ⟨member, text, hwriter, hlaid, rfl⟩ := pushMember_eq_ok hpush
        obtain ⟨hrest, hnodup, members, texts, htexts, hmembers, rfl⟩ := ih hwrite
        refine ⟨?_, ?_, member :: members, text :: texts, htexts.cons hlaid, hmembers.cons hwriter,
          ?_⟩
        · intro other hmem
          rcases List.mem_cons.mp hmem with rfl | hmem
          · exact ⟨hname, hnew⟩
          · obtain ⟨hplain, hunseen⟩ := hrest other hmem
            exact ⟨hplain, fun hseen => hunseen (List.mem_cons_of_mem entry.name hseen)⟩
        · rw [List.map_cons, List.nodup_cons]
          refine ⟨?_, hnodup⟩
          intro hmem
          obtain ⟨other, hother, hsame⟩ := List.mem_map.mp hmem
          exact (hrest other hother).2 (hsame ▸ List.mem_cons_self)
        · rw [List.flatten_cons, List.append_assoc]

/-- What the writer writes: the members of the entries, and the trailer's. -/
theorem writeNewc_eq_ok {entries : List Entry} {bytes : List UInt8}
    (hwrite : writeNewc entries = .ok bytes) :
    (∀ entry ∈ entries, PlainName entry.name) ∧ (entries.map Entry.name).Nodup ∧
      ∃ members texts last ending, List.Forall₂ LaidOut members texts ∧
        List.Forall₂ (fun entry member => MemberOf entry (linksOf entry) member) entries members ∧
        MemberOf trailer 1 last ∧ LaidOut last ending ∧ bytes = texts.flatten ++ ending := by
  simp only [writeNewc, bind_eq_ok] at hwrite
  obtain ⟨out, hentries, hpush⟩ := hwrite
  obtain ⟨hnames, hnodup, members, texts, htexts, hmembers, rfl⟩ := writeEntries_eq_ok hentries
  obtain ⟨last, ending, hlast, hending, rfl⟩ := pushMember_eq_ok hpush
  refine ⟨fun entry hmem => (hnames entry hmem).1, hnodup, members, texts, last, ending, htexts,
    hmembers, hlast, hending, by simp⟩

theorem entries_eq_map {entries : List Entry} {members : List Member}
    (hmembers : List.Forall₂ (fun entry member => MemberOf entry (linksOf entry) member)
      entries members) :
    members.map entryOf = entries := by
  induction hmembers with
  | nil => rfl
  | cons hwriter _ ih => rw [List.map_cons, hwriter.entry_eq, ih]

/-- An archive that was written is read back into its entries. -/
theorem readNewc_of_writeNewc {entries : List Entry} {bytes : List UInt8}
    (hbytes : bytes.length < 2 ^ 63) (hwrite : writeNewc entries = .ok bytes) :
    readNewc bytes = .ok entries := by
  obtain ⟨hnames, -, members, texts, last, ending, htexts, hmembers, hlast, hending, rfl⟩ :=
    writeNewc_eq_ok hwrite
  have hentries := entries_eq_map hmembers
  have hmemberNames : ∀ member ∈ members, member.name ≠ TRAILER := by
    intro member hmem
    have hentry : entryOf member ∈ entries := hentries ▸ List.mem_map_of_mem hmem
    exact (hnames _ hentry).not_trailer
  obtain ⟨stop, hstands, hreads⟩ := reads_of_laidOut hbytes (Nat.zero_le _) htexts hmemberNames rfl
  have hrest : (texts.flatten ++ ending).drop stop = ending ++ [] := by
    rw [hstands.stop_eq, Nat.zero_add, List.drop_left, List.append_nil]
  obtain ⟨hending', -⟩ := Stands.of_drop hstands.stop_le hrest
  have hname : last.name = TRAILER := congrArg Entry.name hlast.entry_eq
  have hread :=
    readEntry_of_laidOut hbytes hending hending' fun _ => congrArg Entry.data hlast.entry_eq
  rw [if_pos hname] at hread
  rw [readNewc, readFrom_of_reads hreads hread, hentries]
  rfl

end Plasmosome.Lanes.Cpio
