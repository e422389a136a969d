import Plasmosome.Lanes.CpioLaws

/-!
# The lanes' reader and the audit

Reading ends without a panic. The audit accepts what the writer writes when it is
listed as a boot needs it, and what the audit accepts is read as the same entries.
-/

namespace Plasmosome.Lanes.Cpio

open Foundation
open Membrane.Initramfs (Stands Member InitramfsBinding auditNewc Slice INIT_NAME POLICY_NAME)

/-! ## No panic -/

/-- A walk that does not end in a panic. -/
def Safe {α : Type} (result : Walk α) : Prop := result ≠ .error .panicked

section Safe

variable {α β : Type} {cursor : Cursor}

theorem safe_ok (value : α) : Safe (.ok value) := nofun

theorem safe_fail (text : List Char) : Safe (fail text : Walk α) := nofun

theorem safe_bind {first : Walk α} {next : α → Walk β} (hfirst : Safe first)
    (hnext : ∀ value, first = .ok value → Safe (next value)) : Safe (first >>= next) := by
  cases hresult : first with
  | error stop =>
      intro hpanic
      cases hpanic
      exact hfirst hresult
  | ok value => exact hnext value hresult

theorem safe_take (length : Nat) : Safe (cursor.take length) := by
  refine safe_bind ?_ fun stop hstop => ?_
  · cases (Words.add cursor.offset length).filter (· ≤ cursor.bytes.length) <;> nofun
  · simp only [okOr_eq_ok, Option.filter_eq_some_iff, decide_eq_true_eq, Words.add,
      Option.ite_none_right_eq_some, Option.some.injEq] at hstop
    rw [if_pos ⟨by omega, hstop.2⟩]
    exact safe_ok _

theorem safe_field : Safe cursor.field := by
  refine safe_bind (safe_take 8) fun taken _ => ?_
  dsimp only
  split
  next => exact safe_fail _
  next =>
    split
    next => exact safe_ok _
    next => exact safe_fail _

theorem safe_fields (count : Nat) : Safe (cursor.fields count) := by
  induction count generalizing cursor with
  | zero => exact safe_ok _
  | succ count ih =>
      refine safe_bind safe_field fun first _ => ?_
      exact safe_bind ih fun rest _ => safe_ok _

theorem length_fields {count : Nat} {next : Cursor} {values : List UInt32}
    (hfields : cursor.fields count = .ok (values, next)) : values.length = count := by
  induction count generalizing cursor values with
  | zero =>
      cases hfields
      rfl
  | succ count ih =>
      simp only [Cursor.fields, bind_eq_ok, Prod.exists] at hfields
      obtain ⟨value, middle, -, rest, after, hrest, hvalues⟩ := hfields
      cases hvalues
      rw [List.length_cons, ih hrest]

theorem thirteen {α : Type} {list : List α} (hlength : list.length = 13) :
    ∃ a b c d e f g h i j k l m, list = [a, b, c, d, e, f, g, h, i, j, k, l, m] := by
  match list, hlength with
  | [_, _, _, _, _, _, _, _, _, _, _, _, _], _ => exact ⟨_, _, _, _, _, _, _, _, _, _, _, _, _, rfl⟩

theorem safe_readEntry : Safe cursor.readEntry := by
  refine safe_bind (safe_take 6) fun ⟨magic, afterMagic⟩ hmagic => ?_
  obtain ⟨-, hsix⟩ := Cursor.take_before hmagic
  dsimp only
  split
  next =>
    rw [Words.sub_fits (by omega)]
    exact safe_bind (safe_ok _) fun place _ => safe_fail _
  next =>
    refine safe_bind (safe_fields 13) fun ⟨fields, afterFields⟩ hfields => ?_
    dsimp only
    split
    next nameSize _ =>
      refine safe_bind (safe_take nameSize.toNat) fun _ _ => ?_
      split
      next => exact safe_fail _
      next =>
        have hsize := nameSize.toNat_lt
        rw [Words.add_fits (by simp only [HEADER]; omega)]
        refine safe_bind (safe_ok _) fun laid _ => ?_
        refine safe_bind (safe_take _) fun _ _ => ?_
        split
        next => exact safe_ok _
        next =>
          exact safe_bind (safe_take _) fun _ _ => safe_bind (safe_take _) fun _ _ => safe_ok _
    next hother =>
      -- Thirteen fields were read.
      have hlength := length_fields hfields
      obtain ⟨_, _, _, _, _, _, _, _, _, _, _, _, _, rfl⟩ := thirteen hlength
      exact absurd rfl (hother _ _ _ _ _ _ _ _ _ _ _ _ _)

theorem safe_readFrom (entries : List Entry) : Safe (readFrom cursor entries) := by
  induction hleft : cursor.bytes.length - cursor.offset using Nat.strong_induction_on
    generalizing cursor entries with
  | _ left ih =>
      cases hread : cursor.readEntry with
      | error stop =>
          rw [readFrom_of_error hread]
          intro hpanic
          cases hpanic
          exact safe_readEntry hread
      | ok result =>
          obtain ⟨entry, next⟩ := result
          cases entry with
          | none =>
              rw [readFrom_of_trailer hread]
              exact safe_ok _
          | some entry =>
              obtain ⟨hbefore, hforward⟩ := Cursor.readEntry_before hread
              have hbytes := hbefore.bytes_eq
              have hend := hbefore.within
              rw [readFrom_of_entry hread]
              refine ih (next.bytes.length - next.offset) ?_ _ rfl
              rw [hbytes] at hend ⊢
              omega

end Safe

/-! ## The audit reads the same -/

/-- The audit's entries from an offset on, one after another, and the trailer it ends at. -/
inductive AuditReads (bytes : List UInt8) :
    Nat → List Membrane.Initramfs.Entry → Membrane.Initramfs.Entry → Prop
  | trailer {start : Nat} {entry : Membrane.Initramfs.Entry} :
      Membrane.Initramfs.readEntry bytes start = .ok entry → entry.name = TRAILER →
        AuditReads bytes start [] entry
  | entry {start : Nat} {entry last : Membrane.Initramfs.Entry}
      {rest : List Membrane.Initramfs.Entry} :
      Membrane.Initramfs.readEntry bytes start = .ok entry → entry.name ≠ TRAILER →
        AuditReads bytes entry.stop rest last → AuditReads bytes start (entry :: rest) last

/-- The two readings of an entry agree on its name, mode and body. -/
def Agrees (audited : Membrane.Initramfs.Entry) (entry : Entry) : Prop :=
  audited.name = entry.name ∧ audited.mode = entry.mode ∧ audited.data = entry.data

/-- Both walks read the members that the bytes write, and end at one trailer. -/
theorem readings_of_writes {bytes : List UInt8} {members : List Member} {start : Nat}
    (hbytes : bytes.length < 2 ^ 63) (haligned : start % 4 = 0) (hstart : start ≤ bytes.length)
    (hnames : ∀ member ∈ members, member.name ≠ TRAILER)
    (hwrites : Membrane.Initramfs.Writes members (bytes.drop start)) :
    ∃ audited last, AuditReads bytes start audited last ∧
      Reads ⟨bytes, start⟩ (members.map entryOf) ⟨bytes, last.start⟩ ∧
      Cursor.readEntry ⟨bytes, last.start⟩ = .ok (none, ⟨bytes, last.stop⟩) ∧
      List.Forall₂ Agrees audited (members.map entryOf) := by
  induction members generalizing start with
  | nil =>
      obtain ⟨trailer, ending, count, ⟨hname, hdata, -⟩, hwritten, hdrop⟩ :=
        Membrane.Initramfs.writes_nil.mp hwrites
      replace hname : trailer.name = TRAILER := hname
      obtain ⟨hstands, -⟩ := Stands.of_drop hstart hdrop
      have haudit := (@Membrane.Initramfs.readEntry_eq_ok bytes start ⟨start, trailer.header.mode,
        trailer.header.nlink, trailer.name, trailer.data, start + ending.length⟩ hbytes haligned
          hstart).mpr ⟨trailer, ending, hwritten, hstands, rfl⟩
      have hread :=
        readEntry_of_laidOut hbytes (written_iff_laidOut.mp hwritten).2 hstands fun _ => hdata
      rw [if_pos hname] at hread
      exact ⟨[], _, AuditReads.trailer haudit hname, Reads.here _, hread, List.Forall₂.nil⟩
  | cons member rest ih =>
      obtain ⟨text, after, hwritten, hdrop, hafter⟩ := Membrane.Initramfs.writes_cons.mp hwrites
      obtain ⟨hstands, hdropped⟩ := Stands.of_drop hstart hdrop
      have hname := hnames member List.mem_cons_self
      have haudit := (@Membrane.Initramfs.readEntry_eq_ok bytes start ⟨start, member.header.mode,
        member.header.nlink, member.name, member.data, start + text.length⟩ hbytes haligned
          hstart).mpr ⟨member, text, hwritten, hstands, rfl⟩
      have hread := readEntry_of_laidOut hbytes (written_iff_laidOut.mp hwritten).2 hstands
        fun htrailer => absurd htrailer hname
      rw [if_neg hname] at hread
      have hmultiple := Membrane.Initramfs.Member.aligned hwritten
      obtain ⟨audited, last, hreads, hwalk, hlast, hagree⟩ := ih (by omega) hstands.stop_le
        (fun other hmem => hnames other (List.mem_cons_of_mem member hmem)) (hdropped.symm ▸ hafter)
      exact ⟨_ :: audited, last, AuditReads.entry haudit hname hreads, Reads.entry hread hwalk,
        hlast,
        List.Forall₂.cons ⟨rfl, rfl, rfl⟩ hagree⟩

/-! ## What is written is accepted -/

def Entry.Regular (entry : Entry) : Prop := entry.mode &&& 0o170000 = 0o100000

def Entry.Directory (entry : Entry) : Prop := entry.mode &&& 0o170000 = S_IFDIR

/-- Entries an audit is for: files and body-less directories with names of at most 4095 bytes,
each parent directory before its children. -/
structure Listed (entries : List Entry) : Prop where
  kinds : ∀ entry ∈ entries, entry.Regular ∨ entry.Directory ∧ entry.data = []
  names : ∀ entry ∈ entries, Utf8.size entry.name ≤ 4095
  parents : ∀ earlier entry later, entries = earlier ++ entry :: later → ∀ parent base,
    entry.name = parent ++ '/' :: base → '/' ∉ base →
      ∃ directory ∈ earlier, directory.name = parent ∧ directory.Directory

/-- A file that can be run as the first program. -/
def Entry.Init (entry : Entry) : Prop :=
  entry.name = INIT_NAME ∧ entry.Regular ∧ entry.mode &&& 0o111 ≠ 0 ∧ entry.data ≠ []

theorem sized_of_memberOf {entry : Entry} {links : UInt32} {member : Member} {text : List UInt8}
    (hmember : MemberOf entry links member) (hlaid : LaidOut member text)
    (hplain : PlainName entry.name)
    (hsize : Utf8.size entry.name ≤ 4095) : member.Written text := by
  have hname : member.name = entry.name := congrArg Entry.name hmember.entry_eq
  have hlength : member.nameBytes.length = Utf8.size entry.name + 1 := by
    rw [Member.nameBytes, List.length_append, Utf8.length_encode, hname]
    rfl
  refine written_iff_laidOut.mpr ⟨⟨hmember.check_eq, hlaid.1, hlaid.2.1, ?_, by omega, ?_⟩, hlaid⟩
  · rw [hlength]
    cases htext : entry.name with
    | nil =>
        have hparts := hplain.parts
        rw [htext] at hparts
        exact absurd rfl (hparts [] (by decide)).1
    | cons char rest =>
        have hpos := char.utf8Size_pos
        rw [Utf8.size_cons]
        omega
  · rw [hname]
    intro hmem
    obtain ⟨char, hchar, hbyte⟩ := List.mem_flatMap.mp hmem
    have hval := Utf8.val_of_mem_encodeChar (by decide) hbyte
    have hnul : char = '\x00' := Char.toNat_inj.mp hval
    exact hplain.no_nul (hnul ▸ hchar)

section Accepted

variable {entries : List Entry} {members : List Member} {texts : List (List UInt8)}

theorem memberOf_of_mem
    (hmembers : List.Forall₂ (fun entry member => MemberOf entry (linksOf entry) member)
      entries members) :
    ∀ member ∈ members, MemberOf (entryOf member) (linksOf (entryOf member)) member := by
  induction hmembers with
  | nil => simp
  | cons hmember _ ih =>
      intro other hmem
      rcases List.mem_cons.mp hmem with rfl | hmem
      · rw [hmember.entry_eq]
        exact hmember
      · exact ih other hmem

theorem written_of_laidOut (hlaid : List.Forall₂ LaidOut members texts)
    (hmembers : ∀ member ∈ members, MemberOf (entryOf member) (linksOf (entryOf member)) member ∧
      PlainName member.name ∧ Utf8.size member.name ≤ 4095) :
    List.Forall₂ Member.Written members texts := by
  induction hlaid with
  | nil => exact List.Forall₂.nil
  | @cons member _ _ _ hmember _ ih =>
      obtain ⟨hwritten, hplain, hsize⟩ := hmembers member List.mem_cons_self
      refine List.Forall₂.cons (sized_of_memberOf hwritten hmember hplain hsize) ?_
      exact ih fun other hmem => hmembers other (List.mem_cons_of_mem member hmem)

/-- Each member of well-listed entries may follow those before it. -/
theorem wellListed_of_listed (hlisted : Listed (members.map entryOf))
    (hnames : ∀ entry ∈ members.map entryOf, PlainName entry.name)
    (hnodup : ((members.map entryOf).map Entry.name).Nodup)
    (hmembers : ∀ member ∈ members, MemberOf (entryOf member) (linksOf (entryOf member)) member) :
    Membrane.Initramfs.WellListed members := by
  intro earlier member later hsplit
  have hmem : member ∈ members := by simp [hsplit]
  have hentry : entryOf member ∈ members.map entryOf := List.mem_map_of_mem hmem
  have hname := hnames _ hentry
  refine ⟨hname.parts, ?_, ?_, ?_, hname.not_trailer⟩
  · rcases hlisted.kinds _ hentry with hregular | hdirectory
    · refine Or.inl ⟨hregular, ?_⟩
      have hlinks : linksOf (entryOf member) = 1 := by
        rw [linksOf, if_neg]
        rw [hregular]
        decide
      rw [(hmembers member hmem).links_eq, hlinks]
    · exact Or.inr hdirectory
  · intro parent base heq hbase
    have hentries : members.map entryOf =
        earlier.map entryOf ++ entryOf member :: later.map entryOf := by
      rw [hsplit, List.map_append, List.map_cons]
    obtain ⟨directory, hdirectory, hparent, hkind⟩ :=
      hlisted.parents _ _ _ hentries parent base heq hbase
    obtain ⟨other, hother, rfl⟩ := List.mem_map.mp hdirectory
    exact ⟨other, hother, hparent, hkind⟩
  · intro other hother hsame
    rw [hsplit, List.map_append, List.map_append, List.nodup_append] at hnodup
    refine hnodup.2.2 other.name ?_ member.name ?_ hsame
    · exact List.mem_map_of_mem (List.mem_map_of_mem hother)
    · exact List.mem_cons_self

/-- An archive written from listed entries with an init and the policy is accepted. -/
theorem audit_of_writeNewc {sha256 : List UInt8 → Membrane.Digest} {bytes : List UInt8}
    {init policy : Entry} (hbytes : bytes.length < 2 ^ 63) (hwrite : writeNewc entries = .ok bytes)
    (hlisted : Listed entries) (hinit : init ∈ entries) (hrun : init.Init)
    (hpolicy : policy ∈ entries) (hnamed : policy.name = POLICY_NAME) (hregular : policy.Regular) :
    auditNewc sha256 bytes (sha256 policy.data) =
      .ok ⟨init.data.length, sha256 init.data, sha256 policy.data, entries.length⟩ := by
  obtain ⟨hnames, hnodup, members, texts, last, ending, htexts, hmembers, hlast, hending, rfl⟩ :=
    writeNewc_eq_ok hwrite
  have hall := memberOf_of_mem hmembers
  obtain rfl := entries_eq_map hmembers
  have hwritten := written_of_laidOut htexts fun member hmem =>
    ⟨hall member hmem, hnames _ (List.mem_map_of_mem hmem),
    hlisted.names _ (List.mem_map_of_mem hmem)⟩
  have hname : last.name = TRAILER := congrArg Entry.name hlast.entry_eq
  have hmode : last.header.mode = 0 := congrArg Entry.mode hlast.entry_eq
  have htrailer : Membrane.Initramfs.Trailer last := by
    refine ⟨hname, congrArg Entry.data hlast.entry_eq, ?_⟩
    rw [hmode]
    decide
  have hlastWritten : last.Written ending := by
    have hsame : LaidOut last ending := hending
    refine written_iff_laidOut.mpr ⟨⟨hlast.check_eq, hsame.1, hsame.2.1, ?_, ?_, ?_⟩, hsame⟩
    · rw [Member.nameBytes, hname]
      decide
    · rw [Member.nameBytes, hname]
      decide
    · rw [hname]
      decide
  obtain ⟨initMember, hinitMem, rfl⟩ := List.mem_map.mp hinit
  obtain ⟨policyMember, hpolicyMem, rfl⟩ := List.mem_map.mp hpolicy
  have hwrites : Membrane.Initramfs.Writes members ((texts.flatten ++ ending).drop 0) :=
    ⟨texts, last, ending, 0, hwritten, htrailer, hlastWritten, by simp⟩
  have hwell := wellListed_of_listed hlisted hnames hnodup hall
  refine Membrane.Initramfs.auditFrom_of_writes hbytes (Nat.zero_mod 4) (Nat.zero_le _)
    Membrane.Initramfs.tracks_nil hwrites hwell ?_
  refine ⟨initMember, hinitMem, policyMember, hpolicyMem, hrun, ⟨hnamed, hregular, rfl⟩, ?_⟩
  rw [List.length_map]
  rfl

end Accepted

/-- The writer and both readers share one format. What was written is read back, and an audit
accepts it when the entries are listed as an audit wants them and hold a first program and the
expected policy. What an audit accepts is read as the same entries, up to the same trailer. And
reading ends on all bytes, without a panic. -/
theorem newc_is_one_format (sha256 : List UInt8 → Membrane.Digest) :
    (∀ (entries : List Entry) (archive : Slice), writeNewc entries = .ok archive.bytes →
      readNewc archive.bytes = .ok entries ∧
        (Listed entries → ∀ init ∈ entries, init.Init → ∀ policy ∈ entries,
          policy.name = POLICY_NAME → policy.Regular →
            auditNewc sha256 archive.bytes (sha256 policy.data) =
              .ok ⟨init.data.length, sha256 init.data, sha256 policy.data, entries.length⟩)) ∧
    (∀ (archive : Slice) (expected : Membrane.Digest) (binding : InitramfsBinding),
      auditNewc sha256 archive.bytes expected = .ok binding →
        ∃ audited last entries, AuditReads archive.bytes 0 audited last ∧
          readNewc archive.bytes = .ok entries ∧ entries.length = binding.entries ∧
          List.Forall₂ Agrees audited entries ∧
          Reads ⟨archive.bytes, 0⟩ entries ⟨archive.bytes, last.start⟩ ∧
          Cursor.readEntry ⟨archive.bytes, last.start⟩ = .ok (none, ⟨archive.bytes, last.stop⟩)) ∧
    ∀ archive : Slice, readNewc archive.bytes ≠ .error .panicked := by
  refine ⟨?_, ?_, ?_⟩
  · intro entries archive hwrite
    refine ⟨readNewc_of_writeNewc archive.length_lt hwrite, ?_⟩
    intro hlisted init hinit hrun policy hpolicy hnamed hregular
    exact audit_of_writeNewc archive.length_lt hwrite hlisted hinit hrun hpolicy hnamed hregular
  · intro archive expected binding haudit
    have hbytes := archive.length_lt
    obtain ⟨members, hwrites, hwell, hbinds⟩ := Membrane.Initramfs.writes_of_auditFrom hbytes
      (Nat.zero_mod 4) (Nat.zero_le _) Membrane.Initramfs.tracks_nil haudit
    have hnames : ∀ member ∈ members, member.name ≠ TRAILER := by
      intro member hmem
      obtain ⟨earlier, later, hsplit⟩ := List.append_of_mem hmem
      exact (hwell earlier member later hsplit).not_trailer
    obtain ⟨audited, last, haudited, hreads, hlast, hagree⟩ :=
      readings_of_writes hbytes (Nat.zero_mod 4) (Nat.zero_le _) hnames hwrites
    refine ⟨audited, last, members.map entryOf, haudited, ?_, ?_, hagree, hreads, hlast⟩
    · rw [readNewc, readFrom_of_reads hreads hlast]
      rfl
    · obtain ⟨-, -, -, -, -, -, rfl⟩ := hbinds
      rw [List.length_map, List.nil_append]
  · intro archive
    have hsafe : Safe (readFrom ⟨archive.bytes, 0⟩ []) := safe_readFrom []
    intro hpanic
    rw [readNewc] at hpanic
    cases hread : readFrom ⟨archive.bytes, 0⟩ [] with
    | error stop =>
        rw [hread] at hpanic
        cases hpanic
        exact hsafe hread
    | ok result =>
        rw [hread] at hpanic
        cases hpanic

/-! ## An archive with a first program and a policy -/

def sampleEntries : List Entry :=
  [⟨INIT_NAME, 0o100755, 0, 0, 0, 0, [1, 2, 3]⟩,
    ⟨"plasmosome".toList, 0o040755, 0, 0, 0, 0, []⟩,
    ⟨POLICY_NAME, 0o100644, 0, 0, 0, 0, [7]⟩]

def sampleArchive : Slice where
  bytes := (writeNewc sampleEntries).toOption.getD []
  length_lt := by decide +kernel

theorem sampleArchive_written : writeNewc sampleEntries = .ok sampleArchive.bytes := by
  decide +kernel

/-- The policy stands in one directory. -/
theorem parent_of_policy {parent base : List Char} (hname : POLICY_NAME = parent ++ '/' :: base)
    (hbase : '/' ∉ base) : parent = "plasmosome".toList := by
  have hcount : parent.count '/' = 0 := by
    have hone : POLICY_NAME.count '/' = 1 := by decide
    rw [hname, List.count_append, List.count_cons_self, List.count_eq_zero_of_not_mem hbase] at hone
    omega
  have hparent : ∀ char ∈ parent, (char != '/') = true := by
    intro char hchar
    rw [bne_iff_ne]
    rintro rfl
    exact List.count_eq_zero.mp hcount hchar
  have htake : POLICY_NAME.takeWhile (· != '/') = parent := by
    rw [hname, List.takeWhile_append_of_pos hparent]
    simp
  rw [← htake]
  decide

theorem sampleEntries_listed : Listed sampleEntries where
  kinds := by
    simp only [sampleEntries, List.forall_mem_cons]
    exact ⟨.inl rfl, .inr ⟨rfl, trivial⟩, .inl rfl, nofun⟩
  names := by
    simp only [sampleEntries, List.forall_mem_cons]
    exact ⟨by decide, by decide, by decide, nofun⟩
  parents := by
    intro earlier entry later hsplit parent base hname hbase
    have hslash : '/' ∈ entry.name := by simp [hname]
    rcases earlier with _ | ⟨first, _ | ⟨second, _ | ⟨third, more⟩⟩⟩
    · cases hsplit
      exact absurd hslash (by decide)
    · cases hsplit
      exact absurd hslash (by decide)
    · cases hsplit
      have hparent := parent_of_policy hname hbase
      exact ⟨_, List.mem_cons_of_mem _ List.mem_cons_self, hparent.symm, rfl⟩
    · simp [sampleEntries] at hsplit

/-- A hash that tells the program from the policy. -/
def sampleHash (bytes : List UInt8) : Membrane.Digest :=
  ⟨List.replicate 32 (UInt8.ofNat bytes.length), List.length_replicate⟩

theorem newc_is_one_format_sample :
    readNewc sampleArchive.bytes = .ok sampleEntries ∧
      auditNewc sampleHash sampleArchive.bytes (sampleHash [7]) =
        .ok ⟨3, sampleHash [1, 2, 3], sampleHash [7], 3⟩ := by
  obtain ⟨hread, haudit⟩ :=
    (newc_is_one_format sampleHash).1 sampleEntries sampleArchive sampleArchive_written
  refine ⟨hread, haudit sampleEntries_listed ⟨INIT_NAME, 0o100755, 0, 0, 0, 0, [1, 2, 3]⟩
    (by simp [sampleEntries]) ⟨rfl, rfl, by decide, by simp⟩
    ⟨POLICY_NAME, 0o100644, 0, 0, 0, 0, [7]⟩ (by simp [sampleEntries]) rfl rfl⟩

end Plasmosome.Lanes.Cpio
