import Plasmosome.Membrane.InitramfsEntry

/-!
# One reading of an archive

The loop of the audit, and what it accepts: the bytes that write well-listed members
and a trailer, and whose members bind the expected policy.
-/

namespace Plasmosome.Membrane.Initramfs

open Foundation

/-! ## Progress -/

theorem word_add {first second sum : Nat} (hsum : word (Words.add first second) = .ok sum) :
    first + second = sum := by
  simp only [word_eq_ok, Words.add, Option.ite_none_right_eq_some, Option.some.injEq] at hsum
  exact hsum.2

theorem padded_le {bytes : List UInt8} {start stop : Nat}
    (hpadded : padded bytes start = .ok stop) :
    start ≤ stop := by
  simp only [padded, bind_eq_ok, word_eq_ok] at hpadded
  obtain ⟨next, hnext, gap, hgap, zeros, -, hstop⟩ := hpadded
  simp only [Words.sub, Option.ite_none_right_eq_some] at hgap
  split at hstop
  next => simp [bind_eq_ok] at hstop
  next =>
    cases hstop
    exact hgap.1

theorem take_le {bytes part : List UInt8} {start length : Nat}
    (htake : take bytes start length = .ok part) : start + length ≤ bytes.length := by
  unfold take at htake
  split at htake
  next stop hstop =>
    simp only [Words.add, Option.ite_none_right_eq_some, Option.some.injEq] at hstop
    split at htake
    next hwithin => omega
    next => cases htake
  next => cases htake

/-- An entry ends past its start, so the walk ends. -/
theorem readBody_advances {bytes : List UInt8} {start filesize namesize : Nat} {mode nlink : UInt32}
    {entry : Entry} (hread : readBody bytes start mode nlink filesize namesize = .ok entry) :
    start < entry.stop := by
  simp only [readBody, bind_eq_ok] at hread
  obtain ⟨nameAt, hnameAt, raw, -, name, -, afterName, hafterName, dataAt, hdataAt, data, -,
    afterData,
    hafterData, stop, hstop, hentry⟩ := hread
  have hheader := word_add hnameAt
  have hname := word_add hafterName
  have hgap := padded_le hdataAt
  have hdata := word_add hafterData
  have hend := padded_le hstop
  cases hentry
  simp only [HEADER_BYTES] at hheader
  change start < stop
  omega

/-- An entry lies within the archive and ends after it starts. -/
theorem readEntry_advances {bytes : List UInt8} {start : Nat} {entry : Entry}
    (hread : readEntry bytes start = .ok entry) : start < entry.stop ∧ start < bytes.length := by
  simp only [readEntry, bind_eq_ok] at hread
  obtain ⟨-, -, header, hheader, fields, -, hmatch⟩ := hread
  have hroom := take_le hheader
  simp only [HEADER_BYTES] at hroom
  refine ⟨?_, by omega⟩
  split at hmatch
  next =>
    split at hmatch
    next => simp at hmatch
    next =>
      split at hmatch
      next => simp at hmatch
      next =>
        split at hmatch
        next => simp at hmatch
        next => exact readBody_advances hmatch
  next => cases hmatch

/-! ## The loop -/

section Audit

variable (sha256 : List UInt8 → Digest) (bytes : List UInt8) (expected : Digest)

/-- The entries from an offset on, after those that were passed. -/
def auditFrom (passed : Passed) (start : Nat) : Audit InitramfsBinding :=
  match _hread : readEntry bytes start with
  | .error stop => .error stop
  | .ok entry =>
      if entry.name = TRAILER then auditTrailer sha256 bytes expected passed entry
      else
        match judge entry passed.seen with
        | .error stop => .error stop
        | .ok () => auditFrom (passed.keep entry) entry.stop
termination_by bytes.length - start
decreasing_by
  have hadvances := readEntry_advances _hread
  omega

def auditNewc : Audit InitramfsBinding := auditFrom sha256 bytes expected ⟨[], none, none⟩ 0

variable {sha256 bytes expected}

theorem auditFrom_of_entry {passed : Passed} {start : Nat} {entry : Entry}
    (hread : readEntry bytes start = .ok entry) :
    auditFrom sha256 bytes expected passed start =
      if entry.name = TRAILER then auditTrailer sha256 bytes expected passed entry
      else judge entry passed.seen >>= fun _ =>
        auditFrom sha256 bytes expected (passed.keep entry) entry.stop := by
  rw [auditFrom]
  split
  next stop hother =>
    rw [hread] at hother
    cases hother
  next other hother =>
    rw [hread] at hother
    cases hother
    split
    next => rfl
    next => cases judge entry passed.seen <;> rfl

theorem auditFrom_of_error {passed : Passed} {start : Nat} {stop : Stop}
    (hread : readEntry bytes start = .error stop) :
    auditFrom sha256 bytes expected passed start = .error stop := by
  rw [auditFrom]
  split
  next other hother =>
    rw [hread] at hother
    cases hother
    rfl
  next other hother =>
    rw [hread] at hother
    cases hother

end Audit

/-! ## Judging -/

/-- What the loop keeps is what the members it passed say. -/
structure Tracks (members : List Member) (passed : Passed) : Prop where
  count : passed.seen.length = members.length
  seen : ∀ name, (List.lookup name passed.seen).isSome ↔ ∃ member ∈ members, member.name = name
  directory : ∀ name, List.lookup name passed.seen = some true ↔
    ∃ member ∈ members, member.name = name ∧ member.Directory
  init : ∀ value, passed.init = some value ↔ ∃ member ∈ members,
    member.name = INIT_NAME ∧ member.Regular ∧ value = (member.header.mode, member.data)
  policy : ∀ value, passed.policy = some value ↔ ∃ member ∈ members,
    member.name = POLICY_NAME ∧ member.Regular ∧ value = member.data

theorem tracks_nil : Tracks [] ⟨[], none, none⟩ := by
  constructor <;> simp

theorem nameFault_eq_none {name : List Char} :
    nameFault name = none ↔
      ∀ part ∈ name.splitOn '/', part ≠ [] ∧ part ≠ ['.'] ∧ part ≠ ['.', '.'] := by
  have hempty : [] ∉ name.splitOn '/' → name.head? ≠ some '/' ∧ name.getLast? ≠ some '/' := by
    intro hparts
    constructor
    · intro hhead
      obtain ⟨rest, rfl⟩ := List.head?_eq_some_iff.mp hhead
      refine hparts ?_
      rw [List.splitOn_eq_splitOnP, ← List.nil_append ('/' :: rest),
        List.splitOnP_append_cons _ _ (by decide)]
      exact List.mem_append_left _ List.mem_cons_self
    · intro hlast
      obtain ⟨front, rfl⟩ := List.getLast?_eq_some_iff.mp hlast
      refine hparts ?_
      rw [List.splitOn_eq_splitOnP, List.splitOnP_append_cons _ _ (by decide)]
      exact List.mem_append_right _ List.mem_cons_self
  unfold nameFault
  constructor
  · intro hnone part hpart
    split at hnone
    next => cases hnone
    next =>
      split at hnone
      next => cases hnone
      next =>
        split at hnone
        next => cases hnone
        next hparts =>
          split at hnone
          next => cases hnone
          next hdots =>
            simp only [List.any_eq_true, not_exists, not_and, List.isEmpty_iff, Bool.or_eq_true,
              beq_iff_eq, not_or] at hparts hdots
            exact ⟨hparts part hpart, hdots part hpart⟩
  · intro hparts
    obtain ⟨hhead, hlast⟩ := hempty fun hmem => (hparts [] hmem).1 rfl
    rw [if_neg hhead, if_neg hlast, if_neg, if_neg]
    · simp only [List.any_eq_true, not_exists, not_and, Bool.or_eq_true, beq_iff_eq, not_or]
      exact fun part hpart => (hparts part hpart).2
    · simp only [List.any_eq_true, not_exists, not_and, List.isEmpty_iff]
      exact fun part hpart => (hparts part hpart).1

/-- The parent of a name stands before its last slash. -/
theorem parentOf_eq_some {name parent : List Char} :
    parentOf name = some parent ↔ ∃ base, name = parent ++ '/' :: base ∧ '/' ∉ base := by
  have hsplit := @List.takeWhile_append_dropWhile _ (· != '/') name.reverse
  unfold parentOf
  constructor
  · intro hparent
    split at hparent
    next => cases hparent
    next char before hdrop =>
      cases hparent
      have hslash : char = '/' := by
        have hhead := List.head?_dropWhile_not (· != '/') name.reverse
        rw [hdrop] at hhead
        simpa using hhead
      rw [hdrop, hslash] at hsplit
      refine ⟨(name.reverse.takeWhile (· != '/')).reverse, ?_, ?_⟩
      · have hreverse := congrArg List.reverse hsplit
        simpa using hreverse.symm
      · intro hmem
        have hpassed := List.mem_takeWhile_imp (List.mem_reverse.mp hmem)
        simp at hpassed
  · rintro ⟨base, rfl, hbase⟩
    have hpassed : ∀ char ∈ base.reverse, (char != '/') = true := by
      intro char hmem
      rw [bne_iff_ne]
      rintro rfl
      exact hbase (List.mem_reverse.mp hmem)
    have hreverse : (parent ++ '/' :: base).reverse = base.reverse ++ '/' :: parent.reverse := by
      simp
    have hdrop : (base.reverse ++ '/' :: parent.reverse).dropWhile (· != '/') =
        '/' :: parent.reverse := by
      rw [List.dropWhile_append_of_pos hpassed]
      rfl
    rw [hreverse, hdrop]
    simp

/-- A name passes when its parts are plain. -/
theorem judgeName_eq_ok {entry : Entry} {done : Unit} :
    judgeName entry = .ok done ↔ nameFault entry.name = none := by
  unfold judgeName
  cases nameFault entry.name <;> simp

/-- An entry passes as a file of one link or as a directory without a body. -/
theorem judgeType_eq_ok {entry : Entry} {done : Unit} :
    judgeType entry = .ok done ↔
      entry.mode &&& TYPE_BITS = REGULAR ∧ entry.nlink = 1 ∨
        entry.mode &&& TYPE_BITS = DIRECTORY ∧ entry.data = [] := by
  simp only [judgeType]
  have hdistinct : REGULAR ≠ DIRECTORY := by decide
  split
  next hregular =>
    rw [hregular]
    simp only [true_and, hdistinct, false_and, or_false]
    split
    next hlinks => simp [hlinks]
    next hlinks => simpa using hlinks
  next hother =>
    simp only [hother, false_and, false_or]
    split
    next hdirectory =>
      rw [hdirectory]
      simp only [true_and]
      split
      next hdata => simp [hdata]
      next hdata => simpa using hdata
    next hneither => split <;> simp [hneither]

/-- An entry passes when its parent was seen as a directory. -/
theorem judgeParent_eq_ok {entry : Entry} {seen : Seen} {done : Unit} :
    judgeParent entry seen = .ok done ↔
      ∀ parent, parentOf entry.name = some parent → List.lookup parent seen = some true := by
  unfold judgeParent
  cases parentOf entry.name with
  | none => simp
  | some parent =>
      simp only [Option.some.injEq, forall_eq']
      split
      next hmissing => simp [hmissing]
      next hfound => simpa using hfound

/-- The loop admits a member exactly when it may follow those before it. -/
theorem judge_eq_ok {members : List Member} {passed : Passed} {member : Member} {start stop : Nat}
    {done : Unit} (htracks : Tracks members passed) :
    member.name ≠ TRAILER ∧ judge ⟨start, member.header.mode, member.header.nlink, member.name,
      member.data, stop⟩ passed.seen = .ok done ↔ member.Follows members := by
  simp only [judge, bind_eq_ok, judgeName_eq_ok, judgeType_eq_ok, judgeParent_eq_ok, exists_const]
  constructor
  · rintro ⟨htrailer, hname, hkind, hparent, hfresh⟩
    refine ⟨nameFault_eq_none.mp hname, hkind, ?_, ?_, htrailer⟩
    · intro parent base heq hbase
      exact (htracks.directory parent).mp (hparent parent (parentOf_eq_some.mpr ⟨base, heq, hbase⟩))
    · intro other hmem hsame
      rw [if_pos ((htracks.seen member.name).mpr ⟨other, hmem, hsame⟩)] at hfresh
      simp at hfresh
  · rintro ⟨hplain, hkind, hparent, hfresh, htrailer⟩
    refine ⟨htrailer, nameFault_eq_none.mpr hplain, hkind, ?_, ?_⟩
    · intro parent heq
      obtain ⟨base, hname, hbase⟩ := parentOf_eq_some.mp heq
      exact (htracks.directory parent).mpr (hparent parent base hname hbase)
    · rw [if_neg]
      intro hseen
      obtain ⟨other, hmem, hsame⟩ := (htracks.seen member.name).mp hseen
      exact hfresh other hmem hsame

theorem lookup_insert {seen : Seen} {name : List Char} {directory : Bool}
    (hfresh : List.lookup name seen = none) (other : List Char) :
    List.lookup other (seen.insert name directory) =
        (if other = name then some directory else List.lookup other seen) ∧
      (seen.insert name directory).length = seen.length + 1 := by
  have hkept : List.filter (fun entry => entry.1 != name) seen = seen := by
    rw [List.filter_eq_self]
    intro entry hmem
    have hother := List.lookup_eq_none_iff.mp hfresh entry hmem
    rw [bne_iff_ne] at hother ⊢
    exact hother.symm
  unfold Seen.insert
  rw [hkept]
  refine ⟨?_, rfl⟩
  rw [List.lookup_cons]
  by_cases hsame : other = name
  · simp [hsame]
  · have hdiffers : (other == name) = false := by simpa using hsame
    rw [hdiffers, if_neg hsame]

theorem exists_mem_concat {members : List Member} {member : Member} {property : Member → Prop} :
    (∃ other ∈ members ++ [member], property other) ↔
      (∃ other ∈ members, property other) ∨ property member := by
  simp only [List.mem_append, List.mem_singleton, or_and_right, exists_or, exists_eq_left]

/-- Passing a member that may follow keeps what is said about them all. -/
theorem Tracks.keep {members : List Member} {passed : Passed} {member : Member} {start stop : Nat}
    (htracks : Tracks members passed) (hfollows : member.Follows members) :
    Tracks (members ++ [member]) (passed.keep ⟨start, member.header.mode, member.header.nlink,
      member.name, member.data, stop⟩) := by
  have hunseen : List.lookup member.name passed.seen = none := by
    rw [← Option.not_isSome_iff_eq_none, htracks.seen]
    rintro ⟨other, hmem, hsame⟩
    exact hfollows.fresh other hmem hsame
  have hnamed : ∀ name (property : Member → Prop), member.name = name →
      ¬ ∃ other ∈ members, other.name = name ∧ other.Regular ∧ property other := by
    rintro name property heq ⟨other, hmem, hname, -⟩
    exact hfollows.fresh other hmem (hname.trans heq.symm)
  have hdirectory : (!decide (member.header.mode &&& TYPE_BITS = REGULAR)) = true ↔
      member.Directory := by
    have hdistinct : REGULAR ≠ DIRECTORY := by decide
    rw [Bool.not_eq_true', decide_eq_false_iff_not, Member.Directory]
    rcases hfollows.kind with ⟨hregular, -⟩ | ⟨hdir, -⟩
    · rw [Member.Regular] at hregular
      simp [hregular, hdistinct]
    · rw [Member.Directory] at hdir
      simp [hdir, hdistinct.symm]
  constructor
  · simp only [Passed.keep]
    rw [(lookup_insert hunseen member.name).2, htracks.count, List.length_append,
      List.length_singleton]
  · intro name
    simp only [Passed.keep]
    rw [(lookup_insert hunseen name).1, exists_mem_concat]
    split
    next hsame => simp [hsame]
    next hother =>
      have hdiffers : ¬ member.name = name := fun heq => hother heq.symm
      simp only [hdiffers, or_false]
      exact htracks.seen name
  · intro name
    simp only [Passed.keep]
    rw [(lookup_insert hunseen name).1, exists_mem_concat]
    split
    next hsame =>
      have hnone : ¬ ∃ other ∈ members, other.name = name ∧ other.Directory := by
        rintro ⟨other, hmem, hname, -⟩
        exact hfollows.fresh other hmem (hname.trans hsame)
      rw [or_iff_right hnone, Option.some.injEq, hdirectory, hsame]
      simp only [true_and]
    next hother =>
      have hdiffers : ¬ member.name = name := fun heq => hother heq.symm
      simp only [hdiffers, false_and, or_false]
      exact htracks.directory name
  · intro value
    have hkept := hnamed INIT_NAME fun other => value = (other.header.mode, other.data)
    simp only [Passed.keep, decide_eq_true_eq]
    rw [exists_mem_concat]
    split
    next hinit =>
      rw [or_iff_right (hkept hinit.1), Option.some.injEq, eq_comm]
      simp only [hinit.1, Member.Regular, hinit.2, true_and]
    next hother =>
      have hdiffers : ¬ (member.name = INIT_NAME ∧ member.Regular ∧
          value = (member.header.mode, member.data)) := fun hinit => hother ⟨hinit.1, hinit.2.1⟩
      simp only [hdiffers, or_false]
      exact htracks.init value
  · intro value
    have hkept := hnamed POLICY_NAME fun other => value = other.data
    simp only [Passed.keep, decide_eq_true_eq]
    rw [exists_mem_concat]
    split
    next hpolicy =>
      rw [or_iff_right (hkept hpolicy.1), Option.some.injEq, eq_comm]
      simp only [hpolicy.1, Member.Regular, hpolicy.2, true_and]
    next hother =>
      have hdiffers : ¬ (member.name = POLICY_NAME ∧ member.Regular ∧ value = member.data) :=
        fun hpolicy => hother ⟨hpolicy.1, hpolicy.2.1⟩
      simp only [hdiffers, or_false]
      exact htracks.policy value

/-! ## Members and bytes -/

/-- Every member may follow the ones before the list and those before it in the list. -/
def WellListedAfter (done members : List Member) : Prop :=
  ∀ earlier member later, members = earlier ++ member :: later → member.Follows (done ++ earlier)

theorem wellListedAfter_nil (done : List Member) : WellListedAfter done [] := by
  intro earlier member later heq
  simp at heq

theorem wellListedAfter_cons {done rest : List Member} {member : Member} :
    WellListedAfter done (member :: rest) ↔
      member.Follows done ∧ WellListedAfter (done ++ [member]) rest := by
  constructor
  · intro hlisted
    refine ⟨by simpa using hlisted [] member rest rfl, ?_⟩
    intro earlier other later heq
    have hfollows := hlisted (member :: earlier) other later (by rw [heq, List.cons_append])
    simpa using hfollows
  · rintro ⟨hfollows, hrest⟩ earlier other later heq
    cases earlier with
    | nil =>
        obtain ⟨rfl, -⟩ := List.cons.inj heq
        simpa using hfollows
    | cons first earlier =>
        obtain ⟨rfl, htail⟩ := List.cons.inj heq
        simpa using hrest earlier other later htail

/-- No members are written by a trailer and zeroes. -/
theorem writes_nil {bytes : List UInt8} :
    Writes [] bytes ↔ ∃ trailer ending count, Trailer trailer ∧ trailer.Written ending ∧
      bytes = ending ++ List.replicate count 0 := by
  constructor
  · rintro ⟨texts, trailer, ending, count, htexts, htrailer, hwritten, rfl⟩
    cases htexts
    exact ⟨trailer, ending, count, htrailer, hwritten, rfl⟩
  · rintro ⟨trailer, ending, count, htrailer, hwritten, rfl⟩
    exact ⟨[], trailer, ending, count, List.Forall₂.nil, htrailer, hwritten, rfl⟩

/-- Members are written one behind the other. -/
theorem writes_cons {member : Member} {members : List Member} {bytes : List UInt8} :
    Writes (member :: members) bytes ↔
      ∃ text rest, member.Written text ∧ bytes = text ++ rest ∧ Writes members rest := by
  constructor
  · rintro ⟨texts, trailer, ending, count, htexts, htrailer, hwritten, rfl⟩
    cases htexts with
    | @cons _ text _ texts htext htexts =>
        refine ⟨text, _, htext, ?_, texts, trailer, ending, count, htexts, htrailer, hwritten, rfl⟩
        rw [List.flatten_cons, List.append_assoc]
  · rintro ⟨text, _, htext, rfl, texts, trailer, ending, count, htexts, htrailer, hwritten, rfl⟩
    refine ⟨text :: texts, trailer, ending, count, htexts.cons htext, htrailer, hwritten, ?_⟩
    rw [List.flatten_cons, List.append_assoc]

/-- A member takes a multiple of four bytes. -/
theorem Member.aligned {member : Member} {text : List UInt8} (hwritten : member.Written text) :
    text.length % 4 = 0 := by
  obtain ⟨-, header, hheader, rfl⟩ := hwritten
  have hlength := Header.length_written hheader
  have hname := aligned_padding (110 + member.nameBytes.length)
  have hdata := aligned_padding member.data.length
  simp only [List.length_append]
  omega

theorem Stands.of_drop {bytes text rest : List UInt8} {start : Nat} (hstart : start ≤ bytes.length)
    (hdrop : bytes.drop start = text ++ rest) :
    Stands bytes start text (start + text.length) ∧ bytes.drop (start + text.length) = rest := by
  have hrest : bytes.drop (start + text.length) = rest := by
    rw [← List.drop_drop, hdrop, List.drop_left]
  exact ⟨⟨hstart, rfl, by rw [hrest, hdrop]⟩, hrest⟩

/-- The bytes write at most one list of members. -/
theorem Writes.unique {first second done : List Member} {bytes : List UInt8}
    (hfirst : Writes first bytes) (hsecond : Writes second bytes)
    (hlisted : WellListedAfter done first) (hlisted' : WellListedAfter done second) :
    first = second := by
  induction first generalizing second done bytes with
  | nil =>
      cases second with
      | nil => rfl
      | cons member rest =>
          obtain ⟨trailer, ending, count, htrailer, hwritten, rfl⟩ := writes_nil.mp hfirst
          obtain ⟨text, other, htext, hbytes, -⟩ := writes_cons.mp hsecond
          obtain ⟨rfl, -⟩ := Member.written_unique hwritten htext hbytes
          exact absurd htrailer.1 (wellListedAfter_cons.mp hlisted').1.not_trailer
  | cons member rest ih =>
      obtain ⟨text, other, htext, rfl, hrest⟩ := writes_cons.mp hfirst
      obtain ⟨hfollows, hafter⟩ := wellListedAfter_cons.mp hlisted
      cases second with
      | nil =>
          obtain ⟨trailer, ending, count, htrailer, hwritten, hbytes⟩ := writes_nil.mp hsecond
          obtain ⟨rfl, -⟩ := Member.written_unique htext hwritten hbytes
          exact absurd htrailer.1 hfollows.not_trailer
      | cons member' rest' =>
          obtain ⟨text', other', htext', hbytes, hrest'⟩ := writes_cons.mp hsecond
          obtain ⟨rfl, -, rfl⟩ := Member.written_unique htext htext' hbytes
          rw [ih hrest hrest' hafter (wellListedAfter_cons.mp hlisted').2]

/-! ## What is accepted -/

section Accepted

variable {sha256 : List UInt8 → Digest} {bytes : List UInt8} {expected : Digest}
variable {binding : InitramfsBinding} {members : List Member} {passed : Passed}

/-- The policy is bound exactly when the members bind it. -/
theorem bindPolicy_eq_ok (htracks : Tracks members passed) :
    bindPolicy sha256 passed.init passed.policy expected passed.seen.length = .ok binding ↔
      Binds sha256 expected members binding := by
  rw [htracks.count]
  constructor
  · intro hbind
    unfold bindPolicy at hbind
    split at hbind
    next => simp at hbind
    next mode data hinit =>
      obtain ⟨init, hmem, hname, hregular, hvalue⟩ := (htracks.init _).mp hinit
      obtain ⟨rfl, rfl⟩ := Prod.mk.inj hvalue
      split at hbind
      next => simp at hbind
      next hexecutable =>
        split at hbind
        next => simp at hbind
        next hnonempty =>
          split at hbind
          next => simp at hbind
          next policyData hpolicy =>
            obtain ⟨policy, hpolicyMem, hpolicyName, hpolicyRegular, rfl⟩ :=
              (htracks.policy _).mp hpolicy
            split at hbind
            next => simp at hbind
            next hdigest =>
              have hsame : sha256 policy.data = expected := not_not.mp hdigest
              cases hbind
              exact ⟨init, hmem, policy, hpolicyMem, ⟨hname, hregular, hexecutable, hnonempty⟩,
                ⟨hpolicyName, hpolicyRegular, hsame⟩, by rw [hsame]⟩
  · rintro ⟨init, hmem, policy, hpolicyMem, ⟨hname, hregular, hexecutable, hnonempty⟩,
      ⟨hpolicyName, hpolicyRegular, rfl⟩, rfl⟩
    rw [(htracks.init _).mpr ⟨init, hmem, hname, hregular, rfl⟩,
      (htracks.policy _).mpr ⟨policy, hpolicyMem, hpolicyName, hpolicyRegular, rfl⟩]
    simp only [bindPolicy]
    rw [if_neg hexecutable, if_neg hnonempty, if_neg (not_not.mpr rfl)]

/-- The trailer passes exactly when it ends the archive and the policy is bound. -/
theorem auditTrailer_eq_ok {entry : Entry} (htracks : Tracks members passed) :
    auditTrailer sha256 bytes expected passed entry = .ok binding ↔
      entry.mode &&& TYPE_BITS ≠ SYMLINK ∧ entry.data = [] ∧
        (∃ count, bytes.drop entry.stop = List.replicate count 0) ∧
        Binds sha256 expected members binding := by
  rw [← bindPolicy_eq_ok htracks]
  unfold auditTrailer
  constructor
  · intro haudit
    split at haudit
    next => simp at haudit
    next hlink =>
      split at haudit
      next => simp at haudit
      next hdata =>
        split at haudit
        next => simp [bind_eq_ok] at haudit
        next hzeros =>
          exact ⟨hlink, not_not.mp hdata, ⟨_, findIdx?_ne_zero.mp hzeros⟩, haudit⟩
  · rintro ⟨hlink, hdata, ⟨count, hzeros⟩, hbind⟩
    have hnone : (bytes.drop entry.stop).findIdx? (· ≠ 0) = none := by
      rw [findIdx?_ne_zero, hzeros, List.length_replicate]
    rw [if_neg hlink, if_neg (not_not.mpr hdata), hnone]
    exact hbind

/-- An accepted rest of the archive writes members that may follow those passed. -/
theorem writes_of_auditFrom (hbytes : bytes.length < 2 ^ 63) {start : Nat}
    (haligned : start % 4 = 0) (hstart : start ≤ bytes.length) (htracks : Tracks members passed)
    (haudit : auditFrom sha256 bytes expected passed start = .ok binding) :
    ∃ rest, Writes rest (bytes.drop start) ∧ WellListedAfter members rest ∧
      Binds sha256 expected (members ++ rest) binding := by
  induction hleft : bytes.length - start using Nat.strong_induction_on
    generalizing start members passed with
  | _ left ih =>
      cases hread : readEntry bytes start with
      | error stop =>
          rw [auditFrom_of_error hread] at haudit
          cases haudit
      | ok entry =>
          obtain ⟨hforward, hinside⟩ := readEntry_advances hread
          obtain ⟨member, text, hwritten, hstands, hentry⟩ :=
            (readEntry_eq_ok hbytes haligned hstart).mp hread
          rw [auditFrom_of_entry hread] at haudit
          split at haudit
          next htrailer =>
            obtain ⟨hlink, hdata, ⟨count, hzeros⟩, hbinds⟩ := (auditTrailer_eq_ok htracks).mp haudit
            rw [hentry] at htrailer hlink hdata
            refine ⟨[], writes_nil.mpr ⟨member, text, count, ⟨htrailer, hdata, hlink⟩, hwritten,
              ?_⟩,
              wellListedAfter_nil members, by rwa [List.append_nil]⟩
            rw [hstands.drop_eq, hzeros]
          next htrailer =>
            obtain ⟨done, hjudge, hnext⟩ := bind_eq_ok.mp haudit
            rw [hentry] at hjudge htrailer
            have hfollows := (judge_eq_ok htracks).mp ⟨htrailer, hjudge⟩
            have hkeep := @Tracks.keep members passed member start entry.stop htracks hfollows
            rw [← hentry] at hkeep
            have hmultiple := Member.aligned hwritten
            have hstop := hstands.stop_eq
            obtain ⟨rest, hwrites, hlisted, hbinds⟩ := ih (bytes.length - entry.stop) (by omega)
              (by omega) hstands.stop_le hkeep hnext rfl
            refine ⟨member :: rest, writes_cons.mpr ⟨text, _, hwritten, hstands.drop_eq, hwrites⟩,
              wellListedAfter_cons.mpr ⟨hfollows, hlisted⟩, ?_⟩
            rwa [List.append_assoc, List.singleton_append] at hbinds

/-- Bytes that write members that may follow those passed are accepted. -/
theorem auditFrom_of_writes (hbytes : bytes.length < 2 ^ 63) {rest : List Member} {start : Nat}
    (haligned : start % 4 = 0) (hstart : start ≤ bytes.length) (htracks : Tracks members passed)
    (hwrites : Writes rest (bytes.drop start)) (hlisted : WellListedAfter members rest)
    (hbinds : Binds sha256 expected (members ++ rest) binding) :
    auditFrom sha256 bytes expected passed start = .ok binding := by
  induction rest generalizing start members passed with
  | nil =>
      obtain ⟨trailer, ending, count, ⟨hname, hdata, hlink⟩, hwritten, hdrop⟩ :=
        writes_nil.mp hwrites
      obtain ⟨hstands, hzeros⟩ := Stands.of_drop hstart hdrop
      have hread := (@readEntry_eq_ok bytes start ⟨start, trailer.header.mode, trailer.header.nlink,
        trailer.name, trailer.data, start + ending.length⟩ hbytes haligned hstart).mpr
          ⟨trailer, ending, hwritten, hstands, rfl⟩
      rw [auditFrom_of_entry hread, if_pos hname, auditTrailer_eq_ok htracks]
      rw [List.append_nil] at hbinds
      exact ⟨hlink, hdata, ⟨count, hzeros⟩, hbinds⟩
  | cons member rest ih =>
      obtain ⟨text, after, hwritten, hdrop, hafter⟩ := writes_cons.mp hwrites
      obtain ⟨hfollows, hrest⟩ := wellListedAfter_cons.mp hlisted
      obtain ⟨hstands, hdropped⟩ := Stands.of_drop hstart hdrop
      have hread := (@readEntry_eq_ok bytes start ⟨start, member.header.mode, member.header.nlink,
        member.name, member.data, start + text.length⟩ hbytes haligned hstart).mpr
          ⟨member, text, hwritten, hstands, rfl⟩
      have hmultiple := Member.aligned hwritten
      rw [auditFrom_of_entry hread, if_neg hfollows.not_trailer]
      refine bind_eq_ok.mpr ⟨(), ((judge_eq_ok htracks).mpr hfollows).2, ?_⟩
      refine ih (by change (start + text.length) % 4 = 0; omega) hstands.stop_le
        (htracks.keep hfollows) ?_ hrest ?_
      · rw [hdropped]
        exact hafter
      · rwa [List.append_assoc, List.singleton_append]

end Accepted

/-! ## Refusals -/

section Refused

variable {sha256 : List UInt8 → Digest} {bytes : List UInt8} {expected : Digest} {limit : Nat}

theorem bounded_judge {entry : Entry} {seen : Seen} (hstart : entry.start ≤ limit) :
    Bounded limit (judge entry seen) := by
  unfold judge
  refine bounded_bind ?_ fun _ _ => bounded_bind ?_ fun _ _ => bounded_bind ?_ fun _ _ => ?_
  · unfold judgeName
    split
    next => exact bounded_at hstart rfl
    next => exact bounded_ok _
  · simp only [judgeType]
    split
    next =>
      split
      next => exact bounded_unnamed rfl
      next => exact bounded_ok _
    next =>
      split
      next =>
        split
        next => exact bounded_at hstart rfl
        next => exact bounded_ok _
      next => split <;> exact bounded_unnamed rfl
  · unfold judgeParent
    split
    next =>
      split
      next => exact bounded_unnamed rfl
      next => exact bounded_ok _
    next => exact bounded_ok _
  · split
    next => exact bounded_unnamed rfl
    next => exact bounded_ok _

theorem bounded_bindPolicy {init : Option (UInt32 × List UInt8)} {policy : Option (List UInt8)}
    {entries : Nat} : Bounded limit (bindPolicy sha256 init policy expected entries) := by
  unfold bindPolicy
  split
  next => exact bounded_unnamed rfl
  next =>
    split
    next => exact bounded_unnamed rfl
    next =>
      split
      next => exact bounded_unnamed rfl
      next =>
        split
        next => exact bounded_unnamed rfl
        next =>
          split
          next => exact bounded_unnamed rfl
          next => exact bounded_ok _

theorem bounded_auditTrailer {passed : Passed} {entry : Entry} (hbytes : bytes.length < 2 ^ 63)
    (hstart : entry.start ≤ bytes.length) :
    Bounded bytes.length (auditTrailer sha256 bytes expected passed entry) := by
  unfold auditTrailer
  split
  next => exact bounded_unnamed rfl
  next =>
    split
    next => exact bounded_at hstart rfl
    next =>
      split
      next index hindex =>
        have hwithin := (List.findIdx?_eq_some_iff_getElem.mp hindex).1
        rw [List.length_drop] at hwithin
        rw [Words.add_fits (by omega)]
        refine bounded_bind (bounded_word rfl) fun offset hoffset => ?_
        cases word_eq_ok.mp hoffset
        exact bounded_at (show entry.stop + index ≤ bytes.length by omega) rfl
      next => exact bounded_bindPolicy

/-- An audit never panics, and refuses within the archive. -/
theorem bounded_auditFrom (hbytes : bytes.length < 2 ^ 63) {start : Nat} {passed : Passed}
    (haligned : start % 4 = 0) (hstart : start ≤ bytes.length) :
    Bounded bytes.length (auditFrom sha256 bytes expected passed start) := by
  induction hleft : bytes.length - start using Nat.strong_induction_on
    generalizing start passed with
  | _ left ih =>
      cases hread : readEntry bytes start with
      | error stop =>
          rw [auditFrom_of_error hread]
          intro other hother
          cases hother
          exact bounded_readEntry hbytes hstart stop hread
      | ok entry =>
          obtain ⟨hforward, hinside⟩ := readEntry_advances hread
          obtain ⟨member, text, hwritten, hstands, hentry⟩ :=
            (readEntry_eq_ok hbytes haligned hstart).mp hread
          have hmultiple := Member.aligned hwritten
          have hstop := hstands.stop_eq
          have hbegin : entry.start ≤ bytes.length := by
            rw [hentry]
            exact hstart
          rw [auditFrom_of_entry hread]
          split
          next => exact bounded_auditTrailer hbytes hbegin
          next =>
            refine bounded_bind (bounded_judge hbegin) fun _ _ => ?_
            exact ih (bytes.length - entry.stop) (by omega) (by omega) hstands.stop_le rfl

end Refused

/-! ## The audit as a whole -/

/-- Bytes in memory, which are never more than 2 ^ 63 - 1. -/
structure Slice where
  bytes : List UInt8
  length_lt : bytes.length < 2 ^ 63

/-- An accepted archive has one reading, and it binds the policy: a binding is given exactly
when the bytes write well-listed members and a trailer, and the members bind the expected
policy. The members are the only ones the bytes write. Otherwise the audit ends in a refusal,
without a panic, and an offset it names lies within the archive. -/
theorem audit_has_one_reading (sha256 : List UInt8 → Digest) (archive : Slice) (expected : Digest) :
    (∀ binding, auditNewc sha256 archive.bytes expected = .ok binding ↔
      ∃ members, Writes members archive.bytes ∧ WellListed members ∧
        Binds sha256 expected members binding) ∧
    (∀ first second, Writes first archive.bytes → WellListed first →
      Writes second archive.bytes → WellListed second → first = second) ∧
    ∀ stop, auditNewc sha256 archive.bytes expected = .error stop →
      ∃ refusal, stop = .refused refusal ∧
        ∀ offset, refusal.offset? = some offset → offset ≤ archive.bytes.length := by
  have hbytes := archive.length_lt
  have hstart := Nat.zero_le archive.bytes.length
  refine ⟨fun binding => ⟨?_, ?_⟩, ?_, bounded_auditFrom hbytes (Nat.zero_mod 4) hstart⟩
  · intro haudit
    exact writes_of_auditFrom hbytes (Nat.zero_mod 4) hstart tracks_nil haudit
  · rintro ⟨members, hwrites, hlisted, hbinds⟩
    exact auditFrom_of_writes hbytes (Nat.zero_mod 4) hstart tracks_nil hwrites hlisted hbinds
  · intro first second hfirst hlisted hsecond hlisted'
    exact @Writes.unique first second [] _ hfirst hsecond hlisted hlisted'

end Plasmosome.Membrane.Initramfs
