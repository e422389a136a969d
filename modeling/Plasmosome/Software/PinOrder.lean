import Plasmosome.Software.PinLaws

/-!
# One pin for one tree

The order a package lists its files in, the order a directory is read in and the order
of the commands do not change what is pinned, and a pinned tree's own commands pin it
again. Trees that encode alike are one tree.
-/

namespace Plasmosome.Software

open Foundation FileTree
open Backend (Digest)

section Order

variable {sha256 : List UInt8 → Digest} {root other : Node} {expected others : List PackageFile}
  {commands : List Text} {tree : PinnedTree}

theorem Collides.symm {first second : Text} (hcollides : Collides first second) :
    Collides second first := by
  rcases hcollides with hsame | hbelow | habove
  · exact Or.inl hsame.symm
  · exact Or.inr (Or.inr hbelow)
  · exact Or.inr (Or.inl habove)

theorem pairwise_perm (hperm : expected.Perm others)
    (hpairwise : expected.Pairwise fun before file => ¬Collides before.path file.path) :
    others.Pairwise fun before file => ¬Collides before.path file.path :=
  hpairwise.perm hperm fun hcollides hback => hcollides hback.symm

/-- What a tree holds does not depend on the order its directories are read in. -/
theorem Holds.rearranged (hsame : root.Rearranged other) (hperm : expected.Perm others)
    (hholds : Holds sha256 root expected) : Holds sha256 other others := by
  refine ⟨?_, fun names node hat => ?_, fun file hfile => ?_⟩
  · obtain ⟨entries, rfl⟩ := hholds.directory
    obtain ⟨node, hnode, halike⟩ := hsame.at (.here _)
    obtain rfl := Node.at_nil_iff.mp hnode
    cases node with
    | directory entries => exact ⟨entries, rfl⟩
    | _ => cases halike
  · obtain ⟨found, hfound, halike⟩ := hsame.symm.at hat
    obtain ⟨texts, rfl, hbelow⟩ := hholds.below names found hfound
    refine ⟨texts, rfl, ?_⟩
    rcases hbelow with ⟨entries, rfl, hempty⟩ | ⟨bytes, rfl, hlisted⟩
    · cases node with
      | directory held =>
          refine Or.inl ⟨held, rfl, fun hnone => hempty ?_⟩
          rw [hnone] at halike
          exact List.length_eq_zero_iff.mp halike.symm
      | _ => cases halike
    · cases node with
      | file held =>
          obtain rfl : held = bytes := halike
          exact Or.inr ⟨held, rfl, (listed_perm hperm _ _).mp hlisted⟩
      | _ => cases halike
  · obtain ⟨texts, bytes, hat, hpath⟩ := hholds.present file (hperm.mem_iff.mpr hfile)
    obtain ⟨found, hfound, halike⟩ := hsame.at hat
    cases found with
    | file held =>
        obtain rfl : bytes = held := halike
        exact ⟨texts, bytes, hfound, hpath⟩
    | _ => cases halike

theorem commandNames_eq (hpin : tree = assemble sha256 (expected.map (pinned commands)))
    (name : Text) :
    name ∈ tree.commandNames ↔ name ∈ commands ∧ ∃ file ∈ expected, file.path = name := by
  subst hpin
  have hperm : (sortByPath TreeFile.path (expected.map (pinned commands))).Perm
      (expected.map (pinned commands)) := sortByKey_perm _
  simp only [PinnedTree.commandNames, assemble, List.mem_map, List.mem_filter, hperm.mem_iff]
  constructor
  · rintro ⟨_, ⟨⟨file, hfile, rfl⟩, hcommand⟩, rfl⟩
    exact ⟨by simpa [pinned] using hcommand, file, hfile, rfl⟩
  · rintro ⟨hcommand, file, hfile, rfl⟩
    exact ⟨pinned commands file, ⟨⟨file, hfile, rfl⟩, by simpa [pinned] using hcommand⟩, rfl⟩

theorem pin_same_commands (hsound : root.Sound)
    (hpin : pin sha256 root expected commands = .ok tree) (hsame : root.Rearranged other)
    (hperm : expected.Perm others) {names : List Text}
    (hmem : ∀ name, name ∈ names ↔ name ∈ commands) :
    pin sha256 other others names = .ok tree := by
  obtain ⟨⟨hrule, hpairwise, hcommands, hholds⟩, htree⟩ := pin_sound hsound hpin
  have hagrees : Agrees sha256 other others names := by
    refine ⟨fun file hfile => hrule file (hperm.mem_iff.mpr hfile), pairwise_perm hperm hpairwise,
      fun name hname => ?_, hholds.rearranged hsame hperm⟩
    obtain ⟨file, hfile, hpath⟩ := hcommands name ((hmem name).mp hname)
    exact ⟨file, hperm.mem_iff.mp hfile, hpath⟩
  rw [pin_complete (hsame.sound hsound) hagrees]
  have hpinned : pinned commands = pinned names := by
    ext1 file
    have hcommand : commands.any (fun command => command = file.path) =
        names.any fun command => command = file.path := by
      rw [Bool.eq_iff_iff]
      simp [hmem]
    rw [pinned, pinned, hcommand]
  rw [htree, hpinned]
  refine congrArg Except.ok (assemble_perm (hperm.symm.map _) ?_)
  rw [List.map_map]
  exact nodup_of_pairwise (pairwise_perm hperm hpairwise)

/-- A tree is pinned as the same one whatever order its directories are read in and its files are
listed in, and whatever order its commands are given in and however often; and so it is from its
own command names. -/
theorem pin_again (hsound : root.Sound) (hpin : pin sha256 root expected commands = .ok tree)
    (hsame : root.Rearranged other) (hperm : expected.Perm others) :
    (∀ names : List Text, (∀ name, name ∈ names ↔ name ∈ commands) →
      pin sha256 other others names = .ok tree) ∧
    ∀ names : List Text, (∀ name, name ∈ names ↔ name ∈ tree.commandNames) →
      pin sha256 other others names = .ok tree := by
  refine ⟨fun names hnames => pin_same_commands hsound hpin hsame hperm hnames,
    fun names hnames => pin_same_commands hsound hpin hsame hperm fun name => ?_⟩
  obtain ⟨⟨-, -, hcommands, -⟩, htree⟩ := pin_sound hsound hpin
  rw [hnames, commandNames_eq htree]
  exact ⟨And.left, fun hname => ⟨hname, hcommands name hname⟩⟩

/-- The tree read from its last entry, listed from its last file, and with a command given twice. -/
theorem toolTree_pinned_again :
    pin toolSha256 (.directory [(Utf8.encode aid, .file []),
        (Utf8.encode lib, .directory [(Utf8.encode data, .file [])]),
        (Utf8.encode tool, .file [7])])
      toolListing.reverse [aid, tool, aid] =
        .ok (assemble toolSha256 (toolListing.map (pinned [tool, aid]))) := by
  refine (pin_again toolTree_sound (pin_complete toolTree_sound (tool_agrees (List.Subset.refl _)))
    (.order ?_) (List.reverse_perm toolListing).symm).1 [aid, tool, aid] fun name => ?_
  · exact List.reverse_perm [_, _, _]
  · simp only [List.mem_cons, List.not_mem_nil, or_false]
    tauto

end Order

/-! ## The encoding of a tree -/

section Encoding

theorem nul_not_mem {path : Text}
    (hrule : followsPathRule path = true) : (0 : UInt8) ∉ Utf8.encode path := by
  intro hmem
  obtain ⟨char, hchar, hbyte⟩ := List.mem_flatMap.mp hmem
  have hcode := Utf8.val_of_mem_encodeChar (by decide) hbyte
  simp only [followsPathRule, Bool.and_eq_true, Bool.not_eq_true', List.any_eq_false] at hrule
  have hplain := hrule.1.2 char hchar
  simp only [isAsciiControl, Bool.or_eq_true, decide_eq_true_eq, not_or] at hplain
  have hzero : char.toNat = 0 := hcode
  omega

theorem hex_injective {first second : Digest}
    (hsame : Utf8.encode (Guest.hex first.bytes).toList =
      Utf8.encode (Guest.hex second.bytes).toList) :
    first = second := by
  have htext : Guest.hex first.bytes = Guest.hex second.bytes :=
    String.toList_inj.mp (Utf8.encode_injective hsame)
  have hparse := Guest.parseHex_hex first.bytes
  rw [htext, Guest.parseHex_hex] at hparse
  cases first
  cases second
  simpa using (Except.ok.inj hparse).symm

theorem append_zero_inj {first second rest more : List UInt8} (hfirst : (0 : UInt8) ∉ first)
    (hsecond : (0 : UInt8) ∉ second) (hsame : first ++ 0 :: rest = second ++ 0 :: more) :
    first = second ∧ rest = more := by
  induction first generalizing second with
  | nil =>
      cases second with
      | nil => exact ⟨rfl, (List.cons.inj hsame).2⟩
      | cons byte second =>
          obtain ⟨rfl, -⟩ := List.cons.inj hsame
          exact absurd List.mem_cons_self hsecond
  | cons byte first ih =>
      cases second with
      | nil =>
          obtain ⟨rfl, -⟩ := List.cons.inj hsame
          exact absurd List.mem_cons_self hfirst
      | cons other second =>
          obtain ⟨rfl, htail⟩ := List.cons.inj hsame
          obtain ⟨rfl, hrest⟩ := ih (fun hmem => hfirst (List.mem_cons_of_mem _ hmem))
            (fun hmem => hsecond (List.mem_cons_of_mem _ hmem)) htail
          exact ⟨rfl, hrest⟩

theorem length_hex (digest : Digest) :
    (Utf8.encode (Guest.hex digest.bytes).toList).length = 64 := by
  rw [Guest.encode_hex, List.length_flatMap]
  simp

theorem encodeFile_append (file : TreeFile) (rest : List UInt8) :
    encodeFile file ++ rest = Utf8.encode file.path ++ 0 ::
      (Utf8.encode (Guest.hex file.sha256.bytes).toList ++
        (0 :: (if file.command then 1 else 0) :: rest)) := by
  simp [encodeFile]

/-- What encodes the files of a tree encodes no other files. -/
theorem encoding_injective {first second : List TreeFile}
    (hfirst : ∀ file ∈ first, followsPathRule file.path = true)
    (hsecond : ∀ file ∈ second, followsPathRule file.path = true)
    (hsame : encoding first = encoding second) : first = second := by
  have hnonempty : ∀ file rest, encodeFile file ++ rest ≠ [] := by
    intro file rest
    rw [encodeFile_append]
    simp
  induction first generalizing second with
  | nil =>
      cases second with
      | nil => rfl
      | cons file rest => exact absurd hsame.symm (hnonempty file (encoding rest))
  | cons file rest ih =>
      cases second with
      | nil => exact absurd hsame (hnonempty file (encoding rest))
      | cons other more =>
          obtain ⟨hfile, hrest⟩ := List.forall_mem_cons.mp hfirst
          obtain ⟨hother, hmore⟩ := List.forall_mem_cons.mp hsecond
          have hbytes : encodeFile file ++ encoding rest = encodeFile other ++ encoding more :=
            hsame
          rw [encodeFile_append, encodeFile_append] at hbytes
          -- the path ends at the first NUL, and the digest has a fixed length
          obtain ⟨hpath, hbytes⟩ := append_zero_inj (nul_not_mem hfile) (nul_not_mem hother) hbytes
          obtain ⟨hdigest, hbytes⟩ := List.append_inj hbytes
            ((length_hex file.sha256).trans (length_hex other.sha256).symm)
          obtain ⟨-, hbytes⟩ := List.cons.inj hbytes
          obtain ⟨hcommand, hbytes⟩ := List.cons.inj hbytes
          have hflag : file.command = other.command := by
            revert hcommand
            cases file.command <;> cases other.command <;> decide
          have heq : file = other := by
            cases file
            cases other
            simp only [TreeFile.mk.injEq]
            exact ⟨Utf8.encode_injective hpath, hex_injective hdigest, hflag⟩
          rw [heq, ih hrest hmore hbytes]

variable {sha256 : List UInt8 → Digest} {root other : Node} {expected others : List PackageFile}
  {commands names : List Text} {first second : PinnedTree}

theorem pinned_paths (hsound : root.Sound) (hpin : pin sha256 root expected commands = .ok first) :
    (∀ file ∈ first.files, followsPathRule file.path = true) ∧
      first.digest = sha256 (encoding first.files) := by
  obtain ⟨⟨hrule, -, -, -⟩, rfl⟩ := pin_sound hsound hpin
  refine ⟨fun file hfile => ?_, rfl⟩
  have hperm : (sortByPath TreeFile.path (expected.map (pinned commands))).Perm
      (expected.map (pinned commands)) := sortByKey_perm _
  obtain ⟨listing, hlisting, rfl⟩ := List.mem_map.mp (hperm.subset hfile)
  exact hrule listing hlisting

/-- Two pinned trees have one digest exactly when they are one: the same paths, file digests and
commands. This needs that the hash does not collide on these two encodings. -/
theorem digest_eq_iff (hroot : root.Sound) (hother : other.Sound)
    (hfirst : pin sha256 root expected commands = .ok first)
    (hsecond : pin sha256 other others names = .ok second)
    (hcollision : sha256 (encoding first.files) = sha256 (encoding second.files) →
      encoding first.files = encoding second.files) :
    first.digest = second.digest ↔ first = second := by
  obtain ⟨hfirstPaths, hfirstDigest⟩ := pinned_paths hroot hfirst
  obtain ⟨hsecondPaths, hsecondDigest⟩ := pinned_paths hother hsecond
  constructor
  · intro hsame
    have hdigest := hsame
    rw [hfirstDigest, hsecondDigest] at hdigest
    have hfiles := encoding_injective hfirstPaths hsecondPaths (hcollision hdigest)
    cases first
    cases second
    simp only [PinnedTree.mk.injEq]
    exact ⟨hfiles, hsame⟩
  · rintro rfl
    rfl

/-- The tree's files in the order of their paths. -/
theorem toolTree_files {commands : List Text}
    (hcommands : commands = [tool, aid] ∨ commands = [aid]) :
    (assemble toolSha256 (toolListing.map (pinned commands))).files =
      toolListing.reverse.map (pinned commands) := by
  have hperm :
      (toolListing.map (pinned commands)).Perm (toolListing.reverse.map (pinned commands)) :=
    (List.reverse_perm toolListing).symm.map _
  have hnodup : ((toolListing.map (pinned commands)).map TreeFile.path).Nodup := by
    rcases hcommands with rfl | rfl <;> decide
  rw [assemble_perm hperm hnodup]
  refine sortByKey_of_pairwise ?_
  rcases hcommands with rfl | rfl <;> decide

/-- With one command less it is another tree, and has another digest. -/
theorem toolTree_digest :
    (assemble toolSha256 (toolListing.map (pinned [tool, aid]))).digest ≠
      (assemble toolSha256 (toolListing.map (pinned [aid]))).digest := by
  have hboth := pin_complete toolTree_sound (tool_agrees (List.Subset.refl [tool, aid]))
  have haid := pin_complete toolTree_sound (@tool_agrees [aid] (by simp))
  have hdigests : toolSha256
      (encoding (assemble toolSha256 (toolListing.map (pinned [tool, aid]))).files) ≠ toolSha256
      (encoding (assemble toolSha256 (toolListing.map (pinned [aid]))).files) := by
    rw [toolTree_files (.inl rfl), toolTree_files (.inr rfl)]
    decide +kernel
  rw [ne_eq, digest_eq_iff toolTree_sound toolTree_sound hboth haid
    fun hsame => absurd hsame hdigests]
  intro htrees
  exact hdigests (congrArg (fun tree : PinnedTree => toolSha256 (encoding tree.files)) htrees)

end Encoding

end Plasmosome.Software
