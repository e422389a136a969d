import Plasmosome.Foundation.Checks
import Plasmosome.Software.Pin

/-!
# What is pinned

A tree is pinned exactly when the listing is sound and the tree holds the listed files
and nothing else.
-/

namespace Plasmosome.Software

open Foundation FileTree
open Backend (Digest)

/-! ## The listing -/

/-- Two paths are one after folding, or one of them is above the other. -/
def Collides (first second : Text) : Prop :=
  folded first = folded second ∨ folded first ∈ ancestors (folded second) ∨
    folded second ∈ ancestors (folded first)

/-- The listing check passes when every path keeps the rule and collides with none before it. -/
theorem checkAfter_eq_ok {seen rest : List PackageFile} {files directories : List Text}
    (hfiles : ∀ text, text ∈ files ↔ ∃ file ∈ seen, folded file.path = text)
    (hdirectories : ∀ text, text ∈ directories ↔
        ∃ file ∈ seen, text ∈ ancestors (folded file.path)) :
    checkAfter files directories rest = .ok () ↔
      (∀ file ∈ rest, followsPathRule file.path = true) ∧
        (∀ before ∈ seen, ∀ file ∈ rest, ¬Collides before.path file.path) ∧
        rest.Pairwise fun before file => ¬Collides before.path file.path := by
  induction rest generalizing seen files directories with
  | nil => simp [checkAfter]
  | cons file rest ih =>
      have hclash : (files.contains (folded file.path) || directories.contains (folded file.path) ||
          (ancestors (folded file.path)).any files.contains) = true ↔
          ∃ before ∈ seen, Collides before.path file.path := by
        simp only [Bool.or_eq_true, List.contains_iff_mem, List.any_eq_true, hfiles, hdirectories,
          Collides]
        constructor
        · rintro ((⟨before, hseen, hsame⟩ | ⟨before, hseen, habove⟩) | ⟨_, habove, before, hseen, rfl⟩)
          · exact ⟨before, hseen, Or.inl hsame⟩
          · exact ⟨before, hseen, Or.inr (Or.inr habove)⟩
          · exact ⟨before, hseen, Or.inr (Or.inl habove)⟩
        · rintro ⟨before, hseen, hsame | habove | habove⟩
          · exact Or.inl (Or.inl ⟨before, hseen, hsame⟩)
          · exact Or.inr ⟨_, habove, before, hseen, rfl⟩
          · exact Or.inl (Or.inr ⟨before, hseen, habove⟩)
      rw [checkAfter, List.forall_mem_cons, List.pairwise_cons]
      cases hrule : followsPathRule file.path with
      | false => simp
      | true =>
          by_cases hcollides : ∃ before ∈ seen, Collides before.path file.path
          · rw [if_neg (by simp), if_pos (hclash.mpr hcollides)]
            refine iff_of_false nofun fun hall => ?_
            obtain ⟨before, hseen, hsame⟩ := hcollides
            exact hall.2.1 before hseen file List.mem_cons_self hsame
          · rw [if_neg (by simp), if_neg (mt hclash.mp hcollides)]
            have hnext := @ih (file :: seen) (folded file.path :: files)
              (directories ++ ancestors (folded file.path))
              (fun text => by
                rw [List.mem_cons, hfiles, List.exists_mem_cons_iff]
                exact or_congr_left eq_comm)
              (fun text => by
                rw [List.mem_append, hdirectories, List.exists_mem_cons_iff]
                exact or_comm)
            rw [hnext]
            push Not at hcollides
            simp only [List.forall_mem_cons, true_and]
            grind

/-- A listing is sound when its paths keep the rule and no two collide. -/
theorem checkListing_eq_ok (expected : List PackageFile) : checkListing expected = .ok () ↔
    (∀ file ∈ expected, followsPathRule file.path = true) ∧
      expected.Pairwise fun before file => ¬Collides before.path file.path := by
  have hcheck := @checkAfter_eq_ok [] expected [] [] (by simp) (by simp)
  rw [checkListing, hcheck]
  simp

/-- No two listed files have one path. -/
theorem nodup_of_pairwise {expected : List PackageFile}
    (hpairwise : expected.Pairwise fun before file => ¬Collides before.path file.path) :
    (expected.map PackageFile.path).Nodup := by
  rw [List.nodup_iff_pairwise_ne, List.pairwise_map]
  refine hpairwise.imp fun {before file} hcollides hsame => hcollides (Or.inl ?_)
  rw [hsame]

/-! ## Paths -/

/-- The names of a path, joined by slashes. -/
def slashed (names : List Text) : Text := ['/'].intercalate names

/-- A name that is not empty and holds no slash. -/
def Part (name : Text) : Prop := name ≠ [] ∧ '/' ∉ name

theorem joinPath_ne_nil {above name : Text} (hname : name ≠ []) : joinPath above name ≠ [] := by
  unfold joinPath
  split
  · exact hname
  · simp

theorem foldl_joinPath {above : Text} (habove : above ≠ []) (names : List Text) :
    names.foldl joinPath above = slashed (above :: names) := by
  induction names generalizing above with
  | nil => simp [slashed, List.intercalate]
  | cons name names ih =>
      have hjoin : joinPath above name = above ++ '/' :: name := if_neg habove
      rw [List.foldl_cons, ih (by rw [hjoin]; simp), hjoin]
      cases names <;> simp [slashed, List.intercalate]

theorem foldl_joinPath_nil {names : List Text} (hnames : ∀ name ∈ names, Part name) :
    names.foldl joinPath [] = slashed names := by
  cases names with
  | nil => rfl
  | cons name names =>
      have hname : name ≠ [] := (hnames name List.mem_cons_self).1
      rw [List.foldl_cons, joinPath, if_pos rfl, foldl_joinPath hname]

/-- A path has one way to be joined from its parts. -/
theorem slashed_injective {first second : List Text} (hfirst : ∀ name ∈ first, Part name)
    (hsecond : ∀ name ∈ second, Part name) (hsame : slashed first = slashed second) :
    first = second := by
  have hempty :
      ∀ names : List Text, (∀ name ∈ names, Part name) → slashed names = [] → names = [] := by
    intro names hnames hslashed
    cases names with
    | nil => rfl
    | cons name names =>
        have hname := (hnames name List.mem_cons_self).1
        cases names <;> simp [slashed, List.intercalate, hname] at hslashed
  by_cases hnil : first = []
  · subst hnil
    exact (hempty second hsecond hsame.symm).symm
  · have hne : second ≠ [] := by
      rintro rfl
      exact hnil (hempty first hfirst hsame)
    rw [← List.splitOn_intercalate '/' (fun name hname => (hfirst name hname).2) hnil,
      ← List.splitOn_intercalate '/' (fun name hname => (hsecond name hname).2) hne]
    exact congrArg (List.splitOn '/') hsame

/-! ## The walk -/

section Walk

variable {sha256 : List UInt8 → Digest} {listed : List PackageFile}

/-- A file of these bytes is listed at a path. -/
def Listed (sha256 : List UInt8 → Digest) (listed : List PackageFile) (path : Text)
    (bytes : List UInt8) : Prop :=
  ∃ file ∈ listed, file.path = path ∧ bytes.length = file.size.toNat ∧ sha256 bytes = file.digest

/-- Among distinct paths, the one looked for is found. -/
theorem find_path (hnodup : (listed.map PackageFile.path).Nodup) {listing : PackageFile}
    (hlisting : listing ∈ listed) :
    listed.find? (fun file => file.path = listing.path) = some listing := by
  cases hfind : listed.find? (fun file => file.path = listing.path) with
  | none =>
      have hnone := List.find?_eq_none.mp hfind listing hlisting
      simp at hnone
  | some found =>
      have hpath : found.path = listing.path := by simpa using List.find?_some hfind
      rw [List.inj_on_of_nodup_map hnodup (List.mem_of_find?_eq_some hfind) hlisting hpath]

/-- A file is pinned exactly when its bytes are those listed at its path. -/
theorem file_eq_ok (hnodup : (listed.map PackageFile.path).Nodup) {bytes : List UInt8} {path : Text}
    {files : List TreeFile} : file sha256 listed bytes path = .ok files ↔
      Listed sha256 listed path bytes ∧ files = [⟨path, sha256 bytes, false⟩] := by
  unfold file Listed
  constructor
  · intro hfile
    split at hfile
    · cases hfile
    next listing hfind =>
      split at hfile
      · cases hfile
      · split at hfile
        · cases hfile
        next hsize hdigest =>
          cases hfile
          have hpath : listing.path = path := by simpa using List.find?_some hfind
          exact ⟨⟨listing, List.mem_of_find?_eq_some hfind, hpath, not_not.mp hsize,
            not_not.mp hdigest⟩, rfl⟩
  · rintro ⟨⟨listing, hlisting, rfl, hsize, hdigest⟩, rfl⟩
    rw [find_path hnodup hlisting]
    simp [hsize, hdigest]

/-! ### Directories -/

/-- What is found at one name of a directory. -/
def entryOutcome (sha256 : List UInt8 → Digest) (listed : List PackageFile) (path : Text)
    (entry : Name × Node) : Except PinRefusal (List TreeFile) :=
  match Utf8.decode entry.1 0 with
  | .error _ => .error (.unexpected (joinPath path (Membrane.Probe.fromUtf8Lossy entry.1)))
  | .ok text => visit sha256 listed entry.2 (joinPath path text)

theorem outcomes_eq_map (entries : List (Name × Node)) (path : Text) :
    outcomes sha256 listed entries path =
      entries.map fun entry => (entry.1, entryOutcome sha256 listed path entry) := by
  induction entries with
  | nil => rfl
  | cons entry rest ih =>
      rw [outcomes, ih]
      rfl

theorem gather_cons {name : Name} {outcome : Except PinRefusal (List TreeFile)}
    {rest : List (Name × Except PinRefusal (List TreeFile))} {files : List TreeFile} :
    gather ((name, outcome) :: rest) = .ok files ↔
      ∃ first more, outcome = .ok first ∧ gather rest = .ok more ∧ files = first ++ more := by
  rw [gather]
  constructor
  · intro hgather
    obtain ⟨first, hfirst, hgather⟩ := bind_eq_ok.mp hgather
    obtain ⟨more, hmore, hgather⟩ := bind_eq_ok.mp hgather
    exact ⟨first, more, hfirst, hmore, (Except.ok.inj hgather).symm⟩
  · rintro ⟨first, more, rfl, hmore, rfl⟩
    rw [hmore]
    rfl

/-- The order of a directory's entries does not decide what is found. -/
theorem gather_perm {list others : List (Name × Except PinRefusal (List TreeFile))}
    (hperm : list.Perm others) {files : List TreeFile} (hgather : gather list = .ok files) :
    ∃ reordered, gather others = .ok reordered ∧ files.Perm reordered := by
  induction hperm generalizing files with
  | nil => exact ⟨files, hgather, .refl _⟩
  | cons entry _ ih =>
      obtain ⟨first, more, hfirst, hmore, rfl⟩ := gather_cons.mp hgather
      obtain ⟨reordered, hreordered, hsame⟩ := ih hmore
      exact ⟨first ++ reordered, gather_cons.mpr ⟨first, reordered, hfirst, hreordered, rfl⟩,
        hsame.append_left first⟩
  | swap =>
      obtain ⟨first, more, hfirst, hmore, rfl⟩ := gather_cons.mp hgather
      obtain ⟨second, rest, hsecond, hrest, rfl⟩ := gather_cons.mp hmore
      refine ⟨second ++ (first ++ rest), gather_cons.mpr ⟨second, first ++ rest, hsecond,
        gather_cons.mpr ⟨first, rest, hfirst, hrest, rfl⟩, rfl⟩, ?_⟩
      rw [← List.append_assoc, ← List.append_assoc]
      exact List.perm_append_comm.append_right rest
  | trans _ _ ihfirst ihsecond =>
      obtain ⟨middle, hmiddle, hfirst⟩ := ihfirst hgather
      obtain ⟨reordered, hreordered, hsecond⟩ := ihsecond hmiddle
      exact ⟨reordered, hreordered, hfirst.trans hsecond⟩

/-! ### What the walk finds -/

/-- A node holds listed files and no empty directory but perhaps the root. -/
inductive Pinnable (sha256 : List UInt8 → Digest) (listed : List PackageFile) : Node → Text → Prop where
  | file {bytes : List UInt8} {path : Text} (hlisted : Listed sha256 listed path bytes) :
      Pinnable sha256 listed (.file bytes) path
  | directory {entries : List (Name × Node)} {path : Text} (hfull : entries = [] → path = [])
      (hnames : ∀ name node, (name, node) ∈ entries → ∃ text, name = Utf8.encode text)
      (hentries : ∀ node text, (Utf8.encode text, node) ∈ entries →
        Pinnable sha256 listed node (joinPath path text)) :
      Pinnable sha256 listed (.directory entries) path

/-- The text of a name, when it has one. -/
def nameText (name : Name) : Text := (Utf8.decode name 0).toOption.getD []

@[simp] theorem nameText_encode (text : Text) : nameText (Utf8.encode text) = text := by
  rw [nameText, Utf8.decode_encode]
  rfl

/-- The files of a node, as they are found at a path. -/
def found (sha256 : List UInt8 → Digest) (node : Node) (path : Text) : List TreeFile :=
  node.files.map fun file => ⟨(file.1.map nameText).foldl joinPath path, sha256 file.2, false⟩

theorem found_directory (entries : List (Name × Node)) (path : Text) :
    found sha256 (.directory entries) path =
      entries.flatMap fun entry => found sha256 entry.2 (joinPath path (nameText entry.1)) := by
  rw [found, Node.files_directory, List.map_flatMap]
  simp only [List.map_map]
  rfl

/-- A directory is pinned when each of its entries is; only the root may be empty. -/
theorem visit_directory {entries : List (Name × Node)} {path : Text} {files : List TreeFile} :
    visit sha256 listed (.directory entries) path = .ok files ↔
      (entries = [] → path = []) ∧
        gather (sortByKey Prod.fst (outcomes sha256 listed entries path)) = .ok files := by
  rw [visit]
  cases entries with
  | nil => by_cases hpath : path = [] <;> simp [hpath]
  | cons entry rest => simp

/-- What a node that is found has passed, and what it gives. -/
def Found (sha256 : List UInt8 → Digest) (listed : List PackageFile) (node : Node) (path : Text)
    (files : List TreeFile) : Prop :=
  Pinnable sha256 listed node path ∧ files.Perm (found sha256 node path)

/-- What a directory yields is what its entries yield, in some order. -/
theorem entries_sound {entries : List (Name × Node)} {path : Text} {files : List TreeFile}
    (hvisit : ∀ name node, (name, node) ∈ entries → ∀ path files,
      visit sha256 listed node path = .ok files → Found sha256 listed node path files)
    (hgather : gather (entries.map fun entry => (entry.1, entryOutcome sha256 listed path entry)) =
      .ok files) :
    (∀ name node, (name, node) ∈ entries → ∃ text, name = Utf8.encode text ∧
      Pinnable sha256 listed node (joinPath path text)) ∧
      files.Perm (entries.flatMap fun entry => found sha256 entry.2 (joinPath path (nameText entry.1))) := by
  induction entries generalizing files with
  | nil =>
      cases hgather
      exact ⟨nofun, .refl _⟩
  | cons entry rest ih =>
      obtain ⟨name, node⟩ := entry
      rw [List.map_cons] at hgather
      obtain ⟨first, more, hfirst, hmore, rfl⟩ := gather_cons.mp hgather
      obtain ⟨hrest, hperm⟩ := ih (fun name node hentry => hvisit name node (List.mem_cons_of_mem _ hentry))
        hmore
      obtain ⟨text, rfl, hchild, hsame⟩ : ∃ text, name = Utf8.encode text ∧
          Found sha256 listed node (joinPath path text) first := by
        unfold entryOutcome at hfirst
        split at hfirst
        · cases hfirst
        next text hdecode =>
          exact ⟨text, Utf8.decode_eq_ok.mp hdecode,
            hvisit name node List.mem_cons_self _ first hfirst⟩
      constructor
      · intro other child hentry
        rcases List.mem_cons.mp hentry with heq | hlater
        · cases heq
          exact ⟨text, rfl, hchild⟩
        · exact hrest other child hlater
      · rw [List.flatMap_cons, nameText_encode]
        exact hsame.append hperm

/-- What a walk that succeeds has passed, and what it gives. -/
theorem visit_sound (hnodup : (listed.map PackageFile.path).Nodup) {node : Node} {path : Text}
    {files : List TreeFile} (hvisit : visit sha256 listed node path = .ok files) :
    Found sha256 listed node path files := by
  induction node using Node.tree_induction generalizing path files with
  | hfile bytes =>
      obtain ⟨hlisted, rfl⟩ := (file_eq_ok hnodup).mp hvisit
      exact ⟨.file hlisted, .refl _⟩
  | hlink => cases hvisit
  | hspecial => cases hvisit
  | hclosed isDirectory =>
      cases isDirectory with
      | true => cases hvisit
      | false =>
          rw [visit] at hvisit
          split at hvisit <;> cases hvisit
  | hdirectory entries ih =>
      obtain ⟨hfull, hgather⟩ := visit_directory.mp hvisit
      obtain ⟨reordered, hreordered, hsame⟩ := gather_perm (sortByKey_perm _) hgather
      rw [outcomes_eq_map] at hreordered
      obtain ⟨hentries, hperm⟩ := entries_sound
        (fun name node hentry path files => ih name node hentry)
        hreordered
      refine ⟨.directory hfull (fun name node hentry => ?_) fun node text hentry => ?_, ?_⟩
      · obtain ⟨text, hname, -⟩ := hentries name node hentry
        exact ⟨text, hname⟩
      · obtain ⟨other, hsame, hchild⟩ := hentries _ node hentry
        rw [Utf8.encode_injective hsame]
        exact hchild
      · rw [found_directory]
        exact hsame.trans hperm

/-- Entries that each succeed are gathered. -/
theorem gather_complete {entries : List (Name × Node)}
    {outcome : Name × Node → Except PinRefusal (List TreeFile)}
    (houtcome : ∀ entry ∈ entries, ∃ files, outcome entry = .ok files) :
    ∃ files, gather (entries.map fun entry => (entry.1, outcome entry)) = .ok files := by
  induction entries with
  | nil => exact ⟨[], rfl⟩
  | cons entry rest ih =>
      obtain ⟨⟨first, hfirst⟩, hrest⟩ := List.forall_mem_cons.mp houtcome
      obtain ⟨more, hmore⟩ := ih hrest
      exact ⟨first ++ more, gather_cons.mpr ⟨first, more, hfirst, hmore, rfl⟩⟩

/-- Whatever can be pinned is pinned. -/
theorem visit_complete (hnodup : (listed.map PackageFile.path).Nodup) {node : Node} {path : Text}
    (hpinnable : Pinnable sha256 listed node path) :
    ∃ files, visit sha256 listed node path = .ok files := by
  induction hpinnable with
  | file hlisted => exact ⟨_, (file_eq_ok hnodup).mpr ⟨hlisted, rfl⟩⟩
  | @directory entries path hfull hnames _ ih =>
      obtain ⟨files, hfiles⟩ :
          ∃ files, gather (outcomes sha256 listed entries path) = .ok files := by
        rw [outcomes_eq_map]
        apply gather_complete
        rintro ⟨name, node⟩ hentry
        obtain ⟨text, rfl⟩ := hnames name node hentry
        obtain ⟨part, hpart⟩ := ih node text hentry
        refine ⟨part, ?_⟩
        rw [entryOutcome, Utf8.decode_encode]
        exact hpart
      have hsorted := @sortByKey_perm _ _ _ Prod.fst (outcomes sha256 listed entries path)
      obtain ⟨reordered, hreordered, -⟩ := gather_perm hsorted.symm hfiles
      exact ⟨reordered, visit_directory.mpr ⟨hfull, hreordered⟩⟩

/-! ### What a tree holds -/

/-- What is at a path is a listed file, or a directory that holds something or is the root. -/
def Stands (sha256 : List UInt8 → Digest) (listed : List PackageFile) (path : Text)
    (texts : List Text) (node : Node) : Prop :=
  (∃ entries, node = .directory entries ∧ (entries = [] → texts = [] ∧ path = [])) ∨
    ∃ bytes, node = .file bytes ∧ Listed sha256 listed (texts.foldl joinPath path) bytes

theorem text_ne_nil {text : Text} (hproper : Node.Proper (Utf8.encode text)) : text ≠ [] := by
  rintro rfl
  exact hproper.nonempty rfl

/-- Everything below a node that can be pinned has a name in UTF-8 and stands as listed. -/
theorem Pinnable.stands {node below : Node} {path : Text} (hsound : node.Sound)
    (hpinnable : Pinnable sha256 listed node path) {names : List Name} (hat : node.At names below) :
    ∃ texts : List Text, names = texts.map Utf8.encode ∧ Stands sha256 listed path texts below := by
  induction hat generalizing path with
  | here node =>
      refine ⟨[], rfl, ?_⟩
      cases hpinnable with
      | file hlisted => exact Or.inr ⟨_, rfl, hlisted⟩
      | directory hfull _ _ => exact Or.inl ⟨_, rfl, fun hempty => ⟨rfl, hfull hempty⟩⟩
  | @inside entries name child below names hentry _ ih =>
      cases hpinnable with
      | directory _ hnames hentries =>
          obtain ⟨text, rfl⟩ := hnames name child hentry
          obtain ⟨texts, rfl, hbelow⟩ := ih (hsound.entry hentry) (hentries child text hentry)
          refine ⟨text :: texts, rfl, ?_⟩
          rcases hbelow with ⟨entries, rfl, hempty⟩ | hfile
          · -- below the root a path is never empty
            refine Or.inl ⟨entries, rfl, fun hnone => absurd (hempty hnone).2 ?_⟩
            exact joinPath_ne_nil (text_ne_nil (hsound.proper hentry))
          · exact Or.inr hfile

/-- A node whose whole tree stands as listed can be pinned. -/
theorem pinnable_of_stands {node : Node} {path : Text}
    (hstands : ∀ names below, node.At names below →
      ∃ texts : List Text, names = texts.map Utf8.encode ∧ Stands sha256 listed path texts below) :
    Pinnable sha256 listed node path := by
  have hhere : Stands sha256 listed path [] node := by
    obtain ⟨texts, hnames, hbelow⟩ := hstands [] node (.here node)
    rw [List.map_eq_nil_iff.mp hnames.symm] at hbelow
    exact hbelow
  induction node using Node.tree_induction generalizing path with
  | hfile bytes =>
      obtain ⟨_, heq, -⟩ | ⟨_, heq, hlisted⟩ := hhere
      · cases heq
      · cases heq
        exact .file hlisted
  | hlink => obtain ⟨_, heq, -⟩ | ⟨_, heq, -⟩ := hhere <;> cases heq
  | hspecial => obtain ⟨_, heq, -⟩ | ⟨_, heq, -⟩ := hhere <;> cases heq
  | hclosed => obtain ⟨_, heq, -⟩ | ⟨_, heq, -⟩ := hhere <;> cases heq
  | hdirectory entries ih =>
      have hbelow : ∀ name child, (name, child) ∈ entries → ∀ names below, child.At names below →
          ∃ text texts, name = Utf8.encode text ∧ names = texts.map Utf8.encode ∧
            Stands sha256 listed (joinPath path text) texts below := by
        intro name child hentry names below hat
        obtain ⟨texts, hnames, hstanding⟩ := hstands (name :: names) below (.inside hentry hat)
        obtain ⟨text, texts, rfl, rfl, rfl⟩ := List.map_eq_cons_iff.mp hnames.symm
        refine ⟨text, texts, rfl, rfl, ?_⟩
        rcases hstanding with ⟨entries, rfl, hempty⟩ | hfile
        · exact Or.inl ⟨entries, rfl, fun hnone => absurd (hempty hnone).1 (List.cons_ne_nil _ _)⟩
        · exact Or.inr hfile
      refine .directory ?_ (fun name child hentry => ?_) fun child text hentry => ?_
      · obtain ⟨_, heq, hempty⟩ | ⟨_, heq, -⟩ := hhere
        · cases heq
          exact fun hnone => (hempty hnone).2
        · cases heq
      · obtain ⟨text, -, hname, -⟩ := hbelow name child hentry [] child (.here child)
        exact ⟨text, hname⟩
      · have hchild : ∀ names below, child.At names below → ∃ texts : List Text,
            names = texts.map Utf8.encode ∧ Stands sha256 listed
            (joinPath path text) texts below := by
          intro names below hat
          obtain ⟨other, texts, hname, hnames, hstands⟩ := hbelow _ child hentry names below hat
          rw [← Utf8.encode_injective hname] at hstands
          exact ⟨texts, hnames, hstands⟩
        refine ih _ child hentry hchild ?_
        obtain ⟨texts, hnames, hstands⟩ := hchild [] child (.here child)
        rw [List.map_eq_nil_iff.mp hnames.symm] at hstands
        exact hstands

end Walk

/-! ## Pinning -/

section Pinning

variable {sha256 : List UInt8 → Digest} {root : Node} {expected : List PackageFile}

/-- A tree holds the listed files and nothing else: no link, no special file, nothing that cannot
be read, no name that is not UTF-8 and no empty directory below the root. -/
structure Holds (sha256 : List UInt8 → Digest) (root : Node) (expected : List PackageFile) : Prop where
  directory : ∃ entries, root = .directory entries
  below : ∀ names node, root.At names node → ∃ texts : List Text, names = texts.map Utf8.encode ∧
    ((∃ entries, node = .directory entries ∧ (entries = [] → texts = [])) ∨
      ∃ bytes, node = .file bytes ∧ Listed sha256 expected (slashed texts) bytes)
  present : ∀ file ∈ expected, ∃ (texts : List Text) (bytes : List UInt8),
    root.At (texts.map Utf8.encode) (.file bytes) ∧ slashed texts = file.path

theorem part_of_proper {text : Text} (hproper : Node.Proper (Utf8.encode text)) : Part text := by
  refine ⟨text_ne_nil hproper, fun hslash => hproper.slash ?_⟩
  have hencode : (47 : UInt8) ∈ String.utf8EncodeChar '/' := by decide
  exact List.mem_flatMap.mpr ⟨'/', hslash, hencode⟩

theorem parts_of_at (hsound : root.Sound) {texts : List Text} {node : Node}
    (hat : root.At (texts.map Utf8.encode) node) : ∀ text ∈ texts, Part text :=
  fun _ htext => part_of_proper (hsound.proper_of_at hat _ (List.mem_map_of_mem htext))

/-- At the root, a node stands as listed when it is a directory with entries or a listed file. -/
theorem stands_iff {texts : List Text} (hparts : ∀ text ∈ texts, Part text) (node : Node) :
    Stands sha256 expected [] texts node ↔
      (∃ entries, node = .directory entries ∧ (entries = [] → texts = [])) ∨
        ∃ bytes, node = .file bytes ∧ Listed sha256 expected (slashed texts) bytes := by
  rw [Stands, foldl_joinPath_nil hparts]
  simp only [and_true]

theorem walk_eq_ok {listed : List PackageFile} {files : List TreeFile} :
    walk sha256 listed root = .ok files ↔
      (∃ entries, root = .directory entries) ∧ visit sha256 listed root [] = .ok files := by
  cases root <;> simp [walk]

theorem listed_perm {listed : List PackageFile} (hperm : listed.Perm expected) (path : Text)
    (bytes : List UInt8) : Listed sha256 listed path bytes ↔ Listed sha256 expected path bytes := by
  simp only [Listed, hperm.mem_iff]

theorem mem_found {path : Text} {seen : TreeFile} : seen ∈ found sha256 root path ↔
    ∃ names bytes, root.At names (.file bytes) ∧
      seen = ⟨(names.map nameText).foldl joinPath path, sha256 bytes, false⟩ := by
  rw [found, List.mem_map]
  constructor
  · rintro ⟨⟨names, bytes⟩, hfile, rfl⟩
    exact ⟨names, bytes, Node.mem_files.mp hfile, rfl⟩
  · rintro ⟨names, bytes, hat, rfl⟩
    exact ⟨(names, bytes), Node.mem_files.mpr hat, rfl⟩

/-- A listed file as it is found, before the commands are marked. -/
def unmarked (file : PackageFile) : TreeFile := ⟨file.path, file.digest, false⟩

theorem map_nameText (texts : List Text) : (texts.map Utf8.encode).map nameText = texts := by
  rw [List.map_map]
  exact (List.map_congr_left fun text _ => nameText_encode text).trans (List.map_id texts)

/-- A tree that holds the listed files is found as them. -/
theorem found_perm (hsound : root.Sound) (hholds : Holds sha256 root expected)
    (hnodup : (expected.map PackageFile.path).Nodup) :
    (found sha256 root []).Perm (expected.map unmarked) := by
  have hslashed : ∀ names bytes, root.At names (.file bytes) → ∃ texts : List Text,
      names = texts.map Utf8.encode ∧ (∀ text ∈ texts, Part text) ∧
        (names.map nameText).foldl joinPath [] = slashed texts ∧
        Listed sha256 expected (slashed texts) bytes := by
    intro names bytes hat
    obtain ⟨texts, rfl, ⟨_, heq, -⟩ | ⟨_, heq, hlisted⟩⟩ := hholds.below names _ hat
    · cases heq
    · cases heq
      have hparts := parts_of_at hsound hat
      exact ⟨texts, rfl, hparts, by rw [map_nameText, foldl_joinPath_nil hparts], hlisted⟩
  apply (List.perm_ext_iff_of_nodup ?_ ?_).mpr
  · intro seen
    rw [mem_found, List.mem_map]
    constructor
    · rintro ⟨names, bytes, hat, rfl⟩
      obtain ⟨texts, rfl, -, hpath, file, hfile, hsame, -, hdigest⟩ := hslashed names bytes hat
      exact ⟨file, hfile, by rw [unmarked, hpath, hsame, hdigest]⟩
    · rintro ⟨file, hfile, rfl⟩
      obtain ⟨texts, bytes, hat, hpath⟩ := hholds.present file hfile
      obtain ⟨others, hothers, -, hjoined, listing, hlisting, hsame, -, hdigest⟩ :=
        hslashed _ bytes hat
      obtain rfl : texts = others := List.map_injective_iff.mpr Utf8.encode_injective hothers
      have hlisted : listing = file :=
        List.inj_on_of_nodup_map hnodup hlisting hfile (hsame.trans hpath)
      exact ⟨_, bytes, hat, by rw [unmarked, hjoined, hpath, hdigest, hlisted]⟩
  · refine List.Nodup.map_on ?_ (List.Nodup.of_map Prod.fst hsound.nodup_files)
    rintro ⟨names, bytes⟩ hfile ⟨others, more⟩ hother hsame
    obtain ⟨texts, rfl, hparts, hpath, -⟩ := hslashed names bytes (Node.mem_files.mp hfile)
    obtain ⟨otherTexts, rfl, hotherParts, hotherPath, -⟩ :=
      hslashed others more (Node.mem_files.mp hother)
    have hjoined := congrArg TreeFile.path hsame
    dsimp only at hjoined
    rw [hpath, hotherPath] at hjoined
    have htexts := slashed_injective hparts hotherParts hjoined
    exact List.inj_on_of_nodup_map hsound.nodup_files hfile hother
      (congrArg (List.map Utf8.encode) htexts)
  · refine List.Nodup.map_on ?_ (List.Nodup.of_map PackageFile.path hnodup)
    intro file hfile other hother hsame
    exact List.inj_on_of_nodup_map hnodup hfile hother (congrArg TreeFile.path hsame)

/-- A tree is walked to its end when it stands as listed. -/
theorem walk_sound (hsound : root.Sound) {listed : List PackageFile} (hperm : listed.Perm expected)
    (hnodup : (expected.map PackageFile.path).Nodup) {files : List TreeFile}
    (hwalk : walk sha256 listed root = .ok files)
    (hpresent : ∀ file ∈ listed, ∃ seen ∈ files, seen.path = file.path) :
    Holds sha256 root expected ∧ files.Perm (expected.map unmarked) := by
  obtain ⟨hdirectory, hvisit⟩ := walk_eq_ok.mp hwalk
  have hlistedNodup : (listed.map PackageFile.path).Nodup := (hperm.map _).nodup_iff.mpr hnodup
  obtain ⟨hpinnable, hfound⟩ := visit_sound hlistedNodup hvisit
  have hholds : Holds sha256 root expected := by
    refine ⟨hdirectory, fun names node hat => ?_, fun file hfile => ?_⟩
    · obtain ⟨texts, rfl, hstands⟩ := hpinnable.stands hsound hat
      refine ⟨texts, rfl, ?_⟩
      simpa only [listed_perm hperm] using (stands_iff (parts_of_at hsound hat) node).mp hstands
    · obtain ⟨seen, hseen, hpath⟩ := hpresent file (hperm.mem_iff.mpr hfile)
      obtain ⟨names, bytes, hat, rfl⟩ := mem_found.mp (hfound.subset hseen)
      obtain ⟨texts, rfl, -⟩ := hpinnable.stands hsound hat
      refine ⟨texts, bytes, hat, ?_⟩
      rw [← hpath, map_nameText, foldl_joinPath_nil (parts_of_at hsound hat)]
  exact ⟨hholds, hfound.trans (found_perm hsound hholds hnodup)⟩

/-- A tree that holds exactly what is expected is walked to the end. -/
theorem walk_complete (hsound : root.Sound) {listed : List PackageFile}
    (hperm : listed.Perm expected)
    (hnodup : (expected.map PackageFile.path).Nodup) (hholds : Holds sha256 root expected) :
    ∃ files, walk sha256 listed root = .ok files ∧ files.Perm (expected.map unmarked) := by
  have hlistedNodup : (listed.map PackageFile.path).Nodup := (hperm.map _).nodup_iff.mpr hnodup
  have hpinnable : Pinnable sha256 listed root [] := by
    apply pinnable_of_stands
    intro names below hat
    obtain ⟨texts, rfl, hbelow⟩ := hholds.below names below hat
    refine ⟨texts, rfl, (stands_iff (parts_of_at hsound hat) below).mpr ?_⟩
    simpa only [listed_perm hperm] using hbelow
  obtain ⟨files, hfiles⟩ := visit_complete hlistedNodup hpinnable
  have hfound := (visit_sound hlistedNodup hfiles).2
  exact ⟨files, walk_eq_ok.mpr ⟨hholds.directory, hfiles⟩,
    hfound.trans (found_perm hsound hholds hnodup)⟩

/-- A listed file as it is pinned. -/
def pinned (commands : List Text) (file : PackageFile) : TreeFile :=
  ⟨file.path, file.digest, commands.any fun command => command = file.path⟩

/-- The tree assembled does not depend on the order the files were found in. -/
theorem assemble_perm {files others : List TreeFile} (hperm : files.Perm others)
    (hnodup : (files.map TreeFile.path).Nodup) :
    assemble sha256 files = assemble sha256 others := by
  have hkeys : (files.map fun file => Utf8.encode file.path).Nodup := by
    have hmapped := hnodup.map Utf8.encode_injective
    rwa [List.map_map] at hmapped
  have hsorted : sortByPath TreeFile.path files = sortByPath TreeFile.path others :=
    sortByKey_eq_of_perm hperm hkeys
  rw [assemble, assemble, hsorted]

/-- Marking the commands of the files found gives the expected files. -/
theorem marked_perm {files : List TreeFile} (hfiles : files.Perm (expected.map unmarked))
    (hnodup : (expected.map PackageFile.path).Nodup) (commands : List Text) :
    assemble sha256 (files.map fun file =>
      { file with command := commands.any fun command => command = file.path }) =
      assemble sha256 (expected.map (pinned commands)) := by
  have hpinned := hfiles.map fun file =>
    ({ file with command := commands.any fun command => command = file.path } : TreeFile)
  rw [List.map_map] at hpinned
  refine assemble_perm hpinned ((hpinned.map TreeFile.path).nodup_iff.mpr ?_)
  rw [List.map_map]
  exact hnodup

/-- Every listed path follows the path rule, no two of them collide, every command is listed, and
the tree holds the listed files and nothing else. -/
structure Agrees (sha256 : List UInt8 → Digest) (root : Node) (expected : List PackageFile)
    (commands : List Text) : Prop where
  rule : ∀ file ∈ expected, followsPathRule file.path = true
  apart : expected.Pairwise fun before file => ¬Collides before.path file.path
  commands : ∀ command ∈ commands, ∃ file ∈ expected, file.path = command
  holds : Holds sha256 root expected

/-- A pinned tree agrees with what was expected of it. -/
theorem pin_sound (hsound : root.Sound) {commands : List Text} {tree : PinnedTree}
    (hpin : pin sha256 root expected commands = .ok tree) :
    Agrees sha256 root expected commands ∧
    tree = assemble sha256 (expected.map (pinned commands)) := by
  have hperm : (sortByPath PackageFile.path expected).Perm expected := sortByKey_perm _
  rw [pin] at hpin
  obtain ⟨⟨⟩, hlisting, hpin⟩ := bind_eq_ok.mp hpin
  obtain ⟨hrule, hpairwise⟩ := (checkListing_eq_ok expected).mp hlisting
  have hnodup := nodup_of_pairwise hpairwise
  dsimp only at hpin
  split at hpin
  · cases hpin
  next hcommands =>
    obtain ⟨files, hwalk, hpin⟩ := bind_eq_ok.mp hpin
    split at hpin
    · cases hpin
    next hmissing =>
      cases hpin
      have hpresent : ∀ file ∈ sortByPath PackageFile.path expected, ∃ seen ∈ files,
          seen.path = file.path := by
        intro file hfile
        simpa using List.find?_eq_none.mp hmissing file hfile
      obtain ⟨hholds, hfiles⟩ := walk_sound hsound hperm hnodup hwalk hpresent
      refine ⟨⟨hrule, hpairwise, fun command hcommand => ?_, hholds⟩,
        marked_perm hfiles hnodup commands⟩
      have hfound := List.find?_eq_none.mp hcommands command hcommand
      simpa [hperm.mem_iff] using hfound

/-- A tree that agrees with what is expected is pinned. -/
theorem pin_complete (hsound : root.Sound) {commands : List Text}
    (hagrees : Agrees sha256 root expected commands) :
    pin sha256 root expected commands = .ok (assemble sha256 (expected.map (pinned commands))) := by
  have hperm : (sortByPath PackageFile.path expected).Perm expected := sortByKey_perm _
  have hnodup := nodup_of_pairwise hagrees.apart
  obtain ⟨files, hwalk, hfiles⟩ := walk_complete hsound hperm hnodup hagrees.holds
  have hcommandFound : commands.find? (fun command =>
      !(sortByPath PackageFile.path expected).any fun file => file.path = command) = none := by
    rw [List.find?_eq_none]
    intro command hcommand
    simpa [hperm.mem_iff] using hagrees.commands command hcommand
  have hnoneMissing : (sortByPath PackageFile.path expected).find? (fun file =>
      !files.any fun seen => seen.path = file.path) = none := by
    rw [List.find?_eq_none]
    intro file hfile
    have hseen : unmarked file ∈ files :=
      hfiles.mem_iff.mpr (List.mem_map_of_mem (hperm.mem_iff.mp hfile))
    simpa using ⟨unmarked file, hseen, rfl⟩
  rw [pin]
  refine bind_eq_ok.mpr ⟨(), (checkListing_eq_ok expected).mpr ⟨hagrees.rule, hagrees.apart⟩, ?_⟩
  dsimp only
  rw [hcommandFound]
  refine bind_eq_ok.mpr ⟨files, hwalk, ?_⟩
  rw [hnoneMissing]
  exact congrArg Except.ok (marked_perm hfiles hnodup commands)

/-- A tree is pinned exactly when it agrees with its listing, as what is listed, in the order of
the paths. -/
theorem pin_eq_ok (hsound : root.Sound) (commands : List Text) (tree : PinnedTree) :
    pin sha256 root expected commands = .ok tree ↔
      Agrees sha256 root expected commands ∧
      tree = assemble sha256 (expected.map (pinned commands)) := by
  constructor
  · exact pin_sound hsound
  · rintro ⟨hagrees, rfl⟩
    exact pin_complete hsound hagrees

end Pinning

/-! ## A tree of two commands -/

def tool : Text := "tool".toList

def aid : Text := "aid".toList

def data : Text := "data".toList

def lib : Text := "lib".toList

def emptyDigest : Digest :=
  ⟨#v[0xe3, 0xb0, 0xc4, 0x42, 0x98, 0xfc, 0x1c, 0x14, 0x9a, 0xfb, 0xf4, 0xc8, 0x99, 0x6f, 0xb9, 0x24,
    0x27, 0xae, 0x41, 0xe4, 0x64, 0x9b, 0x93, 0x4c, 0xa4, 0x95, 0x99, 0x1b, 0x78, 0x52, 0xb8, 0x55]⟩

def sevenDigest : Digest :=
  ⟨#v[0xca, 0x35, 0x87, 0x58, 0xf6, 0xd2, 0x7e, 0x6c, 0xf4, 0x52, 0x72, 0x93, 0x79, 0x77, 0xa7, 0x48,
    0xfd, 0x88, 0x39, 0x1d, 0xb6, 0x79, 0xce, 0xda, 0x7d, 0xc7, 0xbf, 0x1f, 0x00, 0x5e, 0xe8, 0x79]⟩

def bothDigest : Digest :=
  ⟨#v[0x8b, 0x4c, 0x99, 0xd8, 0x5f, 0x98, 0x3c, 0x26, 0x1a, 0x76, 0x8e, 0xd7, 0xeb, 0xea, 0x62, 0x88,
    0xe9, 0xf9, 0xeb, 0xad, 0xb5, 0x59, 0xe5, 0x71, 0xd2, 0x6a, 0x25, 0x9e, 0x25, 0xba, 0xa8, 0xeb]⟩

def aidDigest : Digest :=
  ⟨#v[0x91, 0xcf, 0xae, 0x59, 0xd1, 0xc3, 0x81, 0x6c, 0x78, 0xa4, 0x95, 0xba, 0x6b, 0x37, 0xd8, 0x62,
    0x40, 0x78, 0x60, 0x6a, 0xe0, 0x75, 0xbf, 0x72, 0x9a, 0x2b, 0xbc, 0xb0, 0xb8, 0xb2, 0x97, 0xc7]⟩

/-- SHA-256 of no bytes, of one byte and of the encodings of the tree with both of its commands and
with one. -/
def toolSha256 (bytes : List UInt8) : Digest :=
  if bytes = [] then emptyDigest
  else if bytes = [7] then sevenDigest
  else if bytes.getLast? = some 1 then bothDigest
  else aidDigest

/-- Two files, and a directory that holds a third. -/
def toolTree : Node :=
  .directory [(Utf8.encode tool, .file [7]),
    (Utf8.encode lib, .directory [(Utf8.encode data, .file [])]), (Utf8.encode aid, .file [])]

def toolListing : List PackageFile :=
  [⟨tool, sevenDigest, 1⟩, ⟨slashed [lib, data], emptyDigest, 0⟩, ⟨aid, emptyDigest, 0⟩]

theorem toolTree_at {names : List Name} {node : Node} (hat : toolTree.At names node) :
    (names = [] ∧ node = toolTree) ∨
      (names = [Utf8.encode lib] ∧ node = .directory [(Utf8.encode data, .file [])]) ∨
      ∃ texts bytes, names = texts.map Utf8.encode ∧ node = .file bytes ∧
        Listed toolSha256 toolListing (slashed texts) bytes := by
  cases names with
  | nil => exact .inl ⟨rfl, Node.at_nil_iff.mp hat⟩
  | cons name names =>
      obtain ⟨_, child, heq, hentry, hbelow⟩ := Node.at_cons_iff.mp hat
      cases heq
      simp only [List.mem_cons, List.not_mem_nil, or_false, Prod.mk.injEq] at hentry
      rcases hentry with ⟨rfl, rfl⟩ | ⟨rfl, rfl⟩ | ⟨rfl, rfl⟩
      · cases hbelow
        exact .inr (.inr ⟨[tool], [7], rfl, rfl, ⟨tool, sevenDigest, 1⟩, by decide, rfl, rfl, rfl⟩)
      · cases names with
        | nil =>
            cases hbelow
            exact .inr (.inl ⟨rfl, rfl⟩)
        | cons inner names =>
            obtain ⟨_, child, heq, hentry, hbelow⟩ := Node.at_cons_iff.mp hbelow
            cases heq
            cases List.mem_singleton.mp hentry
            cases hbelow
            exact .inr (.inr ⟨[lib, data], [], rfl, rfl,
              ⟨slashed [lib, data], emptyDigest, 0⟩, by decide, rfl, rfl, rfl⟩)
      · cases hbelow
        exact .inr (.inr ⟨[aid], [], rfl, rfl, ⟨aid, emptyDigest, 0⟩, by decide, rfl, rfl, rfl⟩)

theorem toolTree_sound : toolTree.Sound := by
  intro path entries hat
  have hproper : ∀ text ∈ [tool, lib, aid, data], Node.Proper (Utf8.encode text) := by
    intro text htext
    simp only [List.mem_cons, List.not_mem_nil, or_false] at htext
    rcases htext with rfl | rfl | rfl | rfl <;>
      exact ⟨by decide, by decide, by decide, by decide, by decide⟩
  obtain ⟨-, heq⟩ | ⟨-, heq⟩ | ⟨_, _, -, heq, -⟩ := toolTree_at hat
  · cases heq
    refine ⟨by decide, fun name node hentry => ?_⟩
    simp only [List.mem_cons, List.not_mem_nil, or_false, Prod.mk.injEq] at hentry
    rcases hentry with ⟨rfl, -⟩ | ⟨rfl, -⟩ | ⟨rfl, -⟩ <;> exact hproper _ (by simp)
  · cases heq
    refine ⟨by decide, fun name node hentry => ?_⟩
    cases List.mem_singleton.mp hentry
    exact hproper _ (by simp)
  · cases heq

theorem tool_agrees {commands : List Text} (hcommands : commands ⊆ [tool, aid]) :
    Agrees toolSha256 toolTree toolListing commands := by
  have happart : toolListing.Pairwise fun before file => ¬Collides before.path file.path :=
    ((checkListing_eq_ok toolListing).mp (by decide)).2
  refine ⟨by decide, happart, fun command hcommand => ?_, ⟨_, rfl⟩, fun names node hat => ?_, ?_⟩
  · have hnamed := hcommands hcommand
    simp only [List.mem_cons, List.not_mem_nil, or_false] at hnamed
    rcases hnamed with rfl | rfl
    · exact ⟨⟨tool, sevenDigest, 1⟩, by decide, rfl⟩
    · exact ⟨⟨aid, emptyDigest, 0⟩, by decide, rfl⟩
  · obtain ⟨rfl, rfl⟩ | ⟨rfl, rfl⟩ | ⟨texts, bytes, rfl, rfl, hlisted⟩ := toolTree_at hat
    · exact ⟨[], rfl, .inl ⟨_, rfl, nofun⟩⟩
    · exact ⟨[lib], rfl, .inl ⟨_, rfl, nofun⟩⟩
    · exact ⟨texts, rfl, .inr ⟨bytes, rfl, hlisted⟩⟩
  · intro file hfile
    simp only [toolListing, List.mem_cons, List.not_mem_nil, or_false] at hfile
    rcases hfile with rfl | rfl | rfl
    · exact ⟨[tool], [7], .inside (by simp) (.here _), rfl⟩
    · exact ⟨[lib, data], [], .inside (List.mem_cons_of_mem _ List.mem_cons_self)
        (.inside (List.mem_singleton_self _) (.here _)), rfl⟩
    · exact ⟨[aid], [], .inside (by simp) (.here _), rfl⟩

theorem toolTree_pinned : pin toolSha256 toolTree toolListing [tool, aid] =
    .ok (assemble toolSha256 (toolListing.map (pinned [tool, aid]))) :=
  (pin_eq_ok toolTree_sound [tool, aid] _).mpr ⟨tool_agrees (List.Subset.refl _), rfl⟩

end Plasmosome.Software
