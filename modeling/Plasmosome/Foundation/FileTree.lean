import Mathlib

/-!
# Trees of files

A tree of directories, regular files, symbolic links, special files, and files and
directories that cannot be opened, and what is where in it. The names in a directory
are byte strings, in the order the directory is read.
-/

namespace Foundation.FileTree

abbrev Name : Type := List UInt8

inductive Node where
  | file (bytes : List UInt8)
  | link
  | special
  | closed (isDirectory : Bool)
  | directory (entries : List (Name × Node))

namespace Node

/-- Induction over a tree, with the hypothesis for every entry. -/
@[elab_as_elim]
theorem tree_induction {motive : Node → Prop} (hfile : ∀ bytes, motive (.file bytes))
    (hlink : motive .link) (hspecial : motive .special)
    (hclosed : ∀ isDirectory, motive (.closed isDirectory))
    (hdirectory : ∀ entries : List (Name × Node),
      (∀ name node, (name, node) ∈ entries → motive node) → motive (.directory entries)) :
    ∀ node, motive node
  | .file bytes => hfile bytes
  | .link => hlink
  | .special => hspecial
  | .closed isDirectory => hclosed isDirectory
  | .directory entries => hdirectory entries fun name node hentry =>
      have _hsmaller := List.sizeOf_lt_of_mem hentry
      tree_induction hfile hlink hspecial hclosed hdirectory node
termination_by node => sizeOf node
decreasing_by
  simp_wf
  simp only [Prod.mk.sizeOf_spec] at _hsmaller
  omega

/-- What is at a path below a node. -/
inductive At : Node → List Name → Node → Prop where
  | here (node : Node) : At node [] node
  | inside {entries : List (Name × Node)} {name : Name} {child node : Node} {path : List Name}
      (hentry : (name, child) ∈ entries) (hat : At child path node) :
      At (.directory entries) (name :: path) node

/-- A name a directory can hold: not empty, not a step within the tree, with no slash and no
NUL. -/
structure Proper (name : Name) : Prop where
  nonempty : name ≠ []
  slash : 47 ∉ name
  nul : 0 ∉ name
  dot : name ≠ [46]
  dots : name ≠ [46, 46]

/-- No directory holds a name twice, and every name is one a directory can hold. -/
def Sound (root : Node) : Prop :=
  ∀ path entries, root.At path (.directory entries) →
    (entries.map Prod.fst).Nodup ∧ ∀ name node, (name, node) ∈ entries → Proper name

variable {root node other : Node} {path more : List Name} {entries : List (Name × Node)}

theorem at_nil_iff : root.At [] node ↔ node = root := by
  constructor
  · rintro ⟨⟩
    rfl
  · rintro rfl
    exact .here _

theorem at_cons_iff {name : Name} : root.At (name :: path) node ↔
    ∃ entries child, root = .directory entries ∧ (name, child) ∈ entries ∧ child.At path node := by
  constructor
  · rintro ⟨⟩
    next entries child hentry hat => exact ⟨entries, child, rfl, hentry, hat⟩
  · rintro ⟨entries, child, rfl, hentry, hat⟩
    exact .inside hentry hat

theorem At.append (hfirst : root.At path node) (hsecond : node.At more other) :
    root.At (path ++ more) other := by
  induction hfirst with
  | here => exact hsecond
  | inside hentry _ ih => exact .inside hentry (ih hsecond)

theorem Sound.inside (hsound : root.Sound) (hat : root.At path node) : node.Sound :=
  fun more entries hentries => hsound (path ++ more) entries (hat.append hentries)

theorem Sound.entry (hsound : (directory entries).Sound) {name : Name}
    (hentry : (name, node) ∈ entries) : node.Sound :=
  hsound.inside (.inside hentry (.here node))

theorem Sound.nodup (hsound : (directory entries).Sound) : (entries.map Prod.fst).Nodup :=
  (hsound [] entries (.here _)).1

theorem Sound.proper (hsound : (directory entries).Sound) {name : Name}
    (hentry : (name, node) ∈ entries) : Proper name :=
  (hsound [] entries (.here _)).2 name node hentry

theorem Sound.proper_of_at (hsound : root.Sound) (hat : root.At path node) :
    ∀ name ∈ path, Proper name := by
  induction hat with
  | here => exact nofun
  | inside hentry _ ih =>
      exact List.forall_mem_cons.mpr ⟨hsound.proper hentry, ih (hsound.entry hentry)⟩

/-! ## The files of a tree -/

mutual

/-- Every file of a tree, with its path. -/
def files : Node → List (List Name × List UInt8)
  | .file bytes => [([], bytes)]
  | .link | .special | .closed _ => []
  | .directory entries => entryFiles entries

def entryFiles : List (Name × Node) → List (List Name × List UInt8)
  | [] => []
  | (name, node) :: rest =>
      (files node).map (fun file => (name :: file.1, file.2)) ++ entryFiles rest

end

theorem entryFiles_eq (entries : List (Name × Node)) : entryFiles entries =
    entries.flatMap fun entry => entry.2.files.map fun file => (entry.1 :: file.1, file.2) := by
  induction entries with
  | nil => rfl
  | cons entry rest ih => rw [entryFiles, ih, List.flatMap_cons]

theorem files_directory (entries : List (Name × Node)) : (directory entries).files =
    entries.flatMap fun entry => entry.2.files.map fun file => (entry.1 :: file.1, file.2) := by
  rw [files, entryFiles_eq]

theorem mem_files {bytes : List UInt8} :
    (path, bytes) ∈ root.files ↔ root.At path (.file bytes) := by
  induction root using tree_induction generalizing path with
  | hfile other =>
      rw [files, List.mem_singleton, Prod.mk.injEq]
      constructor
      · rintro ⟨rfl, rfl⟩
        exact .here _
      · rintro ⟨⟩
        exact ⟨rfl, rfl⟩
  | hlink => exact ⟨nofun, fun hat => by cases hat⟩
  | hspecial => exact ⟨nofun, fun hat => by cases hat⟩
  | hclosed => exact ⟨nofun, fun hat => by cases hat⟩
  | hdirectory entries ih =>
      rw [files_directory, List.mem_flatMap]
      constructor
      · rintro ⟨⟨name, child⟩, hentry, hmem⟩
        obtain ⟨⟨below, held⟩, hfile, heq⟩ := List.mem_map.mp hmem
        cases heq
        exact .inside hentry ((ih name child hentry).mp hfile)
      · rintro ⟨⟩
        next name child below hentry hat =>
          exact ⟨(name, child), hentry,
            List.mem_map.mpr ⟨(below, bytes), (ih name child hentry).mpr hat, rfl⟩⟩

theorem Sound.nodup_files (hsound : root.Sound) : (root.files.map Prod.fst).Nodup := by
  induction root using tree_induction with
  | hfile bytes => exact List.nodup_singleton []
  | hlink => exact List.nodup_nil
  | hspecial => exact List.nodup_nil
  | hclosed => exact List.nodup_nil
  | hdirectory entries ih =>
      have hpaths : (directory entries).files.map Prod.fst =
          entries.flatMap fun entry => (entry.2.files.map Prod.fst).map (entry.1 :: ·) := by
        rw [files_directory, List.map_flatMap]
        simp only [List.map_map, Function.comp_def]
      rw [hpaths, List.nodup_flatMap]
      constructor
      · rintro ⟨name, child⟩ hentry
        exact (ih name child hentry (hsound.entry hentry)).map List.cons_injective
      · refine (List.pairwise_map.mp hsound.nodup).imp fun {first second} hne path hfirst hsecond => ?_
        obtain ⟨_, -, rfl⟩ := List.mem_map.mp hfirst
        obtain ⟨_, -, heq⟩ := List.mem_map.mp hsecond
        exact hne (List.cons.inj heq).1.symm

/-! ## Reading directories in another order -/

/-- The same tree, with directories read in another order. -/
inductive Rearranged : Node → Node → Prop where
  | refl (node : Node) : Rearranged node node
  | trans {first second third : Node} (hfirst : Rearranged first second)
      (hsecond : Rearranged second third) : Rearranged first third
  | order {entries others : List (Name × Node)} (hperm : entries.Perm others) :
      Rearranged (.directory entries) (.directory others)
  | inside {name : Name} {child other : Node} {before after : List (Name × Node)}
      (hchild : Rearranged child other) :
      Rearranged (.directory (before ++ (name, child) :: after))
        (.directory (before ++ (name, other) :: after))

/-- Two nodes of one kind: files of the same bytes, directories of as many entries. -/
def Alike : Node → Node → Prop
  | .file bytes, .file others => bytes = others
  | .link, .link => True
  | .special, .special => True
  | .closed isDirectory, .closed other => isDirectory = other
  | .directory entries, .directory others => entries.length = others.length
  | _, _ => False

theorem Alike.refl (node : Node) : Alike node node := by
  cases node <;> simp [Alike]

theorem Alike.trans {first second third : Node} (hfirst : Alike first second)
    (hsecond : Alike second third) : Alike first third := by
  cases first <;> cases second <;> cases third <;> simp_all [Alike]

theorem Rearranged.at {first second : Node} (hsame : Rearranged first second)
    (hat : first.At path node) : ∃ other, second.At path other ∧ Alike node other := by
  induction hsame generalizing path node with
  | refl => exact ⟨node, hat, .refl node⟩
  | trans _ _ ihfirst ihsecond =>
      obtain ⟨middle, hmiddle, hfirst⟩ := ihfirst hat
      obtain ⟨other, hother, hsecond⟩ := ihsecond hmiddle
      exact ⟨other, hother, hfirst.trans hsecond⟩
  | order hperm =>
      cases path with
      | nil =>
          rw [at_nil_iff.mp hat]
          exact ⟨_, .here _, hperm.length_eq⟩
      | cons name path =>
          obtain ⟨_, child, heq, hentry, hat⟩ := at_cons_iff.mp hat
          cases heq
          exact ⟨node, .inside (hperm.mem_iff.mp hentry) hat, .refl node⟩
  | @inside name child other before after hchild ih =>
      cases path with
      | nil =>
          rw [at_nil_iff.mp hat]
          exact ⟨_, .here _, by simp [Alike]⟩
      | cons step path =>
          obtain ⟨_, held, heq, hentry, hat⟩ := at_cons_iff.mp hat
          cases heq
          rcases List.mem_append.mp hentry with hbefore | hafter
          · exact ⟨node, .inside (List.mem_append_left _ hbefore) hat, .refl node⟩
          · rcases List.mem_cons.mp hafter with heq | hafter
            · cases heq
              obtain ⟨found, hfound, halike⟩ := ih hat
              exact ⟨found, .inside (List.mem_append_right _ List.mem_cons_self) hfound, halike⟩
            · exact ⟨node, .inside (List.mem_append_right _ (List.mem_cons_of_mem _ hafter)) hat,
                .refl node⟩

/-- Reading a sound tree in another order gives a sound tree. -/
theorem Rearranged.sound {first second : Node} (hsame : Rearranged first second)
    (hsound : first.Sound) : second.Sound := by
  induction hsame with
  | refl => exact hsound
  | trans _ _ ihfirst ihsecond => exact ihsecond (ihfirst hsound)
  | @order entries others hperm =>
      intro path held hat
      cases path with
      | nil =>
          cases at_nil_iff.mp hat
          refine ⟨(hperm.map _).nodup_iff.mp hsound.nodup, fun name node hentry => ?_⟩
          exact hsound.proper (hperm.mem_iff.mpr hentry)
      | cons name path =>
          obtain ⟨_, child, heq, hentry, hat⟩ := at_cons_iff.mp hat
          cases heq
          exact hsound.entry (hperm.mem_iff.mpr hentry) path held hat
  | @inside name child other before after _ ih =>
      have hchild : (name, child) ∈ before ++ (name, child) :: after :=
        List.mem_append_right _ List.mem_cons_self
      have hentries : ∀ step node, (step, node) ∈ before ++ (name, other) :: after →
          (step, node) ∈ before ++ (name, child) :: after ∨ step = name ∧ node = other := by
        intro step node hentry
        rcases List.mem_append.mp hentry with hbefore | hafter
        · exact Or.inl (List.mem_append_left _ hbefore)
        · rcases List.mem_cons.mp hafter with heq | hafter
          · exact Or.inr (Prod.mk.inj heq)
          · exact Or.inl (List.mem_append_right _ (List.mem_cons_of_mem _ hafter))
      intro path held hat
      cases path with
      | nil =>
          cases at_nil_iff.mp hat
          constructor
          · have hnodup := hsound.nodup
            simpa using hnodup
          · intro step node hentry
            rcases hentries step node hentry with hentry | ⟨rfl, -⟩
            · exact hsound.proper hentry
            · exact hsound.proper hchild
      | cons step path =>
          obtain ⟨_, node, heq, hentry, hbelow⟩ := at_cons_iff.mp hat
          cases heq
          rcases hentries step node hentry with hentry | ⟨-, rfl⟩
          · exact hsound.entry hentry path held hbelow
          · exact ih (hsound.entry hchild) path held hbelow

theorem Rearranged.symm {first second : Node} (hsame : Rearranged first second) :
    Rearranged second first := by
  induction hsame with
  | refl => exact .refl _
  | trans _ _ ihfirst ihsecond => exact .trans ihsecond ihfirst
  | order hperm => exact .order hperm.symm
  | inside _ ih => exact .inside ih

end Node

end Foundation.FileTree
