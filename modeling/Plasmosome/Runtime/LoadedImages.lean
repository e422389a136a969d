import Plasmosome.Runtime.LoadName

/-!
# Loaded images and the audit

A loaded image passes by the file its name stands for, and a name stands for the
file the audit resolved it to.
-/

namespace Plasmosome.Runtime

open Foundation

/-! ## Path resolution -/

theorem splitOn_append_slash (first second : List Char) :
    (first ++ '/' :: second).splitOn '/' = first.splitOn '/' ++ second.splitOn '/' := by
  induction first with
  | nil => rw [List.nil_append, Pieces.splitOn_cons_self, List.splitOn_nil, List.singleton_append]
  | cons char rest ih =>
      by_cases hchar : char = '/'
      · rw [hchar, List.cons_append, Pieces.splitOn_cons_self, Pieces.splitOn_cons_self, ih,
          List.cons_append]
      · obtain ⟨head, tail, hsplit⟩ := Pieces.exists_splitOn '/' rest
        rw [List.cons_append, Pieces.splitOn_cons_ne hchar, Pieces.splitOn_cons_ne hchar, ih,
          hsplit,
          List.cons_append, List.modifyHead_cons, List.modifyHead_cons, List.cons_append]

@[simp] theorem walkPart_nil (parts : List (List Char)) : walkPart parts [] = parts :=
  if_pos (.inl rfl)

theorem walkPart_component {piece : List Char} (hpiece : Component piece)
    (parts : List (List Char)) : walkPart parts piece = parts ++ [piece] := by
  rw [walkPart, if_neg, if_neg hpiece.dots]
  rintro (hnil | hdot)
  · exact hpiece.some hnil
  · exact hpiece.dot hdot

theorem foldl_walkPart {pieces : List (List Char)} (hpieces : ∀ piece ∈ pieces, Component piece)
    (parts : List (List Char)) : pieces.foldl walkPart parts = parts ++ pieces := by
  induction pieces generalizing parts with
  | nil => rw [List.foldl_nil, List.append_nil]
  | cons piece rest ih =>
      rw [List.forall_mem_cons] at hpieces
      rw [List.foldl_cons, walkPart_component hpieces.1, ih hpieces.2, List.append_assoc,
        List.singleton_append]

theorem intercalate_slash {pieces : List (List Char)} (hsome : pieces ≠ []) :
    '/' :: List.intercalate ['/'] pieces = Pieces.led '/' pieces := by
  induction pieces with
  | nil => exact absurd rfl hsome
  | cons piece rest ih =>
      cases rest with
      | nil => simp [List.intercalate]
      | cons next others =>
          rw [Pieces.led_cons, ← ih (List.cons_ne_nil _ _), List.intercalate_cons_cons]
          simp

/-- A canonical path resolves to itself. -/
theorem resolvePath_of_spells {text : String} {pieces : List (List Char)}
    (hspells : Spells text.toList pieces) : resolvePath text = text := by
  rw [resolvePath, hspells.splitOn, List.foldl_cons, walkPart_nil,
    foldl_walkPart hspells.components, List.nil_append, pathText, intercalate_slash hspells.some,
    ← hspells.text, String.ofList_toList]

/-! ## Names under a directory -/

theorem stripPrefix_eq_some {start text rest : List Char} :
    stripPrefix start text = some rest ↔ text = start ++ rest := by
  unfold stripPrefix
  constructor
  · intro hstrip
    split at hstrip
    next hstart =>
      obtain ⟨after, rfl⟩ := hstart
      rw [Option.some.injEq, List.drop_left] at hstrip
      rw [hstrip]
    · cases hstrip
  · rintro rfl
    rw [if_pos (List.prefix_append _ _), List.drop_left]

/-- What stands under a directory is resolved from it as the whole name is. -/
theorem underDirectory_eq_some {helperDir name rest : List Char}
    (hunder : underDirectory helperDir name = some rest) :
    join helperDir rest = resolvePath (String.ofList name) ∧
      ∀ piece ∈ rest.splitOn '/', piece ∈ name.splitOn '/' := by
  unfold underDirectory at hunder
  rw [Option.bind_eq_some_iff] at hunder
  obtain ⟨after, hafter, hrest⟩ := hunder
  rw [stripPrefix_eq_some] at hafter
  subst hafter
  change (stripPrefix ['/'] after <|> _) = some rest at hrest
  rw [Option.orElse_eq_some] at hrest
  rw [resolvePath, String.toList_ofList]
  rcases hrest with hslash | ⟨-, hends⟩
  · rw [stripPrefix_eq_some] at hslash
    subst hslash
    rw [List.singleton_append, splitOn_append_slash]
    exact ⟨rfl, fun piece hpiece => List.mem_append_right _ hpiece⟩
  · split at hends
    next hlast =>
      cases hends
      obtain ⟨before, rfl⟩ := List.getLast?_eq_some_iff.mp hlast
      rw [List.append_assoc, List.singleton_append, splitOn_append_slash]
      refine ⟨?_, fun piece hpiece => List.mem_append_right _ hpiece⟩
      rw [join, splitOn_append_slash, List.splitOn_nil, List.append_assoc, List.foldl_append,
        List.foldl_append, List.foldl_append, List.foldl_cons, List.foldl_nil, walkPart_nil]
    · cases hends

/-- A name stands for the path it resolves to. -/
theorem resolvePath_of_resolvedName {pathMax : Nat} {name path : String} {helperDir : List Char}
    (hresolved : resolvedName pathMax name helperDir = some path) : resolvePath name = path := by
  unfold resolvedName at hresolved
  split at hresolved
  next rest hunder =>
    split at hresolved
    · cases hresolved
    · cases hresolved
      have hjoin := (underDirectory_eq_some hunder).1
      rw [String.ofList_toList] at hjoin
      exact hjoin.symm
  next =>
    split at hresolved
    next hparse =>
      rw [Option.some.injEq] at hresolved
      subst hresolved
      cases hpath : RecipePath.parse pathMax name with
      | error error =>
          rw [hpath] at hparse
          cases hparse
      | ok parsed =>
          obtain ⟨-, ⟨pieces, hspells⟩, -⟩ := RecipePath.parse_eq_ok.mp hpath
          exact resolvePath_of_spells hspells
    · cases hresolved

theorem climbsNamedDirectory_eq_false {rest : List Char}
    (hpieces : ∀ piece ∈ rest.splitOn '/', piece ≠ ['.', '.']) :
    climbsNamedDirectory rest = false := by
  unfold climbsNamedDirectory
  rw [List.any_eq_false]
  intro piece hpiece
  have hmem := (List.dropWhile_suffix _).subset hpiece
  rw [decide_eq_true_iff]
  exact hpieces piece (List.mem_filter.mp hmem).1

/-- A canonical path stands for itself, wherever the helper lies. -/
theorem resolvedName_of_parse {pathMax : Nat} {path : RecipePath}
    (hparse : RecipePath.parse pathMax path.text = .ok path) (helperDir : List Char) :
    resolvedName pathMax path.text helperDir = some path.text := by
  obtain ⟨-, ⟨pieces, hspells⟩, -⟩ := RecipePath.parse_eq_ok.mp hparse
  unfold resolvedName
  split
  next rest hunder =>
    obtain ⟨hjoin, hmem⟩ := underDirectory_eq_some hunder
    have hclimbs : climbsNamedDirectory rest = false := by
      apply climbsNamedDirectory_eq_false
      rintro piece hpiece rfl
      have hdots := hmem _ hpiece
      rw [hspells.splitOn, List.mem_cons] at hdots
      rcases hdots with hnil | hdots
      · cases hnil
      · exact (hspells.components _ hdots).dots rfl
    rw [hclimbs, hjoin, String.ofList_toList, resolvePath_of_spells hspells]
    rfl
  next =>
    rw [hparse]
    rfl

/-- Where the name stands under a directory, it is known by what it holds there. -/
theorem resolvedName_under {pathMax : Nat} {image : String} {helperDir rest : List Char}
    (himage : image.toList = helperDir ++ '/' :: rest ∨
      helperDir = ['/'] ∧ image.toList = '/' :: rest)
    (hclimbs : climbsNamedDirectory rest = false) :
    resolvedName pathMax image helperDir = some (join helperDir rest) := by
  have hunder : ∀ after, underDirectory helperDir image.toList = some after →
      climbsNamedDirectory after = false → join helperDir after = join helperDir rest →
        resolvedName pathMax image helperDir = some (join helperDir rest) := by
    intro after hafter hstays hjoin
    unfold resolvedName
    rw [hafter]
    simp only
    rw [hstays, hjoin]
    rfl
  have hslash : ∀ after, stripPrefix ['/'] ('/' :: after) = some after := fun after =>
    stripPrefix_eq_some.mpr rfl
  rcases himage with himage | ⟨rfl, himage⟩
  · refine hunder rest ?_ hclimbs rfl
    rw [underDirectory, himage, stripPrefix_eq_some.mpr rfl, Option.bind_some, hslash]
    rfl
  · cases hrest : stripPrefix ['/'] rest with
    | none =>
        refine hunder rest ?_ hclimbs rfl
        rw [underDirectory, himage, hslash, Option.bind_some, hrest]
        rfl
    | some after =>
        -- A second slash is folded away with the first.
        have hafter := stripPrefix_eq_some.mp hrest
        rw [List.singleton_append] at hafter
        subst hafter
        refine hunder after ?_ ?_ ?_
        · rw [underDirectory, himage, hslash, Option.bind_some, hrest]
          rfl
        · rw [← hclimbs, climbsNamedDirectory, climbsNamedDirectory, Pieces.splitOn_cons_self,
            List.filter_cons_of_neg (by simp)]
        · rw [join, join, Pieces.splitOn_cons_self after, List.foldl_append, List.foldl_append,
            List.foldl_cons, walkPart_nil]

/-! ## What the audit resolved -/

/-- The name the loader writes for an image loaded by an absolute name, or by one from the
executable's directory. -/
def NamedBy (helperDir : List Char) (name image : String) : Prop :=
  (name.toList.head? = some '/' ∧ image = name) ∨
  ∃ rest, name.toList = "@executable_path/".toList ++ rest ∧
    (image.toList = helperDir ++ '/' :: rest ∨ helperDir = ['/'] ∧ image.toList = '/' :: rest)

theorem position_eq_some {listed : List RecipePath} {text : String} {index : Nat}
    (hposition : position listed text = some index) :
    ∃ path, listed[index]? = some path ∧ path.text = text := by
  unfold position at hposition
  obtain ⟨hlength, htext, -⟩ := List.findIdx?_eq_some_iff_getElem.mp hposition
  exact ⟨listed[index], List.getElem?_eq_getElem hlength, of_decide_eq_true htext⟩

section Resolve

variable {pathMax : Nat} {name : String} {loaderDir executableDir : List Char}
  {listed : List RecipePath}

/-- A name resolved to a library is its path, or joins to it from a directory. -/
theorem resolve_listed {index : Nat}
    (hresolve : resolve pathMax name loaderDir executableDir listed = .ok (.listed index)) :
    ∃ path from_ rest, listed[index]? = some path ∧
      splitName name loaderDir executableDir = some (from_, rest) ∧
      climbsNamedDirectory rest = false ∧
      path.text = from_.elim name fun dir => join dir rest := by
  unfold resolve at hresolve
  split at hresolve
  · cases hresolve
  next from_ rest hsplit =>
    split at hresolve
    · cases hresolve
    next hclimbs =>
      rw [Bool.not_eq_true] at hclimbs
      split at hresolve
      next hnone =>
        split at hresolve
        next found hfound =>
          cases hresolve
          obtain ⟨path, hpath, htext⟩ := position_eq_some hfound
          exact ⟨path, none, rest, hpath, hsplit, hclimbs, htext⟩
        · split at hresolve <;> cases hresolve
      next dir =>
        split at hresolve
        next found hfound =>
          cases hresolve
          obtain ⟨path, hpath, htext⟩ := position_eq_some hfound
          exact ⟨path, some dir, rest, hpath, hsplit, hclimbs, htext⟩
        · cases hresolve

theorem resolve_system {system : String}
    (hresolve : resolve pathMax name loaderDir executableDir listed = .ok (.system system)) :
    system = name ∧ isSystemName pathMax name = true := by
  unfold resolve at hresolve
  split at hresolve
  · cases hresolve
  next from_ rest hsplit =>
    split at hresolve
    · cases hresolve
    · split at hresolve
      · split at hresolve
        · cases hresolve
        · split at hresolve
          next hsystem =>
            cases hresolve
            exact ⟨rfl, hsystem⟩
          · cases hresolve
      · split at hresolve <;> cases hresolve

theorem splitName_absolute (loaderDir executableDir : List Char)
    (habsolute : name.toList.head? = some '/') :
    ∃ rest, splitName name loaderDir executableDir = some (none, rest) := by
  obtain ⟨rest, hname⟩ := List.head?_eq_some_iff.mp habsolute
  have hat :
      ∀ start : List Char, start.head? = some '@' → stripPrefix start name.toList = none := by
    intro start hstart
    cases hstrip : stripPrefix start name.toList with
    | none => rfl
    | some after =>
        rw [stripPrefix_eq_some, hname] at hstrip
        obtain ⟨others, rfl⟩ := List.head?_eq_some_iff.mp hstart
        cases hstrip
  refine ⟨rest, ?_⟩
  rw [splitName, hat _ rfl, hat _ rfl]
  simp only
  rw [stripPrefix_eq_some.mpr hname]
  rfl

theorem splitName_executable {rest : List Char}
    (hname : name.toList = "@executable_path/".toList ++ rest) :
    splitName name loaderDir executableDir = some (some executableDir, rest) := by
  rw [splitName, stripPrefix_eq_some.mpr hname]

/-- An image is known by the path the audit resolved its name to. -/
theorem resolvedName_of_resolve {index : Nat} {image : String}
    (hlisted : ∀ path ∈ listed, RecipePath.parse pathMax path.text = .ok path)
    (hresolve : resolve pathMax name loaderDir executableDir listed = .ok (.listed index))
    (hnamed : NamedBy executableDir name image) : ∃ path, listed[index]? = some path ∧
      resolvedName pathMax image executableDir = some path.text := by
  obtain ⟨path, from_, rest, hpath, hsplit, hclimbs, htext⟩ := resolve_listed hresolve
  refine ⟨path, hpath, ?_⟩
  rcases hnamed with ⟨habsolute, rfl⟩ | ⟨written, hname, himage⟩
  · obtain ⟨after, habsolute⟩ := splitName_absolute loaderDir executableDir habsolute
    rw [habsolute] at hsplit
    cases hsplit
    change path.text = image at htext
    rw [← htext]
    exact resolvedName_of_parse (hlisted path (List.mem_of_getElem? hpath)) executableDir
  · rw [splitName_executable hname] at hsplit
    cases hsplit
    rw [htext]
    exact resolvedName_under himage hclimbs

end Resolve

/-! ## Judging -/

section Judge

variable {pathMax : Nat} (files : LaunchFiles pathMax)
  (sealed : String → Except ClosureFault Bool)

/-- The name stands for the helper or a listed library. -/
def LaunchFiles.Names (name : String) : Prop :=
  ∃ path ∈ files.helper :: files.libraries,
    resolvedName pathMax name (directory files.helper) = some path.text

/-- The image passes: it is listed, or a sealed system library. -/
def Passes (name : String) : Prop :=
  files.Names name ∨ isSystemName pathMax name = true ∧ sealed name = .ok true

variable {files sealed}

theorem judgeImage_ok {count next : ImageCount} {name : String}
    (hjudge : judgeImage files sealed count name = .ok next) :
    Passes files sealed name ∧ next.total = count.total ∧
      next.listed + next.system = count.listed + count.system + 1 := by
  unfold judgeImage at hjudge
  simp only at hjudge
  split at hjudge
  next hlisted =>
    cases hjudge
    obtain ⟨path, hpath, hresolved⟩ := List.any_eq_true.mp hlisted
    exact ⟨.inl ⟨path, hpath, of_decide_eq_true hresolved⟩, rfl, Nat.add_right_comm _ _ _⟩
  · split at hjudge
    next hsystem =>
      split at hjudge
      · cases hjudge
      next hsealed =>
        cases hjudge
        exact ⟨.inr ⟨hsystem, hsealed⟩, rfl, rfl⟩
      · cases hjudge
    · cases hjudge

theorem exists_judgeImage {name : String} (hpasses : Passes files sealed name)
    (count : ImageCount) : ∃ next, judgeImage files sealed count name = .ok next := by
  unfold judgeImage
  simp only
  split
  next => exact ⟨_, rfl⟩
  next hunlisted =>
    rcases hpasses with ⟨path, hpath, hresolved⟩ | ⟨hsystem, hsealed⟩
    · exact absurd (List.any_eq_true.mpr ⟨path, hpath, decide_eq_true hresolved⟩) hunlisted
    · rw [if_pos hsystem, hsealed]
      exact ⟨_, rfl⟩

theorem foldlM_judgeImage_ok {images : List String} {count after : ImageCount}
    (hrun : images.foldlM (judgeImage files sealed) count = .ok after) :
    (∀ name ∈ images, Passes files sealed name) ∧ after.total = count.total ∧
      after.listed + after.system = count.listed + count.system + images.length := by
  induction images generalizing count with
  | nil =>
      cases hrun
      exact ⟨nofun, rfl, rfl⟩
  | cons name rest ih =>
      rw [List.foldlM_cons, bind_eq_ok] at hrun
      obtain ⟨next, hfirst, hrest⟩ := hrun
      obtain ⟨hpasses, htotal, hsum⟩ := judgeImage_ok hfirst
      obtain ⟨hall, htotal', hsum'⟩ := ih hrest
      refine ⟨List.forall_mem_cons.mpr ⟨hpasses, hall⟩, htotal'.trans htotal, ?_⟩
      rw [hsum', hsum, List.length_cons]
      omega

theorem exists_foldlM_judgeImage {images : List String}
    (hall : ∀ name ∈ images, Passes files sealed name) (count : ImageCount) :
    ∃ after, images.foldlM (judgeImage files sealed) count = .ok after := by
  induction images generalizing count with
  | nil => exact ⟨count, rfl⟩
  | cons name rest ih =>
      rw [List.forall_mem_cons] at hall
      obtain ⟨next, hnext⟩ := exists_judgeImage hall.1 count
      obtain ⟨after, hafter⟩ := ih hall.2 next
      refine ⟨after, ?_⟩
      rw [List.foldlM_cons, hnext]
      exact hafter

end Judge

/-- Images that pass are the recipe's files or sealed system libraries, and the helper is among
them; a library the audit resolved passes under the name the loader writes for it. -/
theorem loaded_images_are_the_audited_ones (pathMax : Nat) (files : LaunchFiles pathMax)
    (sealed : String → Except ClosureFault Bool) :
    (∀ images count, judgeImagesWith images files sealed = .ok count →
      (∃ name ∈ images, resolvePath name = files.helper.text) ∧
      (∀ name ∈ images, (∃ path ∈ files.helper :: files.libraries, resolvePath name = path.text) ∨
        isSystemName pathMax name = true ∧ sealed name = .ok true) ∧
      count.total = count.listed + count.system ∧ count.total = images.length) ∧
    (∀ name loaderDir index image,
      resolve pathMax name loaderDir (directory files.helper) files.libraries =
        .ok (.listed index) → NamedBy (directory files.helper) name image →
      ∃ library, files.libraries[index]? = some library ∧
        resolvedName pathMax image (directory files.helper) = some library.text) ∧
    ∀ images, files.helper.text ∈ images →
      (∀ image ∈ images, image = files.helper.text ∨
        (∃ name loaderDir index,
          resolve pathMax name loaderDir (directory files.helper) files.libraries =
            .ok (.listed index) ∧ NamedBy (directory files.helper) name image) ∨
        ∃ loaderDir, resolve pathMax image loaderDir (directory files.helper) files.libraries =
          .ok (.system image) ∧ sealed image = .ok true) →
      ∃ count, judgeImagesWith images files sealed = .ok count := by
  have haudited : ∀ name loaderDir index image,
      resolve pathMax name loaderDir (directory files.helper) files.libraries =
        .ok (.listed index) → NamedBy (directory files.helper) name image →
      ∃ library, files.libraries[index]? = some library ∧
        resolvedName pathMax image (directory files.helper) = some library.text :=
    fun name loaderDir index image => resolvedName_of_resolve files.libraries_parse
  have hhelper := resolvedName_of_parse files.helper_parses (directory files.helper)
  refine ⟨fun images count hjudge => ?_, haudited, fun images hmem hall => ?_⟩
  · unfold judgeImagesWith at hjudge
    rw [bind_eq_ok] at hjudge
    obtain ⟨after, hrun, hseen⟩ := hjudge
    obtain ⟨hpasses, htotal, hsum⟩ := foldlM_judgeImage_ok hrun
    split at hseen
    next hany =>
      cases hseen
      obtain ⟨name, hname, hresolved⟩ := List.any_eq_true.mp hany
      refine ⟨⟨name, hname, resolvePath_of_resolvedName (of_decide_eq_true hresolved)⟩, ?_, ?_,
        htotal⟩
      · intro name hname
        rcases hpasses name hname with ⟨path, hpath, hresolved⟩ | hsystem
        · exact .inl ⟨path, hpath, resolvePath_of_resolvedName hresolved⟩
        · exact .inr hsystem
      · rw [htotal, hsum]
        exact (Nat.zero_add _).symm
    · cases hseen
  · have hpasses : ∀ image ∈ images, Passes files sealed image := by
      intro image himage
      rcases hall image himage with rfl | ⟨name, loaderDir, index, hresolve, hnamed⟩ |
        ⟨loaderDir, hresolve, hsealed⟩
      · exact .inl ⟨files.helper, List.mem_cons_self, hhelper⟩
      · obtain ⟨library, hlibrary, hresolved⟩ := haudited name loaderDir index image hresolve hnamed
        exact .inl ⟨library, List.mem_cons_of_mem _ (List.mem_of_getElem? hlibrary), hresolved⟩
      · exact .inr ⟨(resolve_system hresolve).2, hsealed⟩
    obtain ⟨after, hafter⟩ := exists_foldlM_judgeImage hpasses ⟨images.length, 0, 0⟩
    refine ⟨after, bind_eq_ok.mpr ⟨after, hafter, if_pos ?_⟩⟩
    exact List.any_eq_true.mpr ⟨_, hmem, decide_eq_true hhelper⟩

/-- A helper with one library beside it. -/
def sampleFiles : LaunchFiles 1024 where
  helper := ⟨"/opt/plasmosome/helper"⟩
  libraries := [⟨"/opt/plasmosome/libkrun.dylib"⟩]
  helper_parses := by decide +kernel
  libraries_parse := by decide +kernel

def sampleImages : List String :=
  ["/opt/plasmosome/helper", "/opt/plasmosome/libkrun.dylib", "/usr/lib/libSystem.B.dylib"]

theorem loaded_images_are_the_audited_ones_sample :
    judgeImagesWith sampleImages sampleFiles (fun _ => .ok true) =
        .ok { total := 3, listed := 2, system := 1 } ∧
      ∀ name ∈ sampleImages,
        (∃ path ∈ sampleFiles.helper :: sampleFiles.libraries, resolvePath name = path.text) ∨
          isSystemName 1024 name = true ∧
            (Except.ok true : Except ClosureFault Bool) = .ok true := by
  have hjudge : judgeImagesWith sampleImages sampleFiles (fun _ => .ok true) =
      .ok { total := 3, listed := 2, system := 1 } := by
    decide +kernel
  exact ⟨hjudge,
    ((loaded_images_are_the_audited_ones 1024 sampleFiles fun _ => .ok true).1 _ _ hjudge).2.1⟩

end Plasmosome.Runtime
