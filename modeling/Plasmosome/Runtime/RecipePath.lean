import Plasmosome.Foundation.Pieces
import Plasmosome.Foundation.Checks
import Plasmosome.Backend.Recipe

/-!
# Canonical paths

A recipe path is an absolute path in canonical form that fits a system call. The
same form is checked in two places, by different loops. Both accept exactly the
texts that some components spell, each with a slash before it.
-/

namespace Plasmosome.Runtime

open Foundation Backend

/-- Why a text is not a canonical absolute path. -/
inductive PathError where
  | empty
  | notAbsolute
  | root
  | nul
  | trailingSlash
  | emptyComponent
  | dotComponent
  | dotDotComponent
  | tooLong (bytes max : Nat)
deriving DecidableEq, Repr

/-- The text of a path. Its C string is the bytes of that text and one NUL. -/
structure RecipePath where
  text : String
deriving DecidableEq, Repr

/-- The most bytes of a path on a platform whose `PATH_MAX` is given. -/
def MAX_BYTES (pathMax : Nat) : Nat := pathMax - 1

namespace RecipePath

def parse (pathMax : Nat) (text : String) : Except PathError RecipePath :=
  if text = "" then .error .empty
  else
    match text.toList with
    | '/' :: relative =>
        let components := relative.splitOn '/'
        if relative = [] then .error .root
        else if text.toList.contains '\x00' then .error .nul
        else if relative.getLast? = some '/' then .error .trailingSlash
        else if components.any List.isEmpty then .error .emptyComponent
        else if components.any (· = ['.']) then .error .dotComponent
        else if components.any (· = ['.', '.']) then .error .dotDotComponent
        else if MAX_BYTES pathMax < byteLen text.toList then
          .error (.tooLong (byteLen text.toList) (MAX_BYTES pathMax))
        else .ok ⟨text⟩
    | _ => .error .notAbsolute

/-- The components after the leading slash. -/
def components (path : RecipePath) : List String :=
  ((path.text.toList.splitOn '/').drop 1).map String.ofList

/-- The path without its last component, unless that would be the root. -/
def parent (pathMax : Nat) (path : RecipePath) : Option RecipePath :=
  match Pieces.rsplitOnce '/' path.text.toList with
  | some (parent, _) => (parse pathMax (String.ofList parent)).toOption
  | none => none

def fileName (path : RecipePath) : String :=
  String.ofList ((path.text.toList.splitOn '/').getLast?.getD [])

end RecipePath

/-! ## Components -/

/-- A name between two slashes. -/
structure Component (piece : List Char) : Prop where
  some : piece ≠ []
  slash : '/' ∉ piece
  nul : '\x00' ∉ piece
  dot : piece ≠ ['.']
  dots : piece ≠ ['.', '.']

/-- The text that some components spell. -/
structure Spells (text : List Char) (pieces : List (List Char)) : Prop where
  some : pieces ≠ []
  components : ∀ piece ∈ pieces, Component piece
  text : text = Pieces.led '/' pieces

section Spelling

variable {text : List Char} {pieces : List (List Char)}

/-- The pieces of a text are read off it. -/
theorem Spells.splitOn (hspells : Spells text pieces) : text.splitOn '/' = [] :: pieces := by
  cases pieces with
  | nil => exact absurd rfl hspells.some
  | cons head tail =>
      have htext : text = '/' :: (head ++ Pieces.led '/' tail) := by
        rw [hspells.text, Pieces.led_cons, List.cons_append]
      rw [htext, Pieces.splitOn_cons_self,
        Pieces.splitOn_led fun piece hpiece => (hspells.components piece hpiece).slash]

/-- What the components of a text have to be. -/
theorem exists_spells_iff {relative : List Char} :
    (∃ pieces, Spells ('/' :: relative) pieces) ↔
      '\x00' ∉ relative ∧ ∀ piece ∈ relative.splitOn '/',
        piece ≠ [] ∧ piece ≠ ['.'] ∧ piece ≠ ['.', '.'] := by
  constructor
  · rintro ⟨pieces, hspells⟩
    have hpieces := hspells.splitOn
    rw [Pieces.splitOn_cons_self, List.cons.injEq] at hpieces
    constructor
    · intro hnul
      have hmem : '\x00' ∈ Pieces.led '/' pieces := by
        rw [← hspells.text]
        exact List.mem_cons_of_mem _ hnul
      obtain ⟨piece, hpiece, hchar⟩ := List.mem_flatMap.mp hmem
      rcases List.mem_cons.mp hchar with hslash | hchar
      · cases hslash
      · exact (hspells.components piece hpiece).nul hchar
    · intro piece hpiece
      rw [hpieces.2] at hpiece
      have hcomponent := hspells.components piece hpiece
      exact ⟨hcomponent.some, hcomponent.dot, hcomponent.dots⟩
  · rintro ⟨hnul, hpieces⟩
    refine ⟨relative.splitOn '/', List.splitOn_ne_nil _ _, fun piece hpiece => ?_,
      (Pieces.led_splitOn relative).symm⟩
    obtain ⟨hsome, hdot, hdots⟩ := hpieces piece hpiece
    refine ⟨hsome, Pieces.not_mem_of_mem_splitOn hpiece, fun hchar => hnul ?_, hdot, hdots⟩
    have hmem : '\x00' ∈ Pieces.led '/' (relative.splitOn '/') :=
      List.mem_flatMap.mpr ⟨piece, hpiece, List.mem_cons_of_mem _ hchar⟩
    rw [Pieces.led_splitOn] at hmem
    rcases List.mem_cons.mp hmem with hslash | hmem
    · cases hslash
    · exact hmem

end Spelling

theorem nulFree_eq_ok {field text : String} :
    nulFree field text = .ok () ↔ '\x00' ∉ text.toList := by
  unfold nulFree
  split
  next hnul => simpa using hnul
  next hfree => simpa using hfree

/-- The check of a recipe accepts exactly the texts that components spell. -/
theorem canonicalPath_eq_ok {field text : String} :
    canonicalPath field text = .ok () ↔ ∃ pieces, Spells text.toList pieces := by
  unfold canonicalPath
  rw [check_bind_eq_ok, nulFree_eq_ok]
  split
  next relative htext =>
    rw [htext, exists_spells_iff]
    have hnul : '\x00' ∉ '/' :: relative ↔ '\x00' ∉ relative := by simp
    rw [hnul]
    refine and_congr_right fun _ => ?_
    split
    next hany =>
      obtain ⟨piece, hpiece, hbad⟩ := List.any_eq_true.mp hany
      refine ⟨fun hok => (by cases hok), fun hgood => ?_⟩
      obtain ⟨hsome, hdot, hdots⟩ := hgood piece hpiece
      simp [hsome, hdot, hdots] at hbad
    next hnone =>
      refine ⟨fun _ piece hpiece => ?_, fun _ => rfl⟩
      rw [Bool.not_eq_true, List.any_eq_false] at hnone
      have hgood := hnone piece hpiece
      simpa using hgood
  next hother =>
    refine ⟨fun hok => (by cases hok.2), ?_⟩
    rintro ⟨pieces, hspells⟩
    obtain ⟨head, tail, hpieces⟩ := List.exists_cons_of_ne_nil hspells.some
    refine absurd ?_ (hother (head ++ Pieces.led '/' tail))
    rw [hspells.text, hpieces, Pieces.led_cons, List.cons_append]

/-! ## Parsing -/

namespace RecipePath

section Parse

variable {pathMax : Nat} {text : String} {path : RecipePath}

/-- The rules of a path, under the errors that name them. -/
def Broken (pathMax : Nat) (text : String) : PathError → Prop
  | .empty => text = ""
  | .notAbsolute => text.toList.head? ≠ some '/'
  | .root => text = "/"
  | .nul => '\x00' ∈ text.toList
  | .trailingSlash => text.toList.getLast? = some '/'
  | .emptyComponent => ['/', '/'] <:+: text.toList
  | .dotComponent => ['.'] ∈ (text.toList.splitOn '/').tail
  | .dotDotComponent => ['.', '.'] ∈ (text.toList.splitOn '/').tail
  | .tooLong bytes max => bytes = byteLen text.toList ∧ max = pathMax - 1 ∧ max < bytes

/-- The broken rule that comes first in the order of the errors. -/
structure FirstBroken (pathMax : Nat) (text : String) (error : PathError) : Prop where
  broken : Broken pathMax text error
  first : ∀ other, Broken pathMax text other → error.ctorIdx ≤ other.ctorIdx

theorem parse_error {error : PathError} (hparse : parse pathMax text = .error error) :
    FirstBroken pathMax text error := by
  unfold parse at hparse
  split at hparse
  next hempty =>
    cases hparse
    exact ⟨hempty, fun other _ => Nat.zero_le _⟩
  next hempty =>
    split at hparse
    next relative htext =>
      have hempty : ¬Broken pathMax text .empty := hempty
      have habsolute : ¬Broken pathMax text .notAbsolute := by
        simp [Broken, htext]
      have htail : (text.toList.splitOn '/').tail = relative.splitOn '/' := by
        rw [htext, Pieces.splitOn_cons_self, List.tail_cons]
      have hroot : Broken pathMax text .root ↔ relative = [] := by
        change text = "/" ↔ _
        rw [String.ext_iff, htext]
        simp
      simp only at hparse
      split at hparse
      next hnone =>
        cases hparse
        refine ⟨hroot.mpr hnone, fun other hother => ?_⟩
        cases other <;> first | exact absurd hother hempty | exact absurd hother habsolute | exact Nat.le_of_ble_eq_true rfl
      next hsome =>
        rw [← hroot] at hsome
        split at hparse
        next hnul =>
          cases hparse
          refine ⟨by simpa [Broken] using hnul, fun other hother => ?_⟩
          cases other <;> first | contradiction | exact Nat.le_of_ble_eq_true rfl
        next hnul =>
          have hnul : ¬Broken pathMax text .nul := by simpa [Broken] using hnul
          have hlast : Broken pathMax text .trailingSlash ↔ relative.getLast? = some '/' := by
            change text.toList.getLast? = some '/' ↔ _
            rw [htext]
            cases relative with
            | nil => exact absurd (hroot.mpr rfl) hsome
            | cons first rest => rw [List.getLast?_cons_cons]
          split at hparse
          next htrailing =>
            cases hparse
            refine ⟨hlast.mpr htrailing, fun other hother => ?_⟩
            cases other <;> first | contradiction | exact Nat.le_of_ble_eq_true rfl
          next htrailing =>
            rw [← hlast] at htrailing
            have hpiece : ∀ piece : List Char, (relative.splitOn '/').any (· = piece) = true ↔
                piece ∈ (text.toList.splitOn '/').tail := by
              intro piece
              rw [htail]
              simp
            have hmeet : (relative.splitOn '/').any List.isEmpty = true ↔
                Broken pathMax text .emptyComponent := by
              have hnil : (relative.splitOn '/').any List.isEmpty = true ↔
                  [] ∈ (text.toList.splitOn '/').tail := by
                rw [htail]
                simp
              rw [hnil, Pieces.nil_mem_tail_splitOn]
              exact or_iff_right htrailing
            split at hparse
            next hbroken =>
              cases hparse
              refine ⟨hmeet.mp hbroken, fun other hother => ?_⟩
              cases other <;> first | contradiction | exact Nat.le_of_ble_eq_true rfl
            next hinner =>
              rw [hmeet] at hinner
              split at hparse
              next hbroken =>
                cases hparse
                refine ⟨(hpiece _).mp hbroken, fun other hother => ?_⟩
                cases other <;> first | contradiction | exact Nat.le_of_ble_eq_true rfl
              next hdot =>
                have hdot : ¬Broken pathMax text .dotComponent := fun hbroken =>
                  hdot ((hpiece _).mpr hbroken)
                split at hparse
                next hbroken =>
                  cases hparse
                  refine ⟨(hpiece _).mp hbroken, fun other hother => ?_⟩
                  cases other <;> first | contradiction | exact Nat.le_of_ble_eq_true rfl
                next hdots =>
                  have hdots : ¬Broken pathMax text .dotDotComponent := fun hbroken =>
                    hdots ((hpiece _).mpr hbroken)
                  split at hparse
                  next hlong =>
                    cases hparse
                    refine ⟨⟨rfl, rfl, hlong⟩, fun other hother => ?_⟩
                    cases other <;> first | contradiction | exact Nat.le_of_ble_eq_true rfl
                  next => cases hparse
    next hother =>
      cases hparse
      refine ⟨?_, fun other hbroken => ?_⟩
      · intro hslash
        obtain ⟨relative, htext⟩ := List.head?_eq_some_iff.mp hslash
        exact hother relative htext
      · cases other <;> first | exact absurd hbroken hempty | exact Nat.le_of_ble_eq_true rfl

/-- An accepted text is kept, is spelled by components, and is short enough. -/
theorem parse_ok (hparse : parse pathMax text = .ok path) :
    path = ⟨text⟩ ∧ (∃ pieces, Spells text.toList pieces) ∧
      byteLen text.toList ≤ MAX_BYTES pathMax := by
  unfold parse at hparse
  split at hparse
  next => cases hparse
  next =>
    split at hparse
    next relative htext =>
      simp only at hparse
      split at hparse
      next => cases hparse
      next =>
        split at hparse
        next => cases hparse
        next hnul =>
          split at hparse
          next => cases hparse
          next =>
            split at hparse
            next => cases hparse
            next hempty =>
              split at hparse
              next => cases hparse
              next hdot =>
                split at hparse
                next => cases hparse
                next hdots =>
                  split at hparse
                  next => cases hparse
                  next hlong =>
                    cases hparse
                    refine ⟨rfl, ?_, Nat.le_of_not_lt hlong⟩
                    rw [htext, exists_spells_iff]
                    rw [htext] at hnul
                    refine ⟨fun hmem => hnul (by simp [hmem]), fun piece hpiece => ⟨?_, ?_, ?_⟩⟩
                    · rintro rfl
                      exact hempty (List.any_eq_true.mpr ⟨_, hpiece, rfl⟩)
                    · rintro rfl
                      exact hdot (List.any_eq_true.mpr ⟨_, hpiece, rfl⟩)
                    · rintro rfl
                      exact hdots (List.any_eq_true.mpr ⟨_, hpiece, rfl⟩)
    next => cases hparse

theorem parse_eq_ok : parse pathMax text = .ok path ↔
    path = ⟨text⟩ ∧ (∃ pieces, Spells text.toList pieces) ∧
      byteLen text.toList ≤ MAX_BYTES pathMax := by
  refine ⟨parse_ok, ?_⟩
  rintro ⟨rfl, ⟨pieces, hspells⟩, hlength⟩
  cases hparse : parse pathMax text with
  | ok path => rw [(parse_ok hparse).1]
  | error error =>
      have hbroken := (parse_error hparse).broken
      have hpieces := hspells.splitOn
      have htail : (text.toList.splitOn '/').tail = pieces := by rw [hpieces, List.tail_cons]
      obtain ⟨head, rest, rfl⟩ := List.exists_cons_of_ne_nil hspells.some
      have htext := hspells.text
      rw [Pieces.led_cons, List.cons_append] at htext
      have hhead := hspells.components head List.mem_cons_self
      have hempty : [] ∉ (text.toList.splitOn '/').tail := by
        rw [htail]
        exact fun hmem => (hspells.components [] hmem).some rfl
      rw [Pieces.nil_mem_tail_splitOn, not_or] at hempty
      exfalso
      cases error with
      | empty =>
          change text = "" at hbroken
          rw [hbroken] at htext
          cases htext
      | notAbsolute =>
          change text.toList.head? ≠ some '/' at hbroken
          rw [htext] at hbroken
          exact hbroken rfl
      | root =>
          change text = "/" at hbroken
          rw [hbroken] at htext
          have hnil := (List.cons.inj htext).2.symm
          exact hhead.some (List.append_eq_nil_iff.mp hnil).1
      | nul =>
          change '\x00' ∈ text.toList at hbroken
          rw [hspells.text] at hbroken
          obtain ⟨piece, hpiece, hchar⟩ := List.mem_flatMap.mp hbroken
          rcases List.mem_cons.mp hchar with hslash | hchar
          · cases hslash
          · exact (hspells.components piece hpiece).nul hchar
      | trailingSlash => exact hempty.1 hbroken
      | emptyComponent => exact hempty.2 hbroken
      | dotComponent =>
          change ['.'] ∈ (text.toList.splitOn '/').tail at hbroken
          rw [htail] at hbroken
          exact (hspells.components _ hbroken).dot rfl
      | dotDotComponent =>
          change ['.', '.'] ∈ (text.toList.splitOn '/').tail at hbroken
          rw [htail] at hbroken
          exact (hspells.components _ hbroken).dots rfl
      | tooLong bytes max =>
          obtain ⟨rfl, rfl, hlong⟩ := hbroken
          exact absurd hlength (Nat.not_le_of_lt hlong)

end Parse

/-! ## Components and parents -/

section Surgery

variable {pathMax : Nat} {text : String}

theorem components_eq {pieces : List (List Char)} (hspells : Spells text.toList pieces) :
    (RecipePath.mk text).components = pieces.map String.ofList := by
  rw [components, hspells.splitOn, List.drop_one, List.tail_cons]

theorem fileName_eq {pieces : List (List Char)} {last : List Char}
    (hspells : Spells text.toList (pieces ++ [last])) :
    (RecipePath.mk text).fileName = String.ofList last := by
  rw [fileName, hspells.splitOn, ← List.cons_append, List.getLast?_append, List.getLast?_singleton]
  rfl

/-- The parent of a path is spelled by all components but the last. -/
theorem parent_eq {pieces : List (List Char)} {last : List Char}
    (hspells : Spells text.toList (pieces ++ [last]))
    (hlength : byteLen text.toList ≤ MAX_BYTES pathMax) :
    (RecipePath.mk text).parent pathMax =
      if pieces = [] then none else some ⟨String.ofList (Pieces.led '/' pieces)⟩ := by
  have hlast := hspells.components last (List.mem_append_right _ List.mem_cons_self)
  have htext : text.toList = Pieces.led '/' pieces ++ '/' :: last := by
    rw [hspells.text, Pieces.led_append, Pieces.led_cons, Pieces.led_nil, List.append_nil]
  unfold parent
  simp only [htext, Pieces.rsplitOnce_append _ hlast.slash]
  split
  next hnil =>
    subst hnil
    rfl
  next hsome =>
    have hparse : parse pathMax (String.ofList (Pieces.led '/' pieces)) =
        .ok ⟨String.ofList (Pieces.led '/' pieces)⟩ := by
      refine parse_eq_ok.mpr ⟨rfl, ⟨pieces, hsome, fun piece hpiece => ?_, ?_⟩, ?_⟩
      · exact hspells.components piece (List.mem_append_left _ hpiece)
      · exact String.toList_ofList
      · rw [String.toList_ofList]
        refine Nat.le_trans ?_ hlength
        rw [htext, byteLen, byteLen, List.map_append, List.sum_append]
        exact Nat.le_add_right _ _
    rw [hparse]
    rfl

theorem join_components {pieces : List (List Char)} (hspells : Spells text.toList pieces) :
    String.join ((RecipePath.mk text).components.map ("/" ++ ·)) = text := by
  rw [components_eq hspells, String.ext_iff, hspells.text, String.toList_join, List.map_map,
    List.flatMap_map]
  refine List.flatMap_congr fun piece _ => ?_
  simp

/-- A path is its parent, a slash and its file name. -/
theorem parent_fileName {pieces : List (List Char)} {last : List Char}
    (hspells : Spells text.toList (pieces ++ [last]))
    (hlength : byteLen text.toList ≤ MAX_BYTES pathMax) :
    (((RecipePath.mk text).parent pathMax).elim "" RecipePath.text) ++ "/" ++
      (RecipePath.mk text).fileName = text := by
  have htext : text.toList = Pieces.led '/' pieces ++ '/' :: last := by
    rw [hspells.text, Pieces.led_append, Pieces.led_cons, Pieces.led_nil, List.append_nil]
  rw [parent_eq hspells hlength, fileName_eq hspells, String.ext_iff, htext]
  split
  next hnil =>
    subst hnil
    simp
  next => simp

theorem component_ofList {piece : List Char} (hcomponent : Component piece) :
    String.ofList piece ≠ "" ∧ '/' ∉ (String.ofList piece).toList ∧
      '\x00' ∉ (String.ofList piece).toList ∧ String.ofList piece ≠ "." ∧
      String.ofList piece ≠ ".." := by
  have hne : ∀ other : String, piece ≠ other.toList → String.ofList piece ≠ other := by
    rintro other hother rfl
    exact hother String.toList_ofList.symm
  rw [String.toList_ofList]
  exact ⟨hne "" hcomponent.some, hcomponent.slash, hcomponent.nul, hne "." hcomponent.dot,
    hne ".." hcomponent.dots⟩

end Surgery

/-- A path is accepted exactly when the check of a recipe accepts it and it is short enough, and
otherwise refused by the first rule it breaks. The components of an accepted path are names that
rejoin to its text, and its parent and file name do too. -/
theorem recipe_path_agrees_and_is_lossless (pathMax : Nat) (field text : String) :
    ((∃ path, parse pathMax text = .ok path) ↔
      canonicalPath field text = .ok () ∧ byteLen text.toList ≤ pathMax - 1) ∧
    (∀ error, parse pathMax text = .error error → FirstBroken pathMax text error) ∧
    ∀ path, parse pathMax text = .ok path →
      (∀ component ∈ path.components, component ≠ "" ∧ '/' ∉ component.toList ∧
        '\x00' ∉ component.toList ∧ component ≠ "." ∧ component ≠ "..") ∧
      String.join (path.components.map ("/" ++ ·)) = text ∧
      (path.parent pathMax = none ↔ path.components.length = 1) ∧
      (∀ up, path.parent pathMax = some up →
        parse pathMax up.text = .ok up ∧ up.components = path.components.dropLast) ∧
      ((path.parent pathMax).elim "" RecipePath.text) ++ "/" ++ path.fileName = text := by
  refine ⟨?_, fun error => parse_error, ?_⟩
  · rw [canonicalPath_eq_ok]
    constructor
    · rintro ⟨path, hparse⟩
      exact (parse_eq_ok.mp hparse).2
    · intro haccepted
      exact ⟨⟨text⟩, parse_eq_ok.mpr ⟨rfl, haccepted⟩⟩
  · intro path hparse
    obtain ⟨rfl, ⟨pieces, hspells⟩, hlength⟩ := parse_eq_ok.mp hparse
    obtain ⟨init, last, rfl⟩ := List.eq_nil_or_concat pieces |>.resolve_left hspells.some
    rw [List.concat_eq_append] at hspells
    have hcomponents := components_eq hspells
    refine ⟨?_, join_components hspells, ?_, ?_, parent_fileName hspells hlength⟩
    · intro component hmem
      rw [hcomponents] at hmem
      obtain ⟨piece, hpiece, rfl⟩ := List.mem_map.mp hmem
      exact component_ofList (hspells.components piece hpiece)
    · rw [parent_eq hspells hlength, hcomponents]
      cases init with
      | nil => simp
      | cons first rest => simp
    · intro up hup
      rw [parent_eq hspells hlength] at hup
      split at hup
      next => cases hup
      next hsome =>
        cases hup
        have hinit : Spells (String.ofList (Pieces.led '/' init)).toList init := by
          refine ⟨hsome, fun piece hpiece => ?_, String.toList_ofList⟩
          exact hspells.components piece (List.mem_append_left _ hpiece)
        refine ⟨parse_eq_ok.mpr ⟨rfl, ⟨init, hinit⟩, ?_⟩, ?_⟩
        · refine Nat.le_trans ?_ hlength
          rw [String.toList_ofList, hspells.text, Pieces.led_append, byteLen, byteLen,
            List.map_append, List.sum_append]
          exact Nat.le_add_right _ _
        · rw [components_eq hinit, hcomponents, List.map_append, List.map_singleton,
            List.dropLast_concat]

end RecipePath

end Plasmosome.Runtime
