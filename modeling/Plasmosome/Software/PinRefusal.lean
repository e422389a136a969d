import Plasmosome.Software.PinLaws

/-!
# What a refusal says

A refusal to pin a tree is true of what it names: a listed path that is at fault, a
command that is not listed, or a place in the tree.
-/

namespace Plasmosome.Software

open Foundation FileTree
open Backend (Digest)

section Refusal

variable {sha256 : List UInt8 → Digest} {root : Node} {expected : List PackageFile}
  {commands : List Text}

/-- What each refusal says. -/
inductive Fault (sha256 : List UInt8 → Digest) (root : Node) (expected : List PackageFile)
    (commands : List Text) : PinRefusal → Prop where
  | invalidPath {file : PackageFile} (hfile : file ∈ expected)
      (hrule : followsPathRule file.path = false) :
      Fault sha256 root expected commands (.invalidPath file.path)
  | collides {before after : List PackageFile} {earlier file : PackageFile}
      (hlisting : expected = before ++ file :: after) (hearlier : earlier ∈ before)
      (hcollides : Collides earlier.path file.path) :
      Fault sha256 root expected commands (.collides file.path)
  | commandNotInTree {name : Text} (hname : name ∈ commands)
      (hunlisted : ∀ file ∈ expected, file.path ≠ name) :
      Fault sha256 root expected commands (.commandNotInTree name)
  | missing {file : PackageFile} (hfile : file ∈ expected)
      (habsent : ∀ (texts : List Text) (bytes : List UInt8),
        root.At (texts.map Utf8.encode) (.file bytes) → slashed texts ≠ file.path) :
      Fault sha256 root expected commands (.missing file.path)
  | rootLink (hroot : root = .link) : Fault sha256 root expected commands (.link rootPath)
  | rootUnreadable (hlink : root ≠ .link) (hroot : ∀ entries, root ≠ .directory entries) :
      Fault sha256 root expected commands (.unreadable rootPath)
  | link {texts : List Text} (hat : root.At (texts.map Utf8.encode) .link) :
      Fault sha256 root expected commands (.link (slashed texts))
  | notRegular {texts : List Text} (hat : root.At (texts.map Utf8.encode) .special) :
      Fault sha256 root expected commands (.notRegular (slashed texts))
  | unreadable {texts : List Text} {isDirectory : Bool}
      (hat : root.At (texts.map Utf8.encode) (.closed isDirectory)) :
      Fault sha256 root expected commands (.unreadable (slashed texts))
  | unlisted {texts : List Text} {node : Node} (hat : root.At (texts.map Utf8.encode) node)
      (hfile : node = .closed false ∨ ∃ bytes, node = .file bytes)
      (hunlisted : ∀ file ∈ expected, file.path ≠ slashed texts) :
      Fault sha256 root expected commands (.unexpected (slashed texts))
  | emptyDirectory {texts : List Text} (hat : root.At (texts.map Utf8.encode) (.directory []))
      (hbelow : texts ≠ []) : Fault sha256 root expected commands (.unexpected (slashed texts))
  | unnamed {texts : List Text} {name : Name} {node : Node}
      (hat : root.At (texts.map Utf8.encode ++ [name]) node)
      (hname : ∀ text, name ≠ Utf8.encode text) :
      Fault sha256 root expected commands
        (.unexpected (joinPath (slashed texts) (Membrane.Probe.fromUtf8Lossy name)))
  | digestMismatch {texts : List Text} {bytes : List UInt8} {file : PackageFile}
      (hat : root.At (texts.map Utf8.encode) (.file bytes)) (hfile : file ∈ expected)
      (hpath : file.path = slashed texts)
      (hdiffers : bytes.length ≠ file.size.toNat ∨ sha256 bytes ≠ file.digest) :
      Fault sha256 root expected commands (.digestMismatch (slashed texts))

theorem checkAfter_error {seen rest : List PackageFile} {files directories : List Text}
    (hfiles : ∀ text ∈ files, ∃ file ∈ seen, folded file.path = text)
    (hdirectories : ∀ text ∈ directories, ∃ file ∈ seen, text ∈ ancestors (folded file.path))
    {refusal : PinRefusal} (hcheck : checkAfter files directories rest = .error refusal) :
    Fault sha256 root (seen ++ rest) commands refusal := by
  induction rest generalizing seen files directories with
  | nil => cases hcheck
  | cons file rest ih =>
      have hmem : file ∈ seen ++ file :: rest := List.mem_append_right _ List.mem_cons_self
      rw [checkAfter] at hcheck
      split at hcheck
      next hrule =>
        cases hcheck
        exact .invalidPath hmem (by simpa using hrule)
      next =>
        split at hcheck
        next hclash =>
          cases hcheck
          obtain ⟨earlier, hearlier, hcollides⟩ :
              ∃ earlier ∈ seen, Collides earlier.path file.path := by
            simp only [Bool.or_eq_true, List.contains_iff_mem, List.any_eq_true] at hclash
            rcases hclash with (hsame | habove) | ⟨above, habove, hbefore⟩
            · obtain ⟨earlier, hearlier, heq⟩ := hfiles _ hsame
              exact ⟨earlier, hearlier, Or.inl heq⟩
            · obtain ⟨earlier, hearlier, hancestor⟩ := hdirectories _ habove
              exact ⟨earlier, hearlier, Or.inr (Or.inr hancestor)⟩
            · obtain ⟨earlier, hearlier, rfl⟩ := hfiles _ hbefore
              exact ⟨earlier, hearlier, Or.inr (Or.inl habove)⟩
          exact .collides rfl hearlier hcollides
        next =>
          rw [List.append_cons]
          refine ih (fun text htext => ?_) (fun text htext => ?_) hcheck
          · rcases List.mem_cons.mp htext with rfl | hbefore
            · exact ⟨file, by simp, rfl⟩
            · obtain ⟨earlier, hearlier, heq⟩ := hfiles text hbefore
              exact ⟨earlier, List.mem_append_left _ hearlier, heq⟩
          · rcases List.mem_append.mp htext with hbefore | hnew
            · obtain ⟨earlier, hearlier, hancestor⟩ := hdirectories text hbefore
              exact ⟨earlier, List.mem_append_left _ hearlier, hancestor⟩
            · exact ⟨file, by simp, hnew⟩

theorem gather_error {list : List (Name × Except PinRefusal (List TreeFile))} {refusal : PinRefusal}
    (hgather : gather list = .error refusal) : ∃ entry ∈ list, entry.2 = .error refusal := by
  induction list with
  | nil => cases hgather
  | cons entry rest ih =>
      obtain ⟨name, outcome⟩ := entry
      rw [gather] at hgather
      cases outcome with
      | error other =>
          cases hgather
          exact ⟨_, List.mem_cons_self, rfl⟩
      | ok first =>
          cases hrest : gather rest with
          | error other =>
              rw [hrest] at hgather
              cases hgather
              obtain ⟨entry, hentry, herror⟩ := ih hrest
              exact ⟨entry, List.mem_cons_of_mem _ hentry, herror⟩
          | ok more =>
              rw [hrest] at hgather
              cases hgather

/-- The walk below a place in the tree, and what its refusal says. -/
theorem visit_error (hsound : root.Sound) {listed : List PackageFile} (hperm : listed.Perm expected)
    {node : Node} {texts : List Text} (hat : root.At (texts.map Utf8.encode) node)
    {refusal : PinRefusal}
    (hvisit : visit sha256 listed node (slashed texts) = .error refusal) :
    Fault sha256 root expected commands refusal := by
  induction node using Node.tree_induction generalizing texts with
  | hfile bytes =>
      rw [visit, file] at hvisit
      split at hvisit
      next hfind =>
        cases hvisit
        refine .unlisted hat (Or.inr ⟨bytes, rfl⟩) fun listing hlisting hpath => ?_
        have hnone := List.find?_eq_none.mp hfind listing (hperm.mem_iff.mpr hlisting)
        simp [hpath] at hnone
      next listing hfind =>
        have hpath : listing.path = slashed texts := by simpa using List.find?_some hfind
        have hlisting := hperm.mem_iff.mp (List.mem_of_find?_eq_some hfind)
        split at hvisit
        next hsize =>
          cases hvisit
          exact .digestMismatch hat hlisting hpath (Or.inl hsize)
        next =>
          split at hvisit
          next hdigest =>
            cases hvisit
            exact .digestMismatch hat hlisting hpath (Or.inr hdigest)
          next => cases hvisit
  | hlink =>
      cases hvisit
      exact .link hat
  | hspecial =>
      cases hvisit
      exact .notRegular hat
  | hclosed isDirectory =>
      cases isDirectory with
      | true =>
          cases hvisit
          exact .unreadable hat
      | false =>
          rw [visit] at hvisit
          split at hvisit
          next =>
            cases hvisit
            exact .unreadable hat
          next hunlisted =>
            cases hvisit
            refine .unlisted hat (Or.inl rfl) fun listing hlisting hpath => hunlisted ?_
            simpa using ⟨listing, hperm.mem_iff.mpr hlisting, hpath⟩
  | hdirectory entries ih =>
      rw [visit] at hvisit
      split at hvisit
      next hempty =>
        cases hvisit
        simp only [Bool.and_eq_true, List.isEmpty_iff, decide_eq_true_eq] at hempty
        obtain ⟨rfl, hpath⟩ := hempty
        refine .emptyDirectory hat ?_
        rintro rfl
        exact hpath rfl
      next =>
        obtain ⟨entry, hfailed, herror⟩ := gather_error hvisit
        have hmem := (sortByKey_perm _).subset hfailed
        rw [outcomes_eq_map] at hmem
        obtain ⟨⟨name, child⟩, hentry, rfl⟩ := List.mem_map.mp hmem
        have hchild : root.At (texts.map Utf8.encode ++ [name]) child :=
          hat.append (.inside hentry (.here child))
        dsimp only [entryOutcome] at herror
        split at herror
        next hdecode =>
          cases herror
          refine .unnamed hchild fun text hname => ?_
          rw [hname, Utf8.decode_encode] at hdecode
          cases hdecode
        next text hdecode =>
          obtain rfl := Utf8.decode_eq_ok.mp hdecode
          have hmapped : root.At ((texts ++ [text]).map Utf8.encode) child := by
            rw [List.map_append]
            exact hchild
          have hparts := parts_of_at hsound hmapped
          have hjoined : joinPath (slashed texts) text = slashed (texts ++ [text]) := by
            rw [← foldl_joinPath_nil hparts, List.foldl_append,
              foldl_joinPath_nil fun part hpart => hparts part (List.mem_append_left _ hpart)]
            rfl
          rw [hjoined] at herror
          exact ih _ child hentry hmapped herror

theorem walk_error (hsound : root.Sound) {listed : List PackageFile} (hperm : listed.Perm expected)
    {refusal : PinRefusal} (hwalk : walk sha256 listed root = .error refusal) :
    Fault sha256 root expected commands refusal := by
  cases root with
  | link =>
      cases hwalk
      exact .rootLink rfl
  | directory entries =>
      have hhere :
          (Node.directory entries).At (([] : List Text).map Utf8.encode) (.directory entries) :=
        .here _
      exact visit_error hsound hperm hhere hwalk
  | _ =>
      cases hwalk
      exact .rootUnreadable nofun nofun

/-- Every refusal is true of what it names. -/
theorem refusal_names_fault (hsound : root.Sound) {refusal : PinRefusal}
    (hpin : pin sha256 root expected commands = .error refusal) :
    Fault sha256 root expected commands refusal := by
  have hperm : (sortByPath PackageFile.path expected).Perm expected := sortByKey_perm _
  rw [pin] at hpin
  cases hlisting : checkListing expected with
  | error other =>
      rw [hlisting] at hpin
      cases hpin
      refine @checkAfter_error sha256 root commands [] expected [] [] ?_ ?_ _ hlisting
      · intro file hfile
        cases hfile
      · intro file hfile
        cases hfile
  | ok checked =>
      rw [hlisting] at hpin
      have hnodup := nodup_of_pairwise ((checkListing_eq_ok expected).mp hlisting).2
      have hlistedNodup := (hperm.map PackageFile.path).nodup_iff.mpr hnodup
      simp only [bind, Except.bind] at hpin
      cases hcommand : commands.find? fun command =>
          !(sortByPath PackageFile.path expected).any fun file => file.path = command with
      | some command =>
        rw [hcommand] at hpin
        cases hpin
        refine .commandNotInTree (List.mem_of_find?_eq_some hcommand) fun file hfile hpath => ?_
        have hunlisted := List.find?_some hcommand
        simp only [Bool.not_eq_true', List.any_eq_false, decide_eq_true_eq] at hunlisted
        exact hunlisted file (hperm.mem_iff.mpr hfile) hpath
      | none =>
        rw [hcommand] at hpin
        cases hwalk : walk sha256 (sortByPath PackageFile.path expected) root with
        | error other =>
            rw [hwalk] at hpin
            cases hpin
            exact walk_error hsound hperm hwalk
        | ok files =>
            rw [hwalk] at hpin
            cases hmissing : (sortByPath PackageFile.path expected).find? fun file =>
                !files.any fun seen => seen.path = file.path with
            | some file =>
              simp only [hmissing] at hpin
              cases hpin
              obtain ⟨-, hvisit⟩ := walk_eq_ok.mp hwalk
              have hfound := (visit_sound hlistedNodup hvisit).2
              have hunseen := List.find?_some hmissing
              simp only [Bool.not_eq_true', List.any_eq_false, decide_eq_true_eq] at hunseen
              refine .missing (hperm.mem_iff.mp (List.mem_of_find?_eq_some hmissing)) ?_
              intro texts bytes hat hpath
              have hseen := hfound.symm.subset (mem_found.mpr ⟨_, bytes, hat, rfl⟩)
              refine hunseen _ hseen ?_
              rw [map_nameText, foldl_joinPath_nil (parts_of_at hsound hat)]
              exact hpath
            | none =>
              simp only [hmissing] at hpin
              cases hpin

theorem parent_path_refused :
    let listing : List PackageFile := [⟨"..".toList, emptyDigest, 0⟩]
    pin toolSha256 toolTree listing [] = .error (.invalidPath "..".toList) ∧
      Fault toolSha256 toolTree listing [] (.invalidPath "..".toList) := by
  intro listing
  have hpin : pin toolSha256 toolTree listing [] = .error (.invalidPath "..".toList) := rfl
  exact ⟨hpin, refusal_names_fault toolTree_sound hpin⟩

end Refusal

end Plasmosome.Software
