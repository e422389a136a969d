import Plasmosome.Runtime.ClosureAudit
import Plasmosome.Runtime.LoadedImages
import Plasmosome.Runtime.MachOLaws

/-!
# The audit is complete

Each name of each image that passes the audit is accounted for, by the library it
resolves to or as a system name the oracle approved.
-/

namespace Plasmosome.Runtime

open Foundation

/-! ## Paths of names -/

/-- The path an absolute or a loader-relative name has by ordinary resolution. -/
inductive HasPath (executableDir loaderDir : List Char) (name : String) : String → Prop where
  | absolute (habsolute : name.toList.head? = some '/') :
      HasPath executableDir loaderDir name name
  | executable (rest : List Char) (hname : name.toList = "@executable_path/".toList ++ rest) :
      HasPath executableDir loaderDir name
        (resolvePath (String.ofList (executableDir ++ '/' :: rest)))
  | loader (rest : List Char) (hname : name.toList = "@loader_path/".toList ++ rest) :
      HasPath executableDir loaderDir name
        (resolvePath (String.ofList (loaderDir ++ '/' :: rest)))

/-- A name of the system's own libraries: an ASCII path that a recipe could give, below
`/usr/lib` or `/System/Library`. -/
structure SystemName (pathMax : Nat) (name : String) : Prop where
  ascii : ∀ char ∈ name.toList, char.toNat < 128
  parses : ∃ path, RecipePath.parse pathMax name = .ok path
  below : "/usr/lib/".toList <+: name.toList ∨ "/System/Library/".toList <+: name.toList

section Steps

variable {pathMax : Nat} {sealed : List String → String → Except ClosureFault Bool}
  {executableDir : List Char} {listed : List RecipePath}

/-- The name is resolved to a library, or is a system name the audit relied on. -/
def Accounted (pathMax : Nat) (executableDir : List Char) (listed : List RecipePath)
    (audited : AuditedNames) (role : ArtifactRole) (loaderDir : List Char) (name : String) : Prop :=
  (∃ index path, listed[index]? = some path ∧
    (role, name, ArtifactRole.library index) ∈ audited.resolved ∧
      HasPath executableDir loaderDir name path.text) ∨
  SystemName pathMax name ∧ name ∈ audited.systemNames

/-- The oracle approved each system name, asked after those before it, and none twice. -/
structure Approved (sealed : List String → String → Except ClosureFault Bool)
    (names : List String) : Prop where
  nodup : names.Nodup
  approved : ∀ index name, names[index]? = some name → sealed (names.take index) name = .ok true

/-- What was audited stays audited. -/
structure Grew (before after : AuditedNames) : Prop where
  resolved : before.resolved ⊆ after.resolved
  systemNames : before.systemNames ⊆ after.systemNames

theorem Grew.refl (audited : AuditedNames) : Grew audited audited :=
  ⟨List.Subset.refl _, List.Subset.refl _⟩

theorem Grew.trans {first second third : AuditedNames} (hfirst : Grew first second)
    (hsecond : Grew second third) : Grew first third :=
  ⟨List.Subset.trans hfirst.resolved hsecond.resolved,
    List.Subset.trans hfirst.systemNames hsecond.systemNames⟩

theorem Accounted.grow {before after : AuditedNames} (hgrew : Grew before after)
    {role : ArtifactRole} {loaderDir : List Char} {name : String}
    (haccounted : Accounted pathMax executableDir listed before role loaderDir name) :
    Accounted pathMax executableDir listed after role loaderDir name := by
  rcases haccounted with ⟨index, path, hpath, hresolved, hname⟩ | ⟨hsystem, hname⟩
  · exact .inl ⟨index, path, hpath, hgrew.resolved hresolved, hname⟩
  · exact .inr ⟨hsystem, hgrew.systemNames hname⟩

theorem Approved.concat {names : List String} (happroved : Approved sealed names) {name : String}
    (hnew : name ∉ names) (hname : sealed names name = .ok true) :
    Approved sealed (names ++ [name]) where
  nodup := by
    rw [← List.concat_eq_append, List.nodup_concat]
    exact ⟨hnew, happroved.nodup⟩
  approved := by
    intro index other hother
    rcases Nat.lt_trichotomy index names.length with hlt | rfl | hgt
    · rw [List.getElem?_append_left hlt] at hother
      rw [List.take_append_of_le_length hlt.le]
      exact happroved.approved index other hother
    · rw [List.getElem?_concat_length] at hother
      cases hother
      rw [List.take_left]
      exact hname
    · rw [List.getElem?_eq_none
        (by rw [List.length_append, List.length_singleton]; omega)] at hother
      cases hother

end Steps

end Plasmosome.Runtime
