import Plasmosome.Runtime.RecipePath

/-!
# Load names

A name in a load command is resolved from the directory of the helper or of the
image that holds it, part by part; a loaded image is known by the name the loader
writes. Both follow the ordinary resolution of a path, which stops at the root.
-/

namespace Plasmosome.Runtime

open Foundation

/-! ## Path resolution -/

/-- Where one part of a path leads from some directories below the root. -/
def walkPart (parts : List (List Char)) (part : List Char) : List (List Char) :=
  if part = [] ∨ part = ['.'] then parts
  else if part = ['.', '.'] then parts.dropLast
  else parts ++ [part]

/-- The path of the directories below the root. -/
def pathText (parts : List (List Char)) : String :=
  String.ofList ('/' :: List.intercalate ['/'] parts)

/-- The ordinary resolution of an absolute path, part by part from the root. -/
def resolvePath (text : String) : String :=
  pathText ((text.toList.splitOn '/').foldl walkPart [])

/-! ## Names in load commands -/

/-- The first rule an image broke. -/
inductive ClosureFault where
  | unsupported
  | tooLarge (max : UInt64)
  | io (op : String) (errno : Int32)
  | notMachO
  | noMemberForHost
  | malformed (offset : UInt64) (what : String)
  | rpathPresent (path : String)
  | dyldEnvironment
  | unexpectedDylinker (name : String)
  | searchedName (name : String)
  | unlistedLibrary (name : String) (resolved : Option String)
  | osIdentity (name : String) (errno : Int32)
  | dotDotAfterNamedDirectory (name : String)
  | unknownRequiredCommand (cmd : UInt32)
deriving DecidableEq, Repr

inductive Resolution where
  | listed (index : Nat)
  | system (name : String)
deriving DecidableEq, Repr

/-- The text after a given start. -/
def stripPrefix (start text : List Char) : Option (List Char) :=
  if start <+: text then some (text.drop start.length) else none

/-- A `..` stands after a directory the name itself writes. -/
def climbsNamedDirectory (rest : List Char) : Bool :=
  (((rest.splitOn '/').filter fun part => part ≠ [] ∧ part ≠ ['.']).dropWhile
    (· = ['.', '.'])).any (· = ['.', '.'])

def join (directory rest : List Char) : String :=
  pathText ((directory.splitOn '/' ++ rest.splitOn '/').foldl walkPart [])

/-- The directory a path lies in. -/
def directory (path : RecipePath) : List Char :=
  match Pieces.rsplitOnce '/' path.text.toList with
  | some (directory, _) => if directory ≠ [] then directory else ['/']
  | none => ['/']

def isSystemName (pathMax : Nat) (name : String) : Bool :=
  name.toList.all (fun char => char.toNat < 128) && (RecipePath.parse pathMax name).isOk &&
    (("/usr/lib/".toList <+: name.toList) || ("/System/Library/".toList <+: name.toList))

def position (listed : List RecipePath) (text : String) : Option Nat :=
  listed.findIdx? fun path => path.text = text

/-- How the rest of a name is read: from which directory, or as an absolute name. -/
def splitName (name : String) (loaderDir executableDir : List Char) :
    Option (Option (List Char) × List Char) :=
  match stripPrefix "@executable_path/".toList name.toList with
  | some rest => some (some executableDir, rest)
  | none =>
      match stripPrefix "@loader_path/".toList name.toList with
      | some rest => some (some loaderDir, rest)
      | none => (stripPrefix ['/'] name.toList).map fun rest => (none, rest)

/-- Resolves a name to a listed library or the system boundary. -/
def resolve (pathMax : Nat) (name : String) (loaderDir executableDir : List Char)
    (listed : List RecipePath) : Except ClosureFault Resolution :=
  match splitName name loaderDir executableDir with
  | none => .error (.searchedName name)
  | some (from_, rest) =>
      if climbsNamedDirectory rest then .error (.dotDotAfterNamedDirectory name)
      else
        match from_ with
        | none =>
            match position listed name with
            | some index => .ok (.listed index)
            | none =>
                if isSystemName pathMax name then .ok (.system name)
                else .error (.unlistedLibrary name none)
        | some dir =>
            match position listed (join dir rest) with
            | some index => .ok (.listed index)
            | none => .error (.unlistedLibrary name (some (join dir rest)))

/-! ## Names of loaded images -/

/-- What a name holds after a directory and the slash behind it. -/
def underDirectory (helperDir name : List Char) : Option (List Char) :=
  (stripPrefix helperDir name).bind fun rest =>
    (stripPrefix ['/'] rest).orElse fun _ =>
      if helperDir.getLast? = some '/' then some rest else none

/-- The path a loaded image's name stands for. -/
def resolvedName (pathMax : Nat) (name : String) (helperDir : List Char) : Option String :=
  match underDirectory helperDir name.toList with
  | some rest => if climbsNamedDirectory rest then none else some (join helperDir rest)
  | none => if (RecipePath.parse pathMax name).isOk then some name else none

/-- How many loaded images passed, and why. -/
structure ImageCount where
  total : Nat
  system : Nat
  listed : Nat
deriving DecidableEq, Repr

/-- Why the loaded images are refused: `Inventory`, and what its detail says. -/
inductive ImageRefusal where
  | notJudged (name : String) (fault : ClosureFault)
  | offSealedVolume (name : String)
  | unlisted (name : String)
  | helperMissing (helper : String) (images : Nat)
deriving DecidableEq, Repr

/-- The helper and the libraries of a recipe. -/
structure LaunchFiles (pathMax : Nat) where
  helper : RecipePath
  libraries : List RecipePath
  helper_parses : RecipePath.parse pathMax helper.text = .ok helper
  libraries_parse : ∀ library ∈ libraries, RecipePath.parse pathMax library.text = .ok library

variable {pathMax : Nat}

/-- Judges one image: it is listed, or a sealed system library. -/
def judgeImage (files : LaunchFiles pathMax) (sealed : String → Except ClosureFault Bool)
    (count : ImageCount) (name : String) : Except ImageRefusal ImageCount :=
  let resolved := resolvedName pathMax name (directory files.helper)
  if (files.helper :: files.libraries).any fun path => resolved = some path.text then
    .ok { count with listed := count.listed + 1 }
  else if isSystemName pathMax name then
    match sealed name with
    | .error fault => .error (.notJudged name fault)
    | .ok true => .ok { count with system := count.system + 1 }
    | .ok false => .error (.offSealedVolume name)
  else .error (.unlisted name)

def judgeImagesWith (images : List String) (files : LaunchFiles pathMax)
    (sealed : String → Except ClosureFault Bool) : Except ImageRefusal ImageCount := do
  let count ← images.foldlM (judgeImage files sealed) ⟨images.length, 0, 0⟩
  if images.any fun name => resolvedName pathMax name (directory files.helper) =
      some files.helper.text then .ok count
  else .error (.helperMissing files.helper.text images.length)

end Plasmosome.Runtime
