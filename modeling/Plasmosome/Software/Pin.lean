import Plasmosome.Foundation.FileTree
import Plasmosome.Foundation.OrderedMap
import Plasmosome.Guest.ObservationCodec
import Plasmosome.Membrane.Lossy

/-!
# Pinning a software tree

A tree is pinned against the listing of a verified package: every listed path
follows the path rule and no two of them collide, and the tree holds exactly the
listed files. The tree does not change while it is read. SHA-256 is a function of the bytes.
-/

namespace Plasmosome.Software

open Foundation FileTree
open Backend (Digest)

abbrev Text : Type := List Char

/-- One file of a pinned tree. -/
structure TreeFile where
  path : Text
  sha256 : Digest
  command : Bool
deriving DecidableEq

structure PinnedTree where
  files : List TreeFile
  digest : Digest
deriving DecidableEq

/-- One file a verified package lists. -/
structure PackageFile where
  path : Text
  digest : Digest
  size : UInt64
deriving DecidableEq

inductive PinRefusal where
  | unreadable (path : Text)
  | notRegular (path : Text)
  | link (path : Text)
  | invalidPath (path : Text)
  | collides (path : Text)
  | digestMismatch (path : Text)
  | missing (path : Text)
  | unexpected (path : Text)
  | commandNotInTree (name : Text)
deriving DecidableEq

/-! ## The listing -/

def isAsciiControl (char : Char) : Bool := char.toNat < 32 || char.toNat = 127

def followsPathRule (path : Text) : Bool :=
  let drive :=
    match path with
    | letter :: ':' :: _ => letter.isAlpha
    | _ => false
  !drive &&
    !path.any (fun char => char = '\\' || isAsciiControl char) &&
    (path.splitOn '/').all fun part => part ≠ [] && part ≠ ['.'] && part ≠ ['.', '.']

/-- What comes before each slash of a path. -/
def ancestors : Text → List Text
  | [] => []
  | char :: rest =>
      let longer := (ancestors rest).map (char :: ·)
      if char = '/' then [] :: longer else longer

/-- The path with ASCII capitals folded. -/
def folded (path : Text) : Text := path.map Char.toLower

/-- Checks the files after those whose folded paths and ancestors are given. -/
def checkAfter (files directories : List Text) : List PackageFile → Except PinRefusal Unit
  | [] => .ok ()
  | file :: rest =>
      if !followsPathRule file.path then .error (.invalidPath file.path)
      else if files.contains (folded file.path) || directories.contains (folded file.path) ||
          (ancestors (folded file.path)).any files.contains then
        .error (.collides file.path)
      else
        checkAfter (folded file.path :: files) (directories ++ ancestors (folded file.path)) rest

def checkListing (expected : List PackageFile) : Except PinRefusal Unit := checkAfter [] [] expected

/-! ## The walk -/

def joinPath (above : Text) (name : Text) : Text :=
  if above = [] then name else above ++ '/' :: name

/-- The outcomes of a directory's entries, taken in turn. -/
def gather : List (Name × Except PinRefusal (List TreeFile)) → Except PinRefusal (List TreeFile)
  | [] => .ok []
  | (_, outcome) :: rest => do
      let files ← outcome
      let more ← gather rest
      return files ++ more

section Walk

variable (sha256 : List UInt8 → Digest) (listed : List PackageFile)

def file (bytes : List UInt8) (path : Text) : Except PinRefusal (List TreeFile) :=
  match listed.find? fun file => file.path = path with
  | none => .error (.unexpected path)
  | some file =>
      if bytes.length ≠ file.size.toNat then .error (.digestMismatch path)
      else if sha256 bytes ≠ file.digest then .error (.digestMismatch path)
      else .ok [⟨path, sha256 bytes, false⟩]

mutual

/-- What is found at a path. A directory's entries are taken in the order of their names. -/
def visit : Node → Text → Except PinRefusal (List TreeFile)
  | .link, path => .error (.link path)
  | .special, path => .error (.notRegular path)
  | .closed true, path => .error (.unreadable path)
  | .closed false, path =>
      if listed.any fun file => file.path = path then .error (.unreadable path)
      else .error (.unexpected path)
  | .file bytes, path => file sha256 listed bytes path
  | .directory entries, path =>
      if entries.isEmpty && path ≠ [] then .error (.unexpected path)
      else gather (sortByKey Prod.fst (outcomes entries path))

def outcomes : List (Name × Node) → Text → List (Name × Except PinRefusal (List TreeFile))
  | [], _ => []
  | (name, node) :: rest, path =>
      (name,
        match Utf8.decode name 0 with
        | .error _ => .error (.unexpected (joinPath path (Membrane.Probe.fromUtf8Lossy name)))
        | .ok text => visit node (joinPath path text)) :: outcomes rest path

end

def rootPath : Text := ['.']

/-- The root is checked for a link first, and then listed as a directory. -/
def walk : Node → Except PinRefusal (List TreeFile)
  | .link => .error (.link rootPath)
  | .special | .file _ | .closed _ => .error (.unreadable rootPath)
  | .directory entries => visit sha256 listed (.directory entries) []

/-! ## The pinned tree -/

def encodeFile (file : TreeFile) : List UInt8 :=
  Utf8.encode file.path ++ 0 :: (Utf8.encode (Guest.hex file.sha256.bytes).toList ++
    [0, if file.command then 1 else 0])

def encoding (files : List TreeFile) : List UInt8 := files.flatMap encodeFile

/-- Texts are ordered by their bytes. -/
def sortByPath {α : Type} (path : α → Text) : List α → List α :=
  sortByKey fun value => Utf8.encode (path value)

def assemble (files : List TreeFile) : PinnedTree :=
  let files := sortByPath TreeFile.path files
  ⟨files, sha256 (encoding files)⟩

def PinnedTree.commandNames (tree : PinnedTree) : List Text :=
  (tree.files.filter TreeFile.command).map TreeFile.path

/-- The listing is searched in the order of its paths, which are distinct once it is checked. -/
def pin (root : Node) (expected : List PackageFile) (commands : List Text) :
    Except PinRefusal PinnedTree := do
  checkListing expected
  let listed := sortByPath PackageFile.path expected
  match commands.find? fun command => !listed.any fun file => file.path = command with
  | some command => .error (.commandNotInTree command)
  | none => do
      let files ← walk sha256 listed root
      match listed.find? fun file => !files.any fun seen => seen.path = file.path with
      | some file => .error (.missing file.path)
      | none => return assemble sha256 (files.map fun file =>
          { file with command := commands.any fun command => command = file.path })

end Walk

end Plasmosome.Software
