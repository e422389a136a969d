import Plasmosome.Runtime.MachO

/-!
# What is read of a Mach-O image

No reading of an image ends the process. An image that is read has a header for
the CPU and commands that lie back to back, and holds what those commands hold.
-/

namespace Plasmosome.Runtime

open Foundation

/-! ## Readings that do not end the process -/

section Calm

variable {ε ε' α β σ : Type}

/-- The reading gives a value or refuses. -/
def Calm (reading : Reading ε α) : Prop := reading ≠ .error .panic

end Calm

/-! ## Words -/

section Words

variable {ε : Type}

/-- The little-endian word at an index. -/
def wordAt (bytes : List UInt8) (at_ : Nat) : UInt32 :=
  UInt32.ofNat (little ((bytes.drop at_).take 4))

/-- The big-endian word at an index. -/
def bigWordAt (bytes : List UInt8) (at_ : Nat) : UInt32 :=
  UInt32.ofNat (little ((bytes.drop at_).take 4).reverse)

end Words

/-! ## One command -/

/-- The name in a command: the bytes from its offset to the first NUL. -/
def nameText (command : List UInt8) (fields : Nat) : Option String :=
  let offset := (wordAt command 8).toNat
  if fields ≤ offset ∧ offset ≤ command.length ∧ 0 ∈ command.drop offset then
    (Utf8.decode ((command.drop offset).takeWhile (· ≠ 0)) 0).toOption.map String.ofList
  else none

def commandOf (command : List UInt8) : UInt32 := wordAt command 0

/-- The commands that load a library: `LC_LOAD_DYLIB`, its weak, re-exporting, lazy and
upward forms. -/
def libraryCommands : List (UInt32 × LoadKind) :=
  [(0xc, .load), (0x80000018, .weak), (0x8000001f, .reexport), (0x20, .lazy), (0x80000023, .upward)]

/-- The commands dyld must understand that are accounted for: four libraries and the run path
above, then the compressed info, the main entry, the exports trie and the chained fixups. -/
def accounted : List UInt32 :=
  [0x80000018, 0x8000001f, 0x80000023, 0x8000001c, 0x80000022, 0x80000028, 0x80000033, 0x80000034]

/-- A command that dyld must understand and that is not accounted for. -/
def isUnaccounted (cmd : UInt32) : Bool := cmd &&& 0x80000000 ≠ 0 && cmd ∉ accounted

/-- The library a command loads, its name behind 24 bytes of fixed fields. -/
def libraryName (command : List UInt8) : Option (LoadKind × Option String) :=
  (libraryCommands.lookup (commandOf command)).map fun kind => (kind, nameText command 24)

/-- The image holds exactly what the commands hold, in order: the libraries of `LC_LOAD_DYLIB` and
its kin, the paths of `LC_RPATH`, the linkers of `LC_LOAD_DYLINKER`, whether there is an
`LC_DYLD_ENVIRONMENT`, and the commands that are not accounted for. -/
structure Holds (commands : List (List UInt8)) (image : MachOImage) : Prop where
  names : commands.filterMap libraryName = image.names.map fun entry => (entry.1, some entry.2)
  rpaths : (commands.filter fun command => commandOf command = 0x8000001c).map (nameText · 12) =
    image.rpaths.map some
  dylinkers : (commands.filter fun command => commandOf command = 0xe).map (nameText · 12) =
    image.dylinkers.map some
  environment : image.hasDyldEnvironment = commands.any fun command => commandOf command = 0x27
  requiredUnknown : (commands.map commandOf).filter isUnaccounted = image.requiredUnknown

/-- The code's match on a command is a lookup in the table of library commands. -/
theorem loadKind_eq_lookup (cmd : UInt32) : loadKind cmd = libraryCommands.lookup cmd := by
  have hcons (key value : UInt32) (kind : LoadKind) (rest : List (UInt32 × LoadKind)) :
      List.lookup key ((value, kind) :: rest) =
      if key = value then some kind else rest.lookup key := by
    rw [List.lookup_cons]
    by_cases hkey : key = value
    · simp [hkey]
    · simp [hkey, beq_eq_false_iff_ne.mpr hkey]
  simp only [libraryCommands, hcons, List.lookup_nil]
  rfl

/-- A command names a library exactly when its kind is a load kind. -/
theorem libraryName_eq {command : List UInt8} {cmd : UInt32} (hof : commandOf command = cmd) :
    libraryName command = (loadKind cmd).map fun kind => (kind, nameText command 24) := by
  rw [libraryName, hof, loadKind_eq_lookup]

/-- What one command adds, by its number. -/
theorem Holds.concat {commands : List (List UInt8)} {image next : MachOImage}
    (hholds : Holds commands image) {command : List UInt8} {cmd : UInt32}
    (hof : commandOf command = cmd)
    (hnames : (next.names.map fun entry => (entry.1, some entry.2)) =
      (image.names.map fun entry => (entry.1, some entry.2)) ++
        ((loadKind cmd).map fun kind => (kind, nameText command 24)).toList)
    (hrpaths : next.rpaths.map some =
      image.rpaths.map some ++ if cmd = rpathCommand then [nameText command 12] else [])
    (hdylinkers : next.dylinkers.map some =
      image.dylinkers.map some ++ if cmd = dylinkerCommand then [nameText command 12] else [])
    (henvironment : next.hasDyldEnvironment =
      (image.hasDyldEnvironment || decide (cmd = environmentCommand)))
    (hrequired : next.requiredUnknown =
      image.requiredUnknown ++ if isUnaccounted cmd then [cmd] else []) :
    Holds (commands ++ [command]) next where
  names := by
    rw [List.filterMap_append, hholds.names, hnames, ← libraryName_eq hof]
    cases hname : libraryName command <;> simp [hname]
  rpaths := by
    rw [List.filter_append, List.map_append, hholds.rpaths, hrpaths, List.filter_singleton, hof]
    by_cases hsame : cmd = 0x8000001c <;> simp [hsame, rpathCommand]
  dylinkers := by
    rw [List.filter_append, List.map_append, hholds.dylinkers, hdylinkers, List.filter_singleton,
      hof]
    by_cases hsame : cmd = 0xe <;> simp [hsame, dylinkerCommand]
  environment := by
    rw [List.any_append, henvironment, ← hholds.environment]
    simp only [List.any_cons, List.any_nil, Bool.or_false, hof]
    rfl
  requiredUnknown := by
    rw [List.map_append, List.filter_append, hholds.requiredUnknown, hrequired, List.map_singleton,
      List.filter_singleton, hof]
    cases isUnaccounted cmd <;> rfl

/-- The member an entry of the fat table gives. -/
def entryMember (bytes : List UInt8) (index : Nat) : Nat × Nat :=
  ((bigWordAt bytes (8 + 20 * index + 8)).toNat,
    (bigWordAt bytes (8 + 20 * index + 8)).toNat + (bigWordAt bytes (8 + 20 * index + 12)).toNat)

/-- The bytes an image is read from: the file, or the one member of a fat file for the CPU. -/
def Selected (bytes : List UInt8) (cpu : CpuType) (member : List UInt8) : Prop :=
  if 4 ≤ bytes.length ∧ bigWordAt bytes 0 = 0xcafebabe then
    ∃ index < (bigWordAt bytes 4).toNat, bigWordAt bytes (8 + 20 * index) = cpu.value ∧
      (∀ other < (bigWordAt bytes 4).toNat, other ≠ index →
        bigWordAt bytes (8 + 20 * other) ≠ cpu.value) ∧
      (entryMember bytes index).2 ≤ bytes.length ∧
      member = (bytes.drop (entryMember bytes index).1).take
        (bigWordAt bytes (8 + 20 * index + 12)).toNat
  else member = bytes

end Plasmosome.Runtime
