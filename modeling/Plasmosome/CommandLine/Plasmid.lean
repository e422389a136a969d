import Plasmosome.CommandLine.Text
import Plasmosome.Foundation.Words
import Plasmosome.Runtime.LoadName

/-!
# Reading plasmid's command line

Help is looked for first, then the version, then a command that is not served, and
what is left is read argument by argument up to its first fault.
-/

namespace Plasmosome.CommandLine.Plasmid

open Foundation
open Plasmosome.Runtime (stripPrefix)

/-! ## Values -/

def isTerminalControl (character : Char) : Bool :=
  let code := character.toNat
  code ≤ 0x1f || (0x7f ≤ code && code ≤ 0x9f) || code = 0x061c ||
    (0x200e ≤ code && code ≤ 0x200f) || (0x202a ≤ code && code ≤ 0x202e) ||
    (0x2066 ≤ code && code ≤ 0x2069)

def isInstanceName (text : Text) : Bool :=
  !(text == [] || text == ['.'] || text == ['.', '.']) &&
    !text.any fun character =>
      character == '/' || character == '\\' || character == '\x00' || isTerminalControl character

def isNormalAbsolute (path : Text) : Bool :=
  (stripPrefix ['/'] path).any fun rest =>
    (rest.splitOn '/').all fun component =>
      !(component == [] || component == ['.'] || component == ['.', '.'])

def isDeadlineMs (text : Text) : Bool :=
  !text.isEmpty && decide (Utf8.size text ≤ MAX_DEADLINE_DIGITS) &&
    (Utf8.encode text).all isAsciiDigit &&
      (parseU32 text).any fun deadlineMs => 1 ≤ deadlineMs && deadlineMs ≤ MAX_DEADLINE_MS

def NAME_LIMIT : Nat := 64

def isPlasmidName (name : Text) : Bool :=
  decide (Utf8.size name ≤ NAME_LIMIT) &&
    (name.splitOn '-').all fun word =>
      !word.isEmpty && (Utf8.encode word).all fun byte => isAsciiLowercase byte || isAsciiDigit byte

/-! ## Commands -/

inductive Serving where
  | byItself
  | notServed (method : Text)
deriving DecidableEq

structure Command where
  word : Text
  positionals : Nat
  serving : Serving
deriving DecidableEq

def COMMANDS : List Command :=
  [⟨['n', 'e', 'w'], 1, .byItself⟩,
    ⟨['l', 'i', 's', 't'], 0, .notServed "plasmid.list".toList⟩,
    ⟨['a', 'd', 'd'], 1, .notServed "plasmid.add".toList⟩,
    ⟨['r', 'e', 'm', 'o', 'v', 'e'], 1, .notServed "plasmid.remove".toList⟩,
    ⟨['r', 'e', 'l', 'o', 'a', 'd'], 1, .notServed "plasmid.reload".toList⟩,
    ⟨['r', 'e', 'n', 'e', 'w'], 1, .notServed "plasmid.renew".toList⟩]

def command (word : OsStr) : Option Command :=
  COMMANDS.find? fun command => spells word command.word

def served (word : OsStr) : Option Command :=
  (command word).filter fun command => command.serving = .byItself

def unserved (word : OsStr) : Option (Command × Text) :=
  (command word).bind fun command =>
    match command.serving with
    | .notServed method => some (command, method)
    | .byItself => none

/-! ## Readings -/

inductive Code where
  | invalidArgument
  | notServed
deriving DecidableEq

structure Refusal where
  command : Text
  code : Code
  message : Text
  field : Option (Text × Text)
  form : Form
deriving DecidableEq

def ARGUMENT : Text := ['a', 'r', 'g', 'u', 'm', 'e', 'n', 't']

def Refusal.usage (message : Text) (argument : Option OsStr) (form : Form) : Refusal where
  command := "invalid".toList
  code := .invalidArgument
  message := message
  field := argument.map fun argument => (ARGUMENT, toStringLossy argument)
  form := form

def Refusal.notServed (method message : Text) (form : Form) : Refusal where
  command := method
  code := .notServed
  message := message
  field := some ("method".toList, method)
  form := form

/-- What a line asks for. Help is the binary's, or a command's. -/
inductive Reading where
  | help (of : Option Command) (form : Form)
  | version
  | refuse (refusal : Refusal)
  | new (name : Text)
deriving DecidableEq

def FLAGS : List Text := [KERNEL, SOCKET, DEADLINE, JSON, HUMAN]

structure Line where
  head : List (Kind × OsStr)
  dashes : Bool

/-- The kinds of the arguments; the first is a value when the one before takes one. -/
def classify : Bool → List OsStr → List (Kind × OsStr)
  | _, [] => []
  | wantsValue, argument :: rest =>
      let kind : Kind :=
        if wantsValue then .value else if [45].isPrefixOf argument then .flag else .word
      (kind, argument) :: classify (kind = .flag && VALUE_FLAGS.any (spells argument)) rest

namespace Line

def new (arguments : List OsStr) : Line :=
  let split := (arguments.findIdx? fun argument => spells argument DASHES).getD arguments.length
  ⟨classify false (arguments.take split), split < arguments.length⟩

variable (line : Line)

def anywhere (flag : Text) : Bool := line.head.any fun argument => spells argument.2 flag

def flags : List OsStr :=
  (line.head.filter fun argument => argument.1 = .flag).map Prod.snd

def commandWords : List OsStr :=
  ((line.head.takeWhile fun argument =>
    argument.1 ≠ .flag || KNOWN_FLAGS.any (spells argument.2) || holdsItsValue argument.2).filter
      fun argument => argument.1 = .word).map Prod.snd

def count (flag : Text) : Nat := (line.flags.filter fun argument => spells argument flag).length

def form : Form := if line.count HUMAN = 1 ∧ line.count JSON = 0 then .human else .json

def usage (message : Text) (argument : Option OsStr) : Reading :=
  .refuse (Refusal.usage message argument line.form)

def unknown (word : OsStr) : Reading :=
  line.usage ("unknown command ".toList ++ quoted (toStringLossy word) ++
    "; see plasmid --help".toList) (some word)

def extra (command : Command) (extra : OsStr) : Reading :=
  let message :=
    if command.positionals = 0 then
      "plasmid ".toList ++ command.word ++ " takes no name, and ".toList ++
        quoted (toStringLossy extra) ++ " is one".toList
    else
      "plasmid ".toList ++ command.word ++ " takes exactly one name, such as `plasmid ".toList ++
        command.word ++ " my-plasmid`, and ".toList ++ quoted (toStringLossy extra) ++
          " is a second one".toList
  line.usage message (some extra)

def help : Reading :=
  let words := line.commandWords
  match words with
  | [] => .help none line.form
  | first :: _ =>
      match command first with
      | none => line.unknown first
      | some command =>
          match words[1 + command.positionals]? with
          | some extra => line.extra command extra
          | none => .help (some command) line.form

def twiceOrClash (seen : List Text) (flag : Text) : Option Reading :=
  if seen.contains flag then
    some (line.usage (flag ++ " is given twice; a flag is given at most once".toList)
      (some (Utf8.encode flag)))
  else
    let other : Option Text :=
      if flag = JSON then some HUMAN else if flag = HUMAN then some JSON else none
    match other with
    | none => none
    | some other =>
        if seen.contains other then
          some (line.usage (JSON ++ " and ".toList ++ HUMAN ++ " cannot be given together".toList)
            (some (Utf8.encode flag)))
        else none

/-- The first fault among the flags for a form. -/
def formFault : List OsStr → List Text → Option Reading
  | [], _ => none
  | flag :: rest, seen =>
      match [JSON, HUMAN].find? (spells flag) with
      | none => formFault rest seen
      | some form =>
          match line.twiceOrClash seen form with
          | some fault => some fault
          | none => formFault rest (seen ++ [form])

def notServed (command : Command) (method : Text) : Reading :=
  match line.formFault line.flags [] with
  | some fault => fault
  | none =>
      .refuse (Refusal.notServed method
        ("plasmid ".toList ++ command.word ++ " is not served by this build".toList) line.form)

def valueFault (flag : OsStr) (value : Text) : Option Reading :=
  let rule : Option Text :=
    if spells flag KERNEL && !isInstanceName value then some NAME_RULE
    else if spells flag SOCKET && !isNormalAbsolute value then some PATH_RULE
    else if spells flag DEADLINE && !isDeadlineMs value then some DEADLINE_RULE
    else none
  rule.map fun rule =>
    line.usage (quoted value ++ " is refused for ".toList ++ toStringLossy flag ++ ": ".toList ++ rule)
      (some (Utf8.encode value))

def missingValue : Option Reading :=
  match line.head.getLast? with
  | none => none
  | some (kind, flag) =>
      if kind = .flag ∧ VALUE_FLAGS.any (spells flag) then
        some (line.usage (toStringLossy flag ++ " needs a value".toList) (some flag))
      else none

def notTaken (command : Command) (flag : Text) : Reading :=
  line.usage ("plasmid ".toList ++ command.word ++
    " takes no flag but -h and --help, and ".toList ++ flag ++ " is one".toList)
    (some (Utf8.encode flag))

def notAName (name : Text) : Reading :=
  line.usage (quoted name ++ (" is not a plasmid name, which is lower-case letters and digits in " ++
    "words joined by single hyphens, at most 64 bytes, such as my-plasmid; nothing was " ++
      "written").toList) (some (Utf8.encode name))

/-- The argument before an index. -/
def before (index : Nat) : Run OsStr := do
  let index ← present (Words.sub index 1)
  let argument ← present line.head[index]?
  .ok argument.2

/-- What the full parse keeps of the arguments it passed. -/
structure Scan where
  seen : List Text
  atCommand : Bool
  name : Option Text

/-- The arguments from an index on: the first fault, or what is kept of them all. -/
def scan (command : Option Command) : List (Kind × OsStr) → Nat → Scan → Run (Reading ⊕ Scan)
  | [], _, state => .ok (.inr state)
  | (kind, argument) :: rest, index, state =>
      match toStr? argument with
      | none =>
          .ok (.inl (line.usage (quoted (toStringLossy argument) ++
            " is not valid UTF-8, and every argument must be".toList) (some argument)))
      | some text =>
          match kind, command with
          | .value, _ => do
              let flag ← line.before index
              match line.valueFault flag text with
              | some fault => .ok (.inl fault)
              | none => scan command rest (index + 1) state
          | .flag, taken =>
              if !FLAGS.contains text then
                .ok (.inl (line.usage ("unknown flag ".toList ++ quoted text ++
                  "; see plasmid --help".toList) (some argument)))
              else
                match taken with
                | some command => .ok (.inl (line.notTaken command text))
                | none =>
                    match line.twiceOrClash state.seen text with
                    | some fault => .ok (.inl fault)
                    | none =>
                        scan command rest (index + 1) { state with seen := state.seen ++ [text] }
          | .word, none => .ok (.inl (line.unknown argument))
          | .word, some taken =>
              if !state.atCommand then scan command rest (index + 1) { state with atCommand := true }
              else
                match state.name with
                | some _ => .ok (.inl (line.extra taken argument))
                | none =>
                    if isPlasmidName text then
                      scan command rest (index + 1) { state with name := some text }
                    else .ok (.inl (line.notAName text))

def parse : Run Reading := do
  let command := line.commandWords.head?.bind served
  match ← line.scan command line.head 0 ⟨[], false, none⟩ with
  | .inl fault => .ok fault
  | .inr state =>
      match line.missingValue with
      | some fault => .ok fault
      | none =>
          if line.dashes then
            .ok (line.usage "no plasmid command takes arguments after `--`".toList
              (some (Utf8.encode DASHES)))
          else
            match command, state.name with
            | none, _ => .ok (line.usage "a command is required; see plasmid --help".toList none)
            | some _, none =>
                .ok (line.usage
                  "plasmid new takes exactly one name, such as `plasmid new my-plasmid`".toList none)
            | some _, some name => .ok (.new name)

end Line

def read (arguments : List OsStr) : Run Reading :=
  let line := Line.new arguments
  if line.anywhere SHORT_HELP || line.anywhere HELP then .ok line.help
  else if arguments = [Utf8.encode VERSION] then .ok .version
  else if line.anywhere VERSION then
    .ok (line.usage (VERSION ++ " is read only as the sole argument".toList)
      (some (Utf8.encode VERSION)))
  else
    match line.commandWords.head?.bind unserved with
    | some (command, method) => .ok (line.notServed command method)
    | none => line.parse

end Plasmosome.CommandLine.Plasmid
