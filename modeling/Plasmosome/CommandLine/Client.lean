import Plasmosome.CommandLine.Text
import Plasmosome.Foundation.Words
import Plasmosome.Reply.Write
import Plasmosome.Runtime.LoadName

/-!
# Reading plasmosome's command line

The arguments are read against a table of commands, whose served ones may own flags.
Help is looked for first, then the version, then a command that is not served, and
what is left is read argument by argument up to its first fault.
-/

namespace Plasmosome.CommandLine.Client

open Foundation
open Plasmosome.Runtime (stripPrefix)

/-! ## Values -/

/-- The rules of an instance name, without those of a terminal. -/
def instanceNameParses (text : Text) : Bool :=
  if text.isEmpty then false
  else !(text.contains '/' || text.contains '\\' || text == ['.'] || text == ['.', '.'] ||
    text.contains '\x00')

def isInstanceName (text : Text) : Bool :=
  instanceNameParses text && !text.any Reply.isTerminalControl

def isNormalAbsolute (path : Text) : Bool :=
  (stripPrefix ['/'] path).any fun rest =>
    (rest.splitOn '/').all fun component =>
      !(component == [] || component == ['.'] || component == ['.', '.'])

def deadlineMs (text : Text) : Option UInt32 :=
  if text.isEmpty || decide (MAX_DEADLINE_DIGITS < Utf8.size text) ||
      !(Utf8.encode text).all isAsciiDigit then none
  else (parseU32 text).filter fun deadlineMs => 1 ≤ deadlineMs && deadlineMs ≤ MAX_DEADLINE_MS

/-- An integer is 0, or digits with no leading zero. -/
def isInteger (text : Text) : Bool :=
  text == ['0'] || (text.head?.any (fun first => '1' ≤ first && first ≤ '9') &&
    (Utf8.encode text).all isAsciiDigit)

/-! ## Commands -/

inductive FlagKind where
  | text
  | integer
  | bare
  | mock
deriving DecidableEq

def FlagKind.takesValue (kind : FlagKind) : Bool := kind = .text || kind = .integer

structure Flag where
  name : Text
  key : Text
  kind : FlagKind
deriving DecidableEq

def Flag.matches (flag : Flag) (text : OsStr) : Bool :=
  spells text flag.name || (flag.kind = .mock &&
    (Utf8.encode flag.name).isPrefixOf text &&
      [61].isPrefixOf (text.drop (Utf8.encode flag.name).length))

structure Command where
  words : List Text
  operands : List Text
  command : Text
  isMethod : Bool
  served : Bool
  flags : List Flag
  takesArgv : Bool
deriving DecidableEq

def Command.method (command : Command) : Option Text :=
  if command.isMethod then some command.command else none

def Command.title (command : Command) : Text := [' '].intercalate command.words

/-- The flag of a served command that an argument gives. -/
def servedFlag (commands : List Command) (text : OsStr) : Option Flag :=
  ((commands.filter Command.served).flatMap Command.flags).find? fun flag => flag.matches text

def takesValue (commands : List Command) (flag : OsStr) : Bool :=
  VALUE_FLAGS.any (spells flag) || (servedFlag commands flag).any fun own => own.kind.takesValue

/-! ## Readings -/

inductive ClientCode where
  | invalidArgument
  | notServed
deriving DecidableEq

structure ClientError where
  code : ClientCode
  message : Text
  fields : List (Text × Text)
deriving DecidableEq

inductive Sent where
  | text (value : Text)
  | number (value : Text)
  | true
  | argv (arguments : List Text)
deriving DecidableEq

inductive ArgSource where
  | flag (name : Text)
  | positional (operand : Text)
  | argv
deriving DecidableEq

structure Given where
  source : ArgSource
  position : Nat
  argument : Text
  sent : Sent
deriving DecidableEq

structure CommandArgs where
  given : List Given
  kernelAt : Option Nat
deriving DecidableEq

def CommandArgs.give (args : CommandArgs) (source : ArgSource) (position : Nat) (argument : Text)
    (sent : Sent) : CommandArgs :=
  { args with given := args.given ++ [⟨source, position, argument, sent⟩] }

structure Invocation where
  command : Command
  kernel : Option Text
  socket : Option Text
  deadlineMs : Option UInt32
  form : Form
  args : CommandArgs
deriving DecidableEq

/-- What help is about. -/
inductive Topic where
  | binary
  | group (words : List Text)
  | command (command : Command)
deriving DecidableEq

inductive Reading where
  | help (topic : Topic) (form : Form)
  | version
  | refuse (command : Text) (error : ClientError) (form : Form)
  | run (invocation : Invocation)
deriving DecidableEq

def ARGUMENT : Text := ['a', 'r', 'g', 'u', 'm', 'e', 'n', 't']

structure Arg where
  text : OsStr
  kind : Kind
deriving DecidableEq

structure Line where
  head : List Arg
  tail : List OsStr
  commands : List Command

structure Words where
  texts : List OsStr
  positions : List Nat

inductive Named where
  | nothing
  | group (words : List Text)
  | command (command : Command)
  | breaks (index : Nat)

/-- The longest words that lead to a command, from so many of them on. -/
def nameFrom (words : List OsStr) (commands : List Command) : Nat → Nat → Option (List Text) → Named
  | 0, _, group => group.elim .nothing .group
  | left + 1, taken, _ =>
      let leads (command : Command) : Bool :=
        decide (taken ≤ command.words.length) &&
          (command.words.zip (words.take taken)).all fun pair => spells pair.2 pair.1
      match commands.filter leads with
      | [] => .breaks (taken - 1)
      | first :: rest =>
          match (first :: rest).find? fun command => command.words.length = taken with
          | some command => .command command
          | none => nameFrom words commands left (taken + 1) (some (first.words.take taken))

def name (words : List OsStr) (commands : List Command) : Named :=
  nameFrom words commands words.length 1 none

/-- The kinds of the arguments; the first is a value when the one before takes one. -/
def classify (commands : List Command) : Bool → List OsStr → List Arg
  | _, [] => []
  | wantsValue, text :: rest =>
      let kind : Kind := if wantsValue then .value else if [45].isPrefixOf text then .flag else .word
      ⟨text, kind⟩ :: classify commands (kind = .flag && takesValue commands text) rest

namespace Line

def new (args : List OsStr) (commands : List Command) : Line :=
  let split := (args.findIdx? fun arg => spells arg DASHES).getD args.length
  ⟨classify commands false (args.take split), args.drop split, commands⟩

variable (line : Line)

def isKnown (flag : OsStr) : Bool :=
  KNOWN_FLAGS.any (spells flag) || (servedFlag line.commands flag).isSome

def commandWords : Words :=
  let words := (line.head.zipIdx.takeWhile fun entry =>
    entry.1.kind ≠ .flag || line.isKnown entry.1.text || holdsItsValue entry.1.text).filter
      fun entry => entry.1.kind = .word
  ⟨words.map fun entry => entry.1.text, words.map Prod.snd⟩

def flags : List (Nat × OsStr) :=
  (line.head.zipIdx.filter fun entry => entry.1.kind = .flag).map fun entry => (entry.2,
  entry.1.text)

def form : Form :=
  let count (flag : Text) : Nat := (line.flags.filter fun entry => spells entry.2 flag).length
  if count HUMAN = 1 ∧ count JSON = 0 then .human else .json

def usage (message : Text) (argument : Option OsStr) : Reading :=
  .refuse "invalid".toList
    ⟨.invalidArgument, message,
      (argument.map fun argument => (ARGUMENT, toStringLossy argument)).toList⟩ line.form

def extraWord (command : Command) (words : List OsStr) : Option Reading :=
  words[command.words.length + command.operands.length]?.map fun extra =>
    line.usage ("plasmosome ".toList ++ command.title ++ " takes no argument ".toList ++
      quoted (toStringLossy extra)) (some extra)

def unknownCommand (word : OsStr) : Reading :=
  line.usage ("unknown command ".toList ++ quoted (toStringLossy word) ++
    "; see plasmosome --help".toList) (some word)

def help : Run Reading := do
  let words := line.commandWords.texts
  match name words line.commands with
  | .nothing => .ok (.help .binary line.form)
  | .group group => .ok (.help (.group group) line.form)
  | .command command =>
      match line.extraWord command words with
      | some extra => .ok extra
      | none => .ok (.help (.command command) line.form)
  | .breaks index => do
      let word ← present words[index]?
      .ok (line.unknownCommand word)

def repeated (seen : List OsStr) (flag : OsStr) : Option Reading :=
  if seen.contains flag then
    some (line.usage (toStringLossy flag ++ " is given twice".toList) (some flag))
  else if (spells flag JSON && seen.contains (Utf8.encode HUMAN)) ||
      (spells flag HUMAN && seen.contains (Utf8.encode JSON)) then
    some (line.usage (JSON ++ " and ".toList ++ HUMAN ++ " cannot be given together".toList)
      (some flag))
  else none

/-- The first fault among the flags for a form. -/
def formFault : List OsStr → List OsStr → Option Reading
  | [], _ => none
  | flag :: rest, seen =>
      if !spells flag JSON && !spells flag HUMAN then formFault rest seen
      else
        match line.repeated seen flag with
        | some fault => some fault
        | none => formFault rest (seen ++ [flag])

def notServed (command : Command) : Reading :=
  match line.formFault (line.flags.map Prod.snd) [] with
  | some fault => fault
  | none =>
      .refuse command.command
        ⟨.notServed, "plasmosome ".toList ++ command.title ++ " is not served by this build".toList,
          (command.method.map fun method => ("method".toList, method)).toList⟩ line.form

def notUtf8 (bad : OsStr) : Reading :=
  line.usage (quoted (toStringLossy bad) ++
    " is not valid UTF-8, and every argument must be".toList) (some bad)

def noCommand : Reading :=
  match line.tail.head? with
  | some dashes =>
      line.usage "a command is required before `--`; see plasmosome --help".toList (some dashes)
  | none => line.usage "a command is required; see plasmosome --help".toList none

def flagName (flag : OsStr) : OsStr :=
  match servedFlag line.commands flag with
  | some own => Utf8.encode own.name
  | none => flag

/-- The fault of the flag at an index, if it has one. -/
def flagFault (index : Nat) (flag : OsStr) (seen : List OsStr) (named : Named) : Option Reading :=
  let needsValue : Option Reading :=
    if line.head[index + 1]?.isNone then
      some (line.usage (toStringLossy flag ++ " needs a value".toList) (some flag))
    else none
  if !line.isKnown flag then
    some (line.usage ("unknown flag ".toList ++ quoted (toStringLossy flag) ++
      "; see plasmosome --help".toList) (some flag))
  else
    let own := servedFlag line.commands flag
    match own.filter fun own => seen.contains (Utf8.encode own.name) with
    | some own => some (line.usage (own.name ++ " is given twice".toList) (some flag))
    | none =>
        match line.repeated seen flag with
        | some fault => some fault
        | none =>
            match own, named with
            | some own, .command command =>
                if own ∉ command.flags then
                  some (line.usage ("plasmosome ".toList ++ command.title ++ " takes no ".toList ++
                    own.name) (some flag))
                else if !takesValue line.commands flag then none
                else needsValue
            | none, .command command =>
                if !takesValue line.commands flag then none
                else if command.method.isNone then
                  some (line.usage ("plasmosome ".toList ++ command.title ++
                    " reaches no control socket, so it takes no ".toList ++ toStringLossy flag)
                      (some flag))
                else needsValue
            | _, _ => if !takesValue line.commands flag then none else needsValue

def refused (flag value rule : Text) : Reading :=
  line.usage (quoted value ++ " is refused for ".toList ++ flag ++ ": ".toList ++ rule)
    (some (Utf8.encode value))

def valueFault (flag value : OsStr) : Option Reading :=
  let text := toStringLossy value
  if spells flag KERNEL && !isInstanceName text then some (line.refused KERNEL text NAME_RULE)
  else if spells flag SOCKET && !isNormalAbsolute text then some (line.refused SOCKET text PATH_RULE)
  else if spells flag DEADLINE && (deadlineMs text).isNone then
    some (line.refused DEADLINE text DEADLINE_RULE)
  else
    (servedFlag line.commands flag).bind fun own =>
      if own.kind = .integer ∧ !isInteger text then
        some (line.refused own.name text
          "an integer is 0, or digits with no leading zero".toList)
      else none

/-- The fault of the word at an index, if it has one. -/
def wordFault (index : Nat) (words : Words) (named : Named) : Run (Option Reading) :=
  match words.positions.findIdx? (· = index) with
  | none => .ok none
  | some at' => do
      let word ← present words.texts[at']?
      match named with
      | .breaks breaks => .ok (if breaks = at' then some (line.unknownCommand word) else none)
      | .group group =>
          let title := [' '].intercalate group
          .ok (if at' + 1 = words.texts.length then
            some (line.usage (quoted title ++
              " names a group of commands; see plasmosome ".toList ++ title ++ " --help".toList)
                (some word))
          else none)
      | .command command =>
          .ok (if at' = command.words.length + command.operands.length then
            line.extraWord command words.texts
          else none)
      | .nothing => .ok none

/-- The argument before an index. -/
def before (index : Nat) : Run OsStr := do
  let index ← present (Words.sub index 1)
  let argument ← present line.head[index]?
  .ok argument.text

/-- The first fault among the arguments from an index on. -/
def faults (words : Words) (named : Named) : List Arg → Nat → List OsStr → Run (Option Reading)
  | [], _, _ => .ok none
  | arg :: rest, index, seen => do
      let fault ←
        match toStr? arg.text with
        | none => .ok (some (line.notUtf8 arg.text))
        | some _ =>
            match arg.kind with
            | .flag => .ok (line.flagFault index arg.text seen named)
            | .value => do
                let flag ← line.before index
                .ok (line.valueFault flag arg.text)
            | .word => line.wordFault index words named
      match fault with
      | some fault => .ok (some fault)
      | none =>
          faults words named rest (index + 1)
            (if arg.kind = .flag then seen ++ [line.flagName arg.text] else seen)

def tailFault (command : Command) : Option Reading :=
  match line.tail with
  | [] => none
  | dashes :: rest =>
      if !command.takesArgv then
        some (line.usage ("plasmosome ".toList ++ command.title ++ " takes nothing after `--`".toList)
          (some dashes))
      else (rest.find? fun arg => (toStr? arg).isNone).map line.notUtf8

/-- The text of the argument after an index. -/
def after (index : Nat) : Run Text := do
  let argument ← present line.head[index + 1]?
  .ok (toStringLossy argument.text)

/-- What a flag of the line gives a command. -/
def flagArgs (ties : Bool) (args : CommandArgs) (entry : Nat × OsStr) : Run CommandArgs :=
  let args := if spells entry.2 KERNEL && ties then { args with kernelAt := some entry.1 } else args
  match servedFlag line.commands entry.2 with
  | none => .ok args
  | some own => do
      let text := toStringLossy entry.2
      let (argument, sent) : Text × Sent ←
        match own.kind with
        | .text => do
            let value ← line.after entry.1
            .ok (value, .text value)
        | .integer => do
            let value ← line.after entry.1
            .ok (value, .number value)
        | .bare => .ok (text, .true)
        | .mock =>
            let mode := (stripPrefix own.name text).bind (stripPrefix ['='])
            .ok (text, .text (mode.getD "simulate".toList))
      .ok (args.give (.flag own.name) entry.1 argument sent)

def args (command : Command) (words : Words) : Run CommandArgs := do
  let ties := !command.flags.isEmpty || !command.operands.isEmpty || command.takesArgv
  let args ← line.flags.foldlM (line.flagArgs ties) ⟨[], none⟩
  let given := command.words.length
  let args := (((words.positions.drop given).zip (words.texts.drop given)).zip command.operands).foldl
    (fun args entry =>
      let text := toStringLossy entry.1.2
      args.give (.positional entry.2) entry.1.1 text (.text text)) args
  if command.takesArgv && !line.tail.isEmpty then
    .ok (args.give .argv line.head.length DASHES (.argv ((line.tail.drop 1).map toStringLossy)))
  else .ok args

def value (flag : Text) : Option Text :=
  (line.flags.find? fun entry => spells entry.2 flag).bind fun entry =>
    line.head[entry.1 + 1]?.map fun value => toStringLossy value.text

def invocation (command : Command) (words : Words) : Run Reading := do
  let args ← line.args command words
  .ok (.run ⟨command, line.value KERNEL, line.value SOCKET, (line.value DEADLINE).bind deadlineMs,
    line.form, args⟩)

def parse : Run Reading := do
  let words := line.commandWords
  let named := name words.texts line.commands
  match ← line.faults words named line.head 0 [] with
  | some fault => .ok fault
  | none =>
      match named with
      | .command command =>
          match line.tailFault command with
          | some fault => .ok fault
          | none => do
              let given ← present (Words.sub words.texts.length command.words.length)
              match command.operands[given]? with
              | some missing =>
                  .ok (line.usage ("plasmosome ".toList ++ command.title ++ " needs ".toList ++ missing)
                    none)
              | none => line.invocation command words
      | _ => .ok line.noCommand

end Line

def read (args : List OsStr) (commands : List Command) : Run Reading :=
  let line := Line.new args commands
  if line.head.any fun arg => spells arg.text SHORT_HELP || spells arg.text HELP then line.help
  else if line.head.any fun arg => spells arg.text VERSION then
    if args.length = 1 then .ok .version
    else .ok (line.usage (VERSION ++ " is read only as the sole argument".toList)
      (some (Utf8.encode VERSION)))
  else
    match name line.commandWords.texts commands with
    | .command command => if !command.served then .ok (line.notServed command) else line.parse
    | _ => line.parse

end Plasmosome.CommandLine.Client
