import Plasmosome.Foundation.Lines
import Plasmosome.Runtime.LoadName
import Plasmosome.Serde.Value

/-!
# A lane's console

A transcript counts when a begin marker, one result line for each configured probe and
an end marker stand in it with nothing between them. How the text of a result line is
parsed is a parameter.
-/

namespace Plasmosome.Lanes.Console

open Foundation
open Plasmosome.Runtime (stripPrefix)

def BEGIN : List Char := ['L', 'A', 'N', 'E', '-', 'B', 'E', 'G', 'I', 'N']

def RESULT : List Char := ['L', 'A', 'N', 'E', '-', 'R', 'E', 'S', 'U', 'L', 'T']

def END : List Char := ['L', 'A', 'N', 'E', '-', 'E', 'N', 'D']

/-- One probe's framed result. -/
structure ProbeResult where
  probe : List Char
  uid : UInt32
  exit : Option Int32
  result : Option Serde.Value

/-- What a transcript says about one run. -/
inductive ConsoleRun where
  | finished (results : List ProbeResult)
  | notRun (reason : List Char)

def isObject : Serde.Value → Bool
  | .object _ => true
  | _ => false

def decimal (number : Nat) : List Char := (toString number).toList

def quoted (text : List Char) : List Char := '`' :: text ++ ['`']

section Reader

variable (reader : List Char → Except (List Char) ProbeResult)

/-- The results up to the end marker of a run, after those already collected. -/
def collect (runId : List Char) (results : List ProbeResult) :
    List (List Char) → Except (List Char) (List ProbeResult)
  | [] => .error ("the console has no ".toList ++ END ++ " line".toList)
  | line :: lines =>
      match stripPrefix (END ++ [' ']) line with
      | some rest =>
          if rest = runId ++ ' ' :: decimal results.length then .ok results
          else
            .error (END ++ " says ".toList ++ quoted rest ++ ", but this is run ".toList ++
              quoted runId ++ " with ".toList ++ decimal results.length ++
              " result lines (count)".toList)
      | none =>
          match stripPrefix (RESULT ++ [' ']) line with
          | none => .error ("a line between the markers is not a result: ".toList ++ quoted line)
          | some json =>
              match reader json with
              | .error error =>
                  .error ("a ".toList ++ RESULT ++ " line does not parse (".toList ++ error ++
                    "): ".toList ++ quoted line)
              | .ok parsed =>
                  if parsed.result.any fun result => !isObject result then
                    .error ("a ".toList ++ RESULT ++
                      " line's result is not an object or null: ".toList ++ quoted line)
                  else collect runId (results ++ [parsed]) lines

def framed (text runId : List Char) : Except (List Char) (List ProbeResult) :=
  let marker := BEGIN ++ [' ']
  match (Lines.shown text).dropWhile fun line => !marker.isPrefixOf line with
  | [] => .error ("the console has no ".toList ++ BEGIN ++ " line".toList)
  | opening :: lines =>
      let openedBy := opening.drop marker.length
      if openedBy ≠ runId then
        .error (BEGIN ++ " names run ".toList ++ quoted openedBy ++ ", not the configured ".toList ++
          quoted runId)
      else collect reader runId [] lines

/-- Why the results do not answer the probes from an index on. -/
def unanswered (results : List ProbeResult) (index : Nat) : List (List Char) → Option (List Char)
  | [] => none
  | probe :: probes =>
      match results[index]? with
      | none => some ("probe ".toList ++ quoted probe ++ " wrote no result line".toList)
      | some found =>
          if found.probe ≠ probe then
            some ("result ".toList ++ decimal (index + 1) ++ " is for ".toList ++ quoted found.probe ++
              ", but the configured probe there is ".toList ++ quoted probe)
          else if found.result.isNone then
            some ("probe ".toList ++ quoted probe ++ " wrote no result line".toList)
          else unanswered results (index + 1) probes

def parseConsole (text runId : List Char) (probes : List (List Char)) : ConsoleRun :=
  match framed reader text runId with
  | .error reason => .notRun reason
  | .ok results =>
      match unanswered results 0 probes with
      | some reason => .notRun reason
      | none =>
          match results[probes.length]? with
          | some extra =>
              .notRun ("a result for ".toList ++ quoted extra.probe ++
                " is not for a configured probe".toList)
          | none => .finished results

end Reader

end Plasmosome.Lanes.Console
