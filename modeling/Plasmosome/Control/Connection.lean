import Plasmosome.SessionLog.LineLaws

/-!
# The control connection

One request a line, one reply a line, in the same order. The loop owns the frame: it
answers a line that is no request, and ends at a line that is too long or a handler
that panics. What the library reads of a line is a parameter.
-/

namespace Plasmosome.Control

open Foundation Serde
open SessionLog (readUntil readUntil_append)

/-- The most bytes a request line may carry before its newline. -/
def maxLineBytes : Nat := 2 ^ 20

inductive ErrorCode where
  | parseError
  | invalidRequest
  | methodNotFound
  | invalidParams
  | internal
  | ambiguousTarget
  | unknownTarget
  | alreadyExists
  | unresolvedRequirement
  | mockModeConflict
  | illegalState
  | drainTimeout
  | notRunning
  | manifestInvalid
  | wideningForbidden
  | attestationRequired
deriving DecidableEq

def ErrorCode.asI64 : ErrorCode → Int
  | .parseError => -32700
  | .invalidRequest => -32600
  | .methodNotFound => -32601
  | .invalidParams => -32602
  | .internal => -32603
  | .ambiguousTarget => 100
  | .unknownTarget => 101
  | .alreadyExists => 102
  | .unresolvedRequirement => 103
  | .mockModeConflict => 104
  | .illegalState => 105
  | .drainTimeout => 106
  | .notRunning => 107
  | .manifestInvalid => 108
  | .wideningForbidden => 109
  | .attestationRequired => 110

/-- A code, a message, and the fields the code owes, in the order they are written. -/
structure WireError where
  code : ErrorCode
  message : String
  details : List (String × Value)

namespace WireError

def bare (code : ErrorCode) (message : String) : WireError := ⟨code, message, []⟩

def parseError : WireError := bare .parseError "the line is not JSON"

def invalidRequest (message : String) : WireError := bare .invalidRequest message

def internal : WireError := bare .internal "the controller could not answer this request"

def lineTooLong (cap : Nat) : WireError :=
  bare .invalidRequest ("the line exceeds " ++ toString cap ++ " bytes")

def value (error : WireError) : Value :=
  let code := error.code.asI64
  let number := if code < 0 then Number.negInt (Int64.ofInt code)
    else Number.posInt (UInt64.ofNat code.toNat)
  .object (("code", .number number) :: ("message", .string error.message) :: error.details)

end WireError

/-- A request as it arrived, its id as the token that was sent. -/
structure Request where
  id : List Char
  method : String
  params : List (String × Value)

/-- A reply, which carries the id token of the line it answers. -/
inductive Response where
  | success (id : List Char) (result : Value)
  | failure (id : List Char) (error : WireError)

namespace Response

def id : Response → List Char
  | success id _ => id
  | failure id _ => id

def error? : Response → Option ErrorCode
  | success _ _ => none
  | failure _ error => some error.code

/-- The compact text of a reply. The id is written as its token. -/
def text (library : Library) (response : Response) : List Char :=
  let (name, outcome) :=
    match response with
    | success _ result => ("result", result)
    | failure _ error => ("error", error.value)
  '\x7b' :: (quoted "id" ++ ':' :: (response.id ++ ',' :: (quoted name ++
    ':' :: (outcome.write library.floatChars ++ ['\x7d']))))

end Response

def nullId : List Char := "null".toList

/-- What the library reads of a line: whether it is one document, the tokens of an object's
members, the last one of a repeated key, and the request it spells. -/
structure LineReader where
  library : Library
  document : List Char → Bool
  fields : List Char → Option (List (String × List Char))
  request : List Char → Except String Request

/-- What one call of a handler comes to. -/
inductive Outcome where
  | result (value : Value)
  | error (error : WireError)
  | panic

/-- What serves one verb, from one state to the next. -/
abbrev Handler (State : Type) := State → String → List (String × Value) → Outcome × State

structure Answered (State : Type) where
  response : Response
  panicked : Bool
  state : State
  called : Option Request

def guardLoopOwnedCodes (error : WireError) : WireError :=
  match error.code with
  | .parseError | .invalidRequest => .internal
  | _ => error

section Serving

variable {State : Type} (reader : LineReader) (handler : Handler State)

def answer (line : List Char) (state : State) : Answered State :=
  let refuse := fun id error => (⟨.failure id error, false, state, none⟩ : Answered State)
  if !reader.document line then refuse nullId .parseError
  else
    match reader.fields line with
    | none =>
        refuse nullId (.invalidRequest
          "a control request is a JSON object with \x60id\x60, \x60method\x60 and \x60params\x60")
    | some fields =>
        let id := (fields.lookup "id").getD nullId
        match reader.request line with
        | .error message => refuse id (.invalidRequest message)
        | .ok request =>
            match handler state request.method request.params with
            | (.result result, state) => ⟨.success request.id result, false, state, some request⟩
            | (.error error, state) =>
                ⟨.failure request.id (guardLoopOwnedCodes error), false, state, some request⟩
            | (.panic, state) => ⟨.failure request.id .internal, true, state, some request⟩

/-- The line without its newline and one carriage return before that. -/
def trimmed (buffer : List UInt8) : List UInt8 :=
  let line := if buffer.getLast? = some newline then buffer.dropLast else buffer
  if line.getLast? = some carriageReturn then line.dropLast else line

/-- The bytes written, the state left, whether a panic went on, and the requests served. -/
structure Served (State : Type) where
  output : List UInt8
  state : State
  panicked : Bool
  calls : List Request

/-- A reply before what the rest of the connection writes. -/
def Served.after (served : Served State) (written : List UInt8) (called : Option Request) :
    Served State :=
  { served with output := written ++ served.output, calls := called.toList ++ served.calls }

end Serving

end Plasmosome.Control
