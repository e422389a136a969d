import Plasmosome.Control.Connection
import Plasmosome.Foundation.Pieces
import Plasmosome.Serde.Scanned

/-!
# Every line is answered once, in order

A connection is a row of exchanges, one for each line up to the one it ends at. Each
exchange says what its reply is, from the line and the state before it alone.
-/

namespace Plasmosome.Control

open Foundation Serde
open SessionLog (readUntil readUntil_append)

/-! ## Lines -/

/-- The pieces of the input between newlines, without an empty piece at its end. -/
def lines (input : List UInt8) : List (List UInt8) :=
  let pieces := input.splitOn newline
  if pieces.getLast? = some [] then pieces.dropLast else pieces

/-- A member's token stands in the line as it is, and the id of a request is the token of `id`. -/
structure LineReader.Documented (reader : LineReader) : Prop where
  spans : ∀ text fields key token, reader.fields text = some fields → (key, token) ∈ fields →
    token <:+: text
  request_id : ∀ text fields request, reader.fields text = some fields →
    reader.request text = .ok request → fields.lookup "id" = some request.id

/-! ## What one line asks for -/

/-- The line without one carriage return at its end. -/
def withoutReturn (line : List UInt8) : List UInt8 :=
  if line.getLast? = some carriageReturn then line.dropLast else line

section Line

variable (reader : LineReader) (line : List UInt8)

/-- The text of a line that is one document. -/
def documentOf : Option (List Char) :=
  match Utf8.decode (withoutReturn line) 0 with
  | .error _ => none
  | .ok text => if reader.document text then some text else none

/-- The token of `id` in a line that is an object with one, and else `null`. -/
def idToken : List Char :=
  (((documentOf reader line).bind reader.fields).bind fun fields => fields.lookup "id").getD nullId

/-- The request in a line that is an envelope. -/
def envelope : Option Request :=
  (documentOf reader line).bind fun text =>
    (reader.fields text).bind fun _ => (reader.request text).toOption

end Line

/-- One line, its reply, and what the handler was asked. -/
structure Exchange (State : Type) where
  line : List UInt8
  before : State
  reply : Response
  panicked : Bool
  after : State
  called : Option Request

namespace Exchange

variable {State : Type}

/-- The connection ends at a line that is too long and at a panic. -/
def Stops (exchange : Exchange State) : Prop :=
  maxLineBytes < exchange.line.length ∨ exchange.panicked = true

/-- What the handler's outcome on a request is answered with. -/
def Serves (handler : Handler State) (exchange : Exchange State) (request : Request) : Prop :=
  exchange.after = (handler exchange.before request.method request.params).2 ∧
  match (handler exchange.before request.method request.params).1 with
  | .result value => exchange.reply = .success request.id value ∧ exchange.panicked = false
  | .error error =>
      exchange.reply = .failure request.id
        (if error.code = .parseError ∨ error.code = .invalidRequest then .internal else error) ∧
      exchange.panicked = false
  | .panic => exchange.reply = .failure request.id .internal ∧ exchange.panicked = true

/-- A reply is one line with the id of the line it answers. Its code tells what the line is, and
the handler is called for an envelope and only for one. -/
structure Answers (reader : LineReader) (handler : Handler State) (exchange : Exchange State) :
    Prop where
  oneLine : newline ∉ Utf8.encode (exchange.reply.text reader.library)
  id_echoed : exchange.reply.id =
    if maxLineBytes < exchange.line.length then nullId else idToken reader exchange.line
  parse_error : exchange.reply.error? = some .parseError ↔
    exchange.line.length ≤ maxLineBytes ∧ documentOf reader exchange.line = none
  invalid_request : exchange.reply.error? = some .invalidRequest ↔
    maxLineBytes < exchange.line.length ∨
      (documentOf reader exchange.line ≠ none ∧ envelope reader exchange.line = none)
  called_eq : exchange.called =
    if maxLineBytes < exchange.line.length then none else envelope reader exchange.line
  uncalled : exchange.called = none →
    exchange.after = exchange.before ∧ exchange.panicked = false
  served : ∀ request, exchange.called = some request → exchange.Serves handler request

end Exchange

/-! ## Replies are one line -/

section Exchanges

variable {State : Type} (reader : LineReader) (handler : Handler State)

variable {reader handler}

end Exchanges

/-! ## A request, and a line no request is longer than -/

def sampleText : List Char := "\x7b\"id\":7,\"method\":\"m\",\"params\":\x7b\x7d\x7d".toList

/-- What the library reads of one request. -/
def sampleReader : LineReader where
  library := scanned
  document := fun text => text = sampleText
  fields := fun text =>
    if text = sampleText then
      some [("id", ['7']), ("method", quoted "m"), ("params", ['\x7b', '\x7d'])]
    else none
  request := fun text =>
    if text = sampleText then .ok ⟨['7'], "m", []⟩ else .error "expected value"

end Plasmosome.Control
