import LetFrontEnd.Text
import LetFrontEnd.Token

/- What is wrong at a token and how a reader is told, and what can be observed of a run from the
   outside: each token pulled, each error, each binding, each finished program, and the two ends of a
   session. -/
namespace LetFrontEnd

inductive ParseError.Cause
  | unrecognised (text : String)
  | unexpected (expected received : TokenKind)
  deriving DecidableEq, Repr

structure ParseError where
  cause : ParseError.Cause
  token : Token
  deriving DecidableEq, Repr

namespace ParseError

/-- The error about `t` where a token of another kind had to stand. An illegal token is reported
for itself, whatever was expected. -/
def about (expected : TokenKind) (t : Token) : ParseError :=
  if t.is .illegal then ⟨.unrecognised t.literal, t⟩ else ⟨.unexpected expected t.kind, t⟩

def Cause.name : Cause → String
  | .unrecognised _ => "UnrecognisedToken"
  | .unexpected _ _ => "UnexpectedToken"

def Cause.message : Cause → String
  | .unrecognised text => "unrecognised token: " ++ Text.quote text
  | .unexpected expected received =>
    "unexpected token: expected " ++ expected.label ++ ", received " ++ received.label

def name (e : ParseError) : String := e.cause.name

def message (e : ParseError) : String := e.cause.message

def tip? (e : ParseError) : Option String :=
  match e.cause with
  | .unrecognised _ => none
  | .unexpected expected received =>
    some ("Expected `" ++ expected.label ++ "`, found `" ++ received.label ++ "` (`"
      ++ e.token.literal ++ "`)")

def report (e : ParseError) : String :=
  let heading :=
    match e.tip? with
    | none => "Error: " ++ e.name
    | some tip => "Error: " ++ e.name ++ " (" ++ tip ++ ")"
  heading ++ "\n-> " ++ e.message ++ "\n"

end ParseError

inductive Event
  | token (t : Token)
  | parseError (e : ParseError)
  | binding (name : String)
  | parsedProgram (statements errors : Nat)
  | sessionStarted
  | inputExhausted
  deriving DecidableEq, Repr

inductive Level
  | error | warn | info | debug | trace
  deriving DecidableEq, Repr

namespace Level

def label : Level → String
  | error => "ERROR"
  | warn => "WARN"
  | info => "INFO"
  | debug => "DEBUG"
  | trace => "TRACE"

def rank : Level → Nat
  | error => 1
  | warn => 2
  | info => 3
  | debug => 4
  | trace => 5

end Level

namespace Event

inductive Value
  | text (s : String)
  | number (n : Nat)
  deriving DecidableEq, Repr

def level : Event → Level
  | token _ => .trace
  | parseError _ | binding _ | parsedProgram _ _ => .debug
  | sessionStarted | inputExhausted => .info

def target : Event → String
  | token _ => "monkey::lexer::lexer"
  | parseError _ | parsedProgram _ _ => "monkey::parser::parser"
  | binding _ => "monkey::parser::stmt"
  | sessionStarted | inputExhausted => "monkey::repl"

def message : Event → String
  | token _ => "token"
  | parseError _ => "parse error"
  | binding _ => "let statement"
  | parsedProgram _ _ => "parsed program"
  | sessionStarted => "repl started"
  | inputExhausted => "input exhausted"

def fields : Event → List (String × Value)
  | token t => [("kind", .text t.kind.label), ("literal", .text t.literal)]
  | parseError e => [("error", .text e.message)]
  | binding name => [("name", .text name)]
  | parsedProgram statements errors =>
    [("statements", .number statements), ("errors", .number errors)]
  | sessionStarted | inputExhausted => []

end Event

end LetFrontEnd
