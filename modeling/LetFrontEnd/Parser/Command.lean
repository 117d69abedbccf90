import LetFrontEnd.Parser

/- A parser driven from outside, one operation at a time. -/
namespace LetFrontEnd.Parser

inductive Command
  | shift
  | currentIs (kind : TokenKind)
  | aheadIs (kind : TokenKind)
  | expect (kind : TokenKind)
  | parseStatement
  | parseBinding
  | parseProgram
  | errors
  deriving DecidableEq, Repr

inductive Answer
  | nothing
  | flag (b : Bool)
  | statement (s : Option Binding)
  | program (p : Program)
  | errors (es : List ParseError)
  deriving DecidableEq, Repr

def perform (p : Parser) : Command → Answer × Parser
  | .shift => (.nothing, p.shift)
  | .currentIs kind => (.flag (p.current.is kind), p)
  | .aheadIs kind => (.flag (p.ahead.is kind), p)
  | .expect kind => let (met, q) := p.expect kind; (.flag met, q)
  | .parseStatement => let (statement, q) := p.parseStatement; (.statement statement, q)
  | .parseBinding => let (statement, q) := p.parseBinding; (.statement statement, q)
  | .parseProgram => let (program, q) := p.parseProgram; (.program program, q)
  | .errors => (.errors p.errors, p)

def performAll (p : Parser) : List Command → List (Answer × Parser)
  | [] => []
  | command :: rest => let step := p.perform command; step :: performAll step.2 rest

end LetFrontEnd.Parser
