import LetFrontEnd.Cursor
import LetFrontEnd.Event

/- Trees of the language so far, and dumps. A program is a list of bindings, and the only expression a
   binding can hold is a name. A dump is a text on one line that shows every field of a value; texts
   inside are quoted, so the punctuation of a dump is never part of what it shows. -/
namespace LetFrontEnd

structure Identifier where
  token : Token
  value : String
  deriving DecidableEq, Repr

def Identifier.ofToken (t : Token) : Identifier := ⟨t, t.literal⟩

def Identifier.literal (i : Identifier) : String := i.token.literal

/-- A binding of `name`. What stands after the equals sign is kept only when it is a name. -/
structure Binding where
  token : Token
  name : Identifier
  value : Option Identifier
  deriving DecidableEq, Repr

def Binding.ofTokens (token name : Token) (value : Option Token) : Binding :=
  ⟨token, .ofToken name, value.map .ofToken⟩

def Binding.literal (s : Binding) : String := s.token.literal

structure Program where
  statements : List Binding
  deriving DecidableEq, Repr

namespace Program

def empty : Program := ⟨[]⟩

def size (p : Program) : Nat := p.statements.length

def isEmpty (p : Program) : Bool := p.statements.isEmpty

def literal (p : Program) : String := (p.statements.head?.map Binding.literal).getD ""

end Program

namespace Dump

def list (items : List String) : String := "[" ++ Text.join ", " items ++ "]"

def field (entry : String × String) : String := entry.1 ++ ": " ++ entry.2

def record (name : String) (fields : List (String × String)) : String :=
  name ++ " \x7b " ++ Text.join ", " (fields.map field) ++ " \x7d"

def wrap (name inner : String) : String := name ++ "(" ++ inner ++ ")"

def option : Option String → String
  | none => "None"
  | some inner => wrap "Some" inner

end Dump

open Dump

def Token.dump (t : Token) : String :=
  record "Token" [("kind", t.kind.name), ("literal", Text.quote t.literal)]

def Identifier.dump (i : Identifier) : String :=
  record "Identifier" [("token", i.token.dump), ("value", Text.quote i.value)]

def Binding.dump (s : Binding) : String :=
  record "LetStmt"
    [("token", s.token.dump), ("name", s.name.dump),
     ("value", option (s.value.map fun i => wrap "ExprWrapper" i.dump))]

def Program.dump (p : Program) : String :=
  record "Program" [("statements", list (p.statements.map fun s => wrap "StmtWrapper" s.dump))]

def ParseError.Cause.dump : ParseError.Cause → String
  | .unrecognised text => record "UnrecognisedToken" [("token", Text.quote text)]
  | .unexpected expected received =>
    record "UnexpectedToken" [("expected", expected.name), ("received", received.name)]

def ParseError.dump (e : ParseError) : String :=
  record "Error" [("internal_error", e.cause.dump), ("token", e.token.dump)]

def ParseError.dumpAll (es : List ParseError) : String := list (es.map ParseError.dump)

def Cursor.dump (c : Cursor) : String :=
  record "Lexer"
    [("input", list (c.input.map fun b => b.toNat.repr)), ("position", c.position.repr),
     ("read_position", c.nextPosition.repr), ("ch", option (c.byte?.map fun b => b.toNat.repr))]

end LetFrontEnd
