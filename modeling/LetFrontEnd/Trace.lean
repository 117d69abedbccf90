import LetFrontEnd.Session

/- Running a session against a reader and a writer that may give out, and everything that can be
   observed of one activity on an input, in order. Each side grants so many bytes or so many flushes;
   the first step that asks for more stops the session, and what was written before stays written. -/
namespace LetFrontEnd

namespace Session

/-- What may still be read, written and flushed. A missing number grants everything. -/
structure Limits where
  read : Option Nat
  write : Option Nat
  flush : Option Nat
  deriving DecidableEq, Repr

def Limits.unlimited : Limits := ⟨none, none, none⟩

inductive Fault
  | read | write | flush
  deriving DecidableEq, Repr

structure Outcome where
  output : List UInt8
  flushes : Nat
  events : List Event
  fault : Option Fault
  deriving DecidableEq, Repr

def grants (budget : Option Nat) (cost : Nat) : Bool := budget.all (cost ≤ ·)

def spend (cost : Nat) (budget : Option Nat) : Option Nat := budget.map (· - cost)

def perform : Limits → List Step → Outcome
  | _, [] => ⟨[], 0, [], none⟩
  | limits, .note e :: rest =>
    let o := perform limits rest
    { o with events := e :: o.events }
  | limits, .write text :: rest =>
    let bytes := Text.utf8 text
    if grants limits.write bytes.length then
      let o := perform { limits with write := spend bytes.length limits.write } rest
      { o with output := bytes ++ o.output }
    else ⟨bytes.take (limits.write.getD 0), 0, [], some .write⟩
  | limits, .flush :: rest =>
    if grants limits.flush 1 then
      let o := perform { limits with flush := spend 1 limits.flush } rest
      { o with flushes := o.flushes + 1 }
    else ⟨[], 0, [], some .flush⟩
  | limits, .read piece :: rest =>
    if grants limits.read (demand piece) then
      perform { limits with read := spend piece.length limits.read } rest
    else ⟨[], 0, [], some .read⟩

def run (limits : Limits) (input : List UInt8) : Outcome := perform limits (script input)

end Session

inductive Activity
  | tokenizing | draining | parsing | session
  deriving DecidableEq, Repr

/-- The end of the input is pulled in every activity, shown or not. -/
def Activity.trace (input : List UInt8) : Activity → List Event
  | tokenizing => (tokensThroughEnd input).map .token
  | draining => (tokens input ++ [Token.eof]).map .token
  | parsing => (Parser.ofCursor (.ofBytes input)).parseProgram.2.log
  | session => (Session.run .unlimited input).events

end LetFrontEnd
