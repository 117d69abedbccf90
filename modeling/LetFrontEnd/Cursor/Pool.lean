import LetFrontEnd.Parser

/- Several cursors side by side. A command works on one of them, or adds one at the end; it
   leaves the others as they are. -/
namespace LetFrontEnd.Cursor

abbrev Pool := List Cursor

inductive Command
  | start (input : List UInt8)
  | copy (i : Nat)
  | next (i : Nat)
  | next? (i : Nat)
  | take (i n : Nat)
  | drain (i : Nat)
  | dump (i : Nat)
  | parse (i : Nat)
  deriving DecidableEq, Repr

inductive Answer
  | opened (i : Nat)
  | token (t : Token)
  | token? (t : Option Token)
  | tokens (ts : List Token)
  | dumped (text : String)
  | parsed (program : Program) (errors : List ParseError)
  deriving DecidableEq, Repr

namespace Pool

structure Outcome where
  answer : Answer
  cursor : Cursor
  pool : Pool
  deriving DecidableEq, Repr

def add (pool : Pool) (c : Cursor) : Outcome := ⟨.opened pool.length, c, pool ++ [c]⟩

def put (pool : Pool) (i : Nat) (c : Cursor) (answer : Answer) : Outcome :=
  ⟨answer, c, pool.set i c⟩

/-- Carries a command out. There is no outcome when it names no cursor of the pool. -/
def perform (pool : Pool) : Command → Option Outcome
  | .start input => some (pool.add (ofBytes input))
  | .copy i => pool[i]?.map pool.add
  | .next i => pool[i]?.map fun c => pool.put i c.next.2 (.token c.next.1)
  | .next? i => pool[i]?.map fun c => pool.put i c.next?.2 (.token? c.next?.1)
  | .take i n => pool[i]?.map fun c => pool.put i (c.take n).2 (.tokens (c.take n).1)
  | .drain i => pool[i]?.map fun c => pool.put i c.drain.2 (.tokens c.drain.1)
  | .dump i => pool[i]?.map fun c => pool.put i c (.dumped c.dump)
  | .parse i => pool[i]?.map fun c =>
    pool.put i c (.parsed (LetFrontEnd.parse c).1 (LetFrontEnd.parse c).2)

def performAll (pool : Pool) : List Command → List Outcome
  | [] => []
  | command :: rest =>
    match pool.perform command with
    | none => []
    | some outcome => outcome :: performAll outcome.pool rest

end Pool

end LetFrontEnd.Cursor
