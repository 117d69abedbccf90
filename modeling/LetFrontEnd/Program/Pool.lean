import LetFrontEnd.Parser

/- Several programs side by side, edited statement by statement. -/
namespace LetFrontEnd.Program

abbrev Pool := List Program

inductive Edit
  | push (statement : Binding)
  | set (index : Nat) (statement : Binding)
  | pop
  | duplicate (index : Nat)
  | value (index : Nat)
  | parse (source : List UInt8)
  | copy
  | dump
  deriving DecidableEq, Repr

inductive Answer
  | nothing
  | statement (s : Option Binding)
  | value (v : Option Identifier)
  | opened (i : Nat)
  | dumped (text : String)
  deriving DecidableEq, Repr

def append (p : Program) (bindings : List Binding) : Program := ⟨p.statements ++ bindings⟩

namespace Pool

structure Outcome where
  answer : Answer
  program : Program
  pool : Pool
  deriving DecidableEq, Repr

def initial : Pool := [Program.empty]

def put (pool : Pool) (i : Nat) (p : Program) (answer : Answer) : Outcome :=
  ⟨answer, p, pool.set i p⟩

/-- Carries an edit of program `i` out. There is no outcome when the edit names a program or a
statement that does not exist; taking the last statement off an empty program is allowed. -/
def perform (pool : Pool) (i : Nat) (edit : Edit) : Option Outcome := do
  let p ← pool[i]?
  match edit with
  | .push statement => some (pool.put i (p.append [statement]) .nothing)
  | .set index statement =>
    if index < p.size then some (pool.put i ⟨p.statements.set index statement⟩ .nothing)
    else none
  | .pop => some (pool.put i ⟨p.statements.dropLast⟩ (.statement p.statements.getLast?))
  | .duplicate index =>
    p.statements[index]?.map fun statement => pool.put i (p.append [statement]) .nothing
  | .value index =>
    p.statements[index]?.map fun statement => pool.put i p (.value statement.value)
  | .parse source =>
    some (pool.put i (p.append (LetFrontEnd.parse (.ofBytes source)).1.statements) .nothing)
  | .copy => some ⟨.opened pool.length, p, pool ++ [p]⟩
  | .dump => some (pool.put i p (.dumped p.dump))

def performAll (pool : Pool) : List (Nat × Edit) → List Outcome
  | [] => []
  | (i, edit) :: rest =>
    match pool.perform i edit with
    | none => []
    | some outcome => outcome :: performAll outcome.pool rest

end Pool

end LetFrontEnd.Program
