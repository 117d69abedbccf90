import LetFrontEnd.Program

/- A parser looks at two tokens, the current one and the one after it, and pulls from a cursor
   behind them. It knows bindings only and passes over every other token. An error leaves the
   offending token in view, so that it can start the next statement. -/
namespace LetFrontEnd

structure Parser where
  cursor : Cursor
  current : Token
  ahead : Token
  errors : List ParseError
  log : List Event
  deriving DecidableEq, Repr

namespace Parser

def note (e : Event) (p : Parser) : Parser := { p with log := p.log ++ [e] }

def shift (p : Parser) : Parser :=
  let (t, c) := p.cursor.next
  { p with cursor := c, current := p.ahead, ahead := t, log := p.log ++ [.token t] }

def ofCursor (c : Cursor) : Parser := (Parser.mk c .eof .eof [] []).shift.shift

def complain (expected : TokenKind) (p : Parser) : Parser :=
  let e := ParseError.about expected p.ahead
  { p with errors := p.errors ++ [e], log := p.log ++ [.parseError e] }

def expect (expected : TokenKind) (p : Parser) : Bool × Parser :=
  if p.ahead.is expected then (true, p.shift) else (false, p.complain expected)

def weight (t : Token) : Nat := if t.is .eof then 0 else 1

/-- How many tokens can still be passed, at most: each one ahead of the cursor takes a byte. -/
def remaining (p : Parser) : Nat := weight p.current + weight p.ahead + p.cursor.after.length

theorem weight_next (c : Cursor) :
    weight c.next.1 + c.next.2.after.length ≤ c.after.length := by
  unfold weight Token.is
  by_cases last : c.next.1.kind = .eof
  · simpa [last] using c.next_length_le
  · have := Cursor.next_length_lt last
    simp only [last, decide_false, Bool.false_eq_true, if_false]
    omega

theorem shift_remaining (p : Parser) : p.shift.remaining + weight p.current ≤ p.remaining := by
  have pulled := weight_next p.cursor
  simp only [remaining, shift]
  omega

theorem shift_remaining_le (p : Parser) : p.shift.remaining ≤ p.remaining := by
  have := p.shift_remaining
  omega

theorem shift_remaining_lt {p : Parser} (more : p.current.is .eof = false) :
    p.shift.remaining < p.remaining := by
  have := p.shift_remaining
  simp only [weight, more, Bool.false_eq_true, if_false] at this
  omega

def atStop (p : Parser) : Bool := p.current.is .semicolon || p.current.is .eof

def skipValue (p : Parser) : Parser :=
  if _stop : p.atStop then p else p.shift.skipValue
termination_by p.remaining
decreasing_by exact shift_remaining_lt (by simp_all [atStop])

/-- Reads a binding whose first token is the current one, whatever its kind. It ends on the
semicolon that closes the binding, or at the end of the input. -/
def parseBinding (p : Parser) : Option Binding × Parser :=
  match p.expect .ident with
  | (false, q) => (none, q)
  | (true, q) =>
    match q.expect .assign with
    | (false, r) => (none, r)
    | (true, r) =>
      let name := Identifier.ofToken q.current
      (some ⟨p.current, name, none⟩, r.skipValue.note (.binding name.value))

def parseStatement (p : Parser) : Option Binding × Parser :=
  if p.current.is .letWord then p.parseBinding else (none, p)

theorem skipValue_remaining (p : Parser) : p.skipValue.remaining ≤ p.remaining := by
  fun_induction skipValue p with
  | case1 p stop => exact Nat.le_refl _
  | case2 p going ih => exact Nat.le_trans ih p.shift_remaining_le

theorem expect_remaining (k : TokenKind) (p : Parser) :
    (p.expect k).2.remaining ≤ p.remaining := by
  unfold expect
  split
  · exact p.shift_remaining_le
  · exact Nat.le_refl p.remaining

theorem expect_true {k : TokenKind} {p q : Parser} (met : p.expect k = (true, q)) :
    q = p.shift := by
  unfold expect at met
  split at met <;> simp_all

theorem expect_false {k : TokenKind} {p q : Parser} (missed : p.expect k = (false, q)) :
    q = p.complain k := by
  unfold expect at missed
  split at missed <;> simp_all

/-- Whatever becomes of a binding, the shift after it has used up its first token. -/
theorem parseBinding_progress {p : Parser} (more : p.current.is .eof = false) :
    p.parseBinding.2.shift.remaining < p.remaining := by
  have shifted := shift_remaining_lt more
  unfold parseBinding
  split
  case h_1 q missed => exact expect_false missed ▸ shifted
  case h_2 q met =>
    have started : q.remaining < p.remaining := expect_true met ▸ shifted
    have further := q.expect_remaining .assign
    split
    case h_1 r missed =>
      simp only [missed] at further
      exact Nat.lt_of_le_of_lt (Nat.le_trans r.shift_remaining_le further) started
    case h_2 r met =>
      simp only [met] at further
      exact Nat.lt_of_le_of_lt
        (Nat.le_trans (shift_remaining_le _) (Nat.le_trans r.skipValue_remaining further)) started

theorem parseStatement_progress {p : Parser} (more : p.current.is .eof = false) :
    p.parseStatement.2.shift.remaining < p.remaining := by
  unfold parseStatement
  split
  · exact parseBinding_progress more
  · exact shift_remaining_lt more

def parseStatements (p : Parser) : List Binding × Parser :=
  if _stop : p.current.is .eof then ([], p)
  else
    match _step : p.parseStatement with
    | (statement, q) =>
      let (rest, r) := q.shift.parseStatements
      (statement.toList ++ rest, r)
termination_by p.remaining
decreasing_by simpa [_step] using parseStatement_progress (p := p) (by simpa using _stop)

def parseProgram (p : Parser) : Program × Parser :=
  let (statements, q) := p.parseStatements
  (⟨statements⟩, q.note (.parsedProgram statements.length q.errors.length))

end Parser

def parse (c : Cursor) : Program × List ParseError :=
  let (program, p) := (Parser.ofCursor c).parseProgram
  (program, p.errors)

end LetFrontEnd
