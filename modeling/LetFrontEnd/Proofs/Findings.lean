import LetFrontEnd.Proofs.Window

/- What a parser finds, as a recursion over a list of tokens. The recursion has no window, no cursor
   and no state; a parser that is opened on a stream and driven in any way finds in the tokens
   left to it what the recursion finds in their list. -/
namespace LetFrontEnd

structure Findings where
  statements : List Binding
  errors : List ParseError
  deriving DecidableEq, Repr

namespace Findings

def withStatement (s : Binding) (f : Findings) : Findings := ⟨s :: f.statements, f.errors⟩

def withError (e : ParseError) (f : Findings) : Findings := ⟨f.statements, e :: f.errors⟩

end Findings

/-- The first token of a list. Past the last one stands the end. -/
def look (ts : List Token) : Token := ts.headD Token.eof

def afterSemicolon (ts : List Token) : List Token := (ts.dropWhile fun t => !t.is .semicolon).tail

theorem afterSemicolon_length (ts : List Token) : (afterSemicolon ts).length ≤ ts.length := by
  have dropped := (List.dropWhile_suffix (l := ts) fun t => !t.is .semicolon).length_le
  simp only [afterSemicolon, List.length_tail]
  omega

theorem afterSemicolon_of_assign {ts : List Token} (assigned : (look ts).is .assign = true) :
    afterSemicolon ts = afterSemicolon ts.tail := by
  cases ts with
  | nil => exact absurd assigned (by decide)
  | cons t rest =>
    have kind : t.kind = .assign := by simpa [look, Token.is] using assigned
    simp [afterSemicolon, Token.is, kind]

/-- A token that breaks a binding is reported and then read as the start of a statement. -/
def findings : List Token → Findings
  | [] => ⟨[], []⟩
  | t :: rest =>
    if t.is .letWord = false then findings rest
    else if (look rest).is .ident = false then
      (findings rest).withError (.about .ident (look rest))
    else if (look rest.tail).is .assign = false then
      (findings rest.tail).withError (.about .assign (look rest.tail))
    else
      (findings (afterSemicolon rest.tail.tail)).withStatement ⟨t, .ofToken (look rest), none⟩
termination_by ts => ts.length
decreasing_by
  · simp
  · simp
  · simp only [List.length_tail, List.length_cons]
    omega
  · have := afterSemicolon_length rest.tail.tail
    simp only [List.length_tail, List.length_cons] at this ⊢
    omega

section
variable {t : Token} {rest : List Token}

@[simp] theorem findings_nil : findings [] = ⟨[], []⟩ := by
  rw [findings]

theorem findings_of_other (other : t.is .letWord = false) :
    findings (t :: rest) = findings rest := by
  rw [findings, if_pos other]

theorem findings_of_unnamed (word : t.is .letWord = true) (unnamed : (look rest).is .ident = false) :
    findings (t :: rest) = (findings rest).withError (.about .ident (look rest)) := by
  rw [findings, if_neg (by simp [word]), if_pos unnamed]

theorem findings_of_unassigned (word : t.is .letWord = true)
    (named : (look rest).is .ident = true) (unassigned : (look rest.tail).is .assign = false) :
    findings (t :: rest) =
      (findings rest.tail).withError (.about .assign (look rest.tail)) := by
  rw [findings, if_neg (by simp [word]), if_neg (by simp [named]), if_pos unassigned]

theorem findings_of_assigned (word : t.is .letWord = true) (named : (look rest).is .ident = true)
    (assigned : (look rest.tail).is .assign = true) :
    findings (t :: rest) =
      (findings (afterSemicolon rest.tail.tail)).withStatement ⟨t, .ofToken (look rest), none⟩ := by
  rw [findings, if_neg (by simp [word]), if_neg (by simp [named]), if_neg (by simp [assigned])]

end

namespace Parser
variable {p : Parser} {ts : List Token}

@[simp] theorem shift_errors (p : Parser) : p.shift.errors = p.errors := rfl

@[simp] theorem note_errors (e : Event) (p : Parser) : (p.note e).errors = p.errors := rfl

@[simp] theorem complain_errors (k : TokenKind) (p : Parser) :
    (p.complain k).errors = p.errors ++ [.about k p.ahead] := rfl

@[simp] theorem skipValue_errors (p : Parser) : p.skipValue.errors = p.errors := by
  fun_induction skipValue p with
  | case1 p stop => rfl
  | case2 p going ih => rw [ih, shift_errors]

theorem skipValue_reads (reads : p.Reads ts) :
    p.skipValue.Reads (ts.dropWhile fun t => !t.is .semicolon) := by
  fun_induction skipValue p generalizing ts with
  | case1 p stop =>
    cases ts with
    | nil => exact reads
    | cons t rest =>
      have current : p.current = t := reads_current reads
      have closed : t.is .semicolon = true := by
        simpa [atStop, current, reads_ne_eof reads (List.mem_cons_self ..)] using stop
      simpa [closed] using reads
  | case2 p going ih =>
    cases ts with
    | nil => exact absurd ((reads_eof_iff reads).mpr rfl) (by simp_all [atStop])
    | cons t rest =>
      have current : p.current = t := reads_current reads
      have unstopped : t.is .semicolon = false := by
        rw [← current]
        simp_all [atStop]
      simpa [unstopped] using ih (reads_shift reads)

/-- One turn of the loop: it makes a statement or none, adds errors, and with the shift that closes
it leaves tokens for the turns to come. -/
structure Turn (p : Parser) (made : Option Binding) (added : List ParseError)
    (left : List Token) : Prop where
  made : p.parseStatement.1 = made
  added : p.parseStatement.2.errors = p.errors ++ added
  left : p.parseStatement.2.shift.Reads left

section
variable {t : Token} {rest : List Token}

theorem turn_other (reads : p.Reads (t :: rest)) (other : t.is .letWord = false) :
    p.Turn none [] rest := by
  have current : p.current = t := reads_current reads
  have step := parseStatement_of_other (current ▸ other)
  refine ⟨?_, ?_, ?_⟩
  · rw [step]
  · rw [step, List.append_nil]
  · rw [step]
    exact reads_shift reads

theorem turn_unnamed (reads : p.Reads (t :: rest)) (word : t.is .letWord = true)
    (unnamed : (look rest).is .ident = false) :
    p.Turn none [.about .ident (look rest)] rest := by
  have current : p.current = t := reads_current reads
  have ahead : p.ahead = look rest := reads_ahead reads
  have step : p.parseStatement = (none, p.complain .ident) := by
    rw [parseStatement_of_letWord (current ▸ word), parseBinding_of_unnamed (ahead ▸ unnamed)]
  refine ⟨?_, ?_, ?_⟩
  · rw [step]
  · rw [step, complain_errors, ahead]
  · rw [step]
    exact reads_shift (reads_complain .ident reads)

theorem turn_unassigned (reads : p.Reads (t :: rest)) (word : t.is .letWord = true)
    (named : (look rest).is .ident = true) (unassigned : (look rest.tail).is .assign = false) :
    p.Turn none [.about .assign (look rest.tail)] rest.tail := by
  have current : p.current = t := reads_current reads
  have ahead : p.ahead = look rest := reads_ahead reads
  have second : p.shift.ahead = look rest.tail := reads_ahead (reads_shift reads)
  have step : p.parseStatement = (none, p.shift.complain .assign) := by
    rw [parseStatement_of_letWord (current ▸ word),
      parseBinding_of_unassigned (ahead ▸ named) (second ▸ unassigned)]
  refine ⟨?_, ?_, ?_⟩
  · rw [step]
  · rw [step, complain_errors, shift_errors, second]
  · rw [step]
    exact reads_shift (reads_complain .assign (reads_shift reads))

theorem turn_assigned (reads : p.Reads (t :: rest)) (word : t.is .letWord = true)
    (named : (look rest).is .ident = true) (assigned : (look rest.tail).is .assign = true) :
    p.Turn (some ⟨t, .ofToken (look rest), none⟩) [] (afterSemicolon rest.tail.tail) := by
  have current : p.current = t := reads_current reads
  have ahead : p.ahead = look rest := reads_ahead reads
  have second : p.shift.ahead = look rest.tail := reads_ahead (reads_shift reads)
  have step : p.parseStatement = (some ⟨p.current, .ofToken p.ahead, none⟩,
      p.shift.shift.skipValue.note (.binding p.ahead.literal)) := by
    rw [parseStatement_of_letWord (current ▸ word),
      parseBinding_of_assigned (ahead ▸ named) (second ▸ assigned)]
  refine ⟨?_, ?_, ?_⟩
  · rw [step, current, ahead]
  · rw [step, note_errors, skipValue_errors, shift_errors, shift_errors, List.append_nil]
  · rw [step, ← afterSemicolon_of_assign assigned]
    exact reads_shift (reads_note _ (skipValue_reads (reads_shift (reads_shift reads))))

end

theorem parseStatements_of_turn {made : Option Binding} {added : List ParseError}
    {left : List Token} (more : p.current.is .eof = false) (turn : p.Turn made added left) :
    ∃ q : Parser, q.Reads left ∧ q.errors = p.errors ++ added ∧
      p.parseStatements = (made.toList ++ q.parseStatements.1, q.parseStatements.2) := by
  refine ⟨p.parseStatement.2.shift, turn.left, turn.added, ?_⟩
  rw [parseStatements_of_token more, turn.made]

theorem reads_more {t : Token} {rest : List Token} (reads : p.Reads (t :: rest)) :
    p.current.is .eof = false := by
  have current : p.current = t := reads_current reads
  rw [current]
  exact reads_ne_eof reads (List.mem_cons_self ..)

theorem parseStatements_findings (reads : p.Reads ts) :
    p.parseStatements.1 = (findings ts).statements ∧
      p.parseStatements.2.errors = p.errors ++ (findings ts).errors := by
  -- the cases are those of the recursion, each with the turn that it stands for
  fun_induction findings ts generalizing p with
  | case1 =>
    rw [parseStatements_of_eof ((reads_eof_iff reads).mpr rfl)]
    simp
  | case2 t rest other ih =>
    obtain ⟨q, left, errors, run⟩ :=
      parseStatements_of_turn (reads_more reads) (turn_other reads other)
    obtain ⟨statements, later⟩ := ih left
    simp [run, statements, later, errors]
  | case3 t rest word unnamed ih =>
    obtain ⟨q, left, errors, run⟩ :=
      parseStatements_of_turn (reads_more reads) (turn_unnamed reads (by simpa using word) unnamed)
    obtain ⟨statements, later⟩ := ih left
    simp [run, statements, later, errors, Findings.withError]
  | case4 t rest word named unassigned ih =>
    obtain ⟨q, left, errors, run⟩ := parseStatements_of_turn (reads_more reads)
      (turn_unassigned reads (by simpa using word) (by simpa using named) unassigned)
    obtain ⟨statements, later⟩ := ih left
    simp [run, statements, later, errors, Findings.withError]
  | case5 t rest word named assigned ih =>
    obtain ⟨q, left, errors, run⟩ := parseStatements_of_turn (reads_more reads)
      (turn_assigned reads (by simpa using word) (by simpa using named) (by simpa using assigned))
    obtain ⟨statements, later⟩ := ih left
    simp [run, statements, later, errors, Findings.withStatement]

end Parser

theorem parse_findings (c : Cursor) :
    (parse c).1.statements = (findings c.drain.1).statements ∧
      (parse c).2 = (findings c.drain.1).errors := by
  obtain ⟨statements, errors⟩ := Parser.parseStatements_findings (Parser.ofCursor_reads c)
  exact ⟨statements, errors⟩

end LetFrontEnd
