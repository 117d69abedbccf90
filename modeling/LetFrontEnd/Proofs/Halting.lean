import LetFrontEnd.Proofs.Grammar
import LetFrontEnd.Proofs.Narration
import LetFrontEnd.Proofs.Outcomes
import LetFrontEnd.Proofs.Pulling

/- How a parser comes to rest. The loop over statements shifts once for each token that is left, and
   once more only if a value has run into the end, where nothing is left to be passed. From then on
   the window shows the end twice and nothing moves it. -/
namespace LetFrontEnd.Parser

/-- How many shifts a parser has made since it was built. Each of them tells of the token it pulls,
and no other event tells of a token. -/
def shifts (p : Parser) : Nat := (pulled p.log).length

@[simp] theorem shift_shifts (p : Parser) : p.shift.shifts = p.shifts + 1 := by
  simp [shifts, shift, pulled, Event.token?]

@[simp] theorem complain_shifts (k : TokenKind) (p : Parser) :
    (p.complain k).shifts = p.shifts := by
  simp [shifts, complain, pulled, Event.token?]

theorem note_shifts {e : Event} (other : e.token? = none) (p : Parser) :
    (p.note e).shifts = p.shifts := by
  simp [shifts, note, pulled, other]

def round (p : Parser) : Parser := p.parseStatement.2.shift

structure Ends (p : Parser) (n : Nat) : Prop where
  going : ∀ m < n, (round^[m] p).current.is .eof = false
  ended : (round^[n] p).current.is .eof = true

section
variable {p q : Parser} {n : Nat}

theorem parseStatements_of_ends (ends : p.Ends n) : p.parseStatements.2 = round^[n] p := by
  induction n generalizing p with
  | zero =>
    have last : p.current.is .eof = true := ends.ended
    rw [parseStatements_of_eof last, Function.iterate_zero_apply]
  | succ n ih =>
    have going : p.current.is .eof = false := ends.going 0 (Nat.succ_pos n)
    rw [parseStatements_of_token going, Function.iterate_succ_apply]
    refine ih ⟨?_, ends.ended⟩
    intro m below
    exact ends.going (m + 1) (by omega)

theorem ends_step (going : p.current.is .eof = false) (later : p.round.Ends n) :
    p.Ends (n + 1) := by
  refine ⟨?_, later.ended⟩
  intro m below
  cases m with
  | zero => exact going
  | succ m => exact later.going m (by omega)

theorem exists_ends (p : Parser) : ∃ n, p.Ends n := by
  induction size : p.remaining using Nat.strongRecOn generalizing p with
  | ind k ih =>
    cases last : p.current.is .eof with
    | true => exact ⟨0, by omega, last⟩
    | false =>
      obtain ⟨n, later⟩ := ih _ (size ▸ parseStatement_progress last) p.round rfl
      exact ⟨n + 1, ends_step last later⟩

end

/-- Between `p` and `q` there were as many shifts as tokens went from `ts` to `left`. -/
def KeepsPace (p q : Parser) (ts left : List Token) : Prop :=
  q.shifts + left.length = p.shifts + ts.length

def Spends (p q : Parser) (ts left : List Token) : Prop :=
  KeepsPace p q ts left ∨ left = [] ∧ q.shifts = p.shifts + ts.length + 1

section
variable {p q : Parser} {ts left rest : List Token} {t : Token}

theorem skipValue_keepsPace (reads : p.Reads ts) :
    KeepsPace p p.skipValue ts (ts.dropWhile fun t => !t.is .semicolon) := by
  fun_induction skipValue p generalizing ts with
  | case1 p stop =>
    cases ts with
    | nil => rfl
    | cons t rest =>
      have current : p.current = t := reads_current reads
      have closed : t.is .semicolon = true := by
        simpa [atStop, current, reads_ne_eof reads (List.mem_cons_self ..)] using stop
      simp [KeepsPace, closed]
  | case2 p going ih =>
    cases ts with
    | nil => exact absurd ((reads_eof_iff reads).mpr rfl) (by simp_all [atStop])
    | cons t rest =>
      have current : p.current = t := reads_current reads
      have unstopped : t.is .semicolon = false := by
        rw [← current]
        simp_all [atStop]
      have later : KeepsPace p.shift p.shift.skipValue rest _ := ih (reads_shift reads)
      simp only [KeepsPace, shift_shifts] at later
      simp only [KeepsPace, unstopped, List.dropWhile_cons, Bool.not_false, if_true,
        List.length_cons]
      omega

theorem shift_spends (pace : KeepsPace p q ts left) : Spends p q.shift ts left.tail := by
  unfold Spends KeepsPace at *
  cases left with
  | nil =>
    right
    simp at pace ⊢
    omega
  | cons t rest =>
    left
    simp at pace ⊢
    omega

theorem round_assigned {u : Token} (reads : p.Reads (t :: u :: rest))
    (word : t.is .letWord = true) (named : u.is .ident = true)
    (assigned : (look rest).is .assign = true) :
    Spends p p.round (t :: u :: rest) (afterSemicolon rest.tail) := by
  have current : p.current = t := reads_current reads
  have ahead : p.ahead = u := reads_ahead reads
  have second : p.shift.ahead = look rest := reads_ahead (reads_shift reads)
  have passed := skipValue_keepsPace (reads_shift (reads_shift reads))
  rw [round, parseStatement_of_letWord (current ▸ word),
    parseBinding_of_assigned (ahead ▸ named) (second ▸ assigned),
    ← afterSemicolon_of_assign assigned]
  apply shift_spends
  have noted := note_shifts (e := .binding p.ahead.literal) rfl p.shift.shift.skipValue
  simp only [KeepsPace, shift_shifts, List.tail_cons] at passed
  simp only [KeepsPace, noted, List.length_cons]
  omega

theorem round_spends (reads : p.Reads (t :: rest)) :
    ∃ left, p.round.Reads left ∧ left.length ≤ rest.length ∧ Spends p p.round (t :: rest) left := by
  have current : p.current = t := reads_current reads
  have ahead : p.ahead = look rest := reads_ahead reads
  have second : p.shift.ahead = look rest.tail := reads_ahead (reads_shift reads)
  cases word : t.is .letWord with
  | false =>
    refine ⟨rest, (turn_other reads word).left, Nat.le_refl _, Or.inl ?_⟩
    rw [round, parseStatement_of_other (current ▸ word)]
    simp only [KeepsPace, shift_shifts, List.length_cons]
    omega
  | true =>
    have binding := parseStatement_of_letWord (current.symm ▸ word)
    cases named : (look rest).is .ident with
    | false =>
      refine ⟨rest, (turn_unnamed reads word named).left, Nat.le_refl _, Or.inl ?_⟩
      rw [round, binding, parseBinding_of_unnamed (ahead ▸ named)]
      simp only [KeepsPace, shift_shifts, complain_shifts, List.length_cons]
      omega
    | true =>
      obtain ⟨u, others, rfl, -⟩ := look_shape named (by decide)
      cases assigned : (look others).is .assign with
      | false =>
        refine ⟨others, (turn_unassigned reads word named assigned).left, by simp, Or.inl ?_⟩
        rw [round, binding, parseBinding_of_unassigned (ahead ▸ named) (second ▸ assigned)]
        simp only [KeepsPace, shift_shifts, complain_shifts, List.length_cons]
        omega
      | true =>
        have short : (afterSemicolon others.tail).length ≤ (u :: others).length := by
          have value := afterSemicolon_length others.tail
          simp only [List.length_tail, List.length_cons] at value ⊢
          omega
        exact ⟨_, (turn_assigned reads word named assigned).left, short,
          round_assigned reads word named assigned⟩

/-- The whole loop: it passes every token, and makes at most one shift without passing any. -/
theorem parseStatements_spends (reads : p.Reads ts) :
    p.parseStatements.2.Reads [] ∧ Spends p p.parseStatements.2 ts [] := by
  induction size : ts.length using Nat.strongRecOn generalizing p ts with
  | ind k ih =>
    cases ts with
    | nil =>
      rw [parseStatements_of_eof ((reads_eof_iff reads).mpr rfl)]
      exact ⟨reads, Or.inl rfl⟩
    | cons t rest =>
      obtain ⟨left, later, shorter, spent⟩ := round_spends reads
      rw [parseStatements_of_token (reads_more reads)]
      change p.round.parseStatements.2.Reads [] ∧ Spends p p.round.parseStatements.2 _ _
      -- a round that makes a shift too many has found the end, and is the last one
      rcases spent with pace | ⟨rfl, extra⟩
      · obtain ⟨ended, spends⟩ := ih left.length (by simp at size; omega) later rfl
        unfold KeepsPace at pace
        refine ⟨ended, ?_⟩
        rcases spends with kept | ⟨-, extra⟩
        · unfold KeepsPace at kept
          exact Or.inl (by rw [KeepsPace]; omega)
        · exact Or.inr ⟨rfl, by omega⟩
      · rw [parseStatements_of_eof ((reads_eof_iff later).mpr rfl)]
        exact ⟨later, Or.inr ⟨rfl, extra⟩⟩

end

def window (p : Parser) : Token × Token × Cursor := (p.current, p.ahead, p.cursor)

/-- The end is all there is to be seen, now and later. -/
structure AtRest (p : Parser) : Prop where
  current : p.current = Token.eof
  ahead : p.ahead = Token.eof
  bare : p.cursor.after = []

section
variable {p : Parser}

theorem atRest_of_reads (reads : p.Reads []) : p.AtRest := by
  refine ⟨reads_current reads, reads_ahead reads, ?_⟩
  obtain ⟨c, shows, none⟩ := reads
  have last : c.next.1.kind = .eof := by
    rw [← c.drain_headD, none]
    rfl
  have still := (Cursor.exhausted_of_bare (Cursor.next_eof last).2).next
  rw [shows.cursor, still]
  exact (Cursor.next_eof last).2

theorem shift_window (rest : p.AtRest) : p.shift.window = p.window := by
  have still := (Cursor.exhausted_of_bare rest.bare).next
  simp only [window, shift, still, rest.current, rest.ahead]

theorem atRest_of_window {q : Parser} (same : q.window = p.window) (rest : p.AtRest) : q.AtRest := by
  simp only [window, Prod.mk.injEq] at same
  obtain ⟨current, ahead, cursor⟩ := same
  exact ⟨current.trans rest.current, ahead.trans rest.ahead, cursor ▸ rest.bare⟩

theorem iterate_window (rest : p.AtRest) (n : Nat) : (shift^[n] p).window = p.window := by
  induction n generalizing p with
  | zero => rfl
  | succ n ih =>
    have shifted := shift_window rest
    rw [Function.iterate_succ_apply, ih (atRest_of_window shifted rest), shifted]

theorem parseProgram_atRest (rest : p.AtRest) :
    p.parseProgram.1 = Program.empty ∧ p.parseProgram.2.errors = p.errors ∧
      p.parseProgram.2.window = p.window := by
  have last : p.current.is .eof = true := by
    rw [rest.current]
    rfl
  rw [parseProgram, parseStatements_of_eof last]
  exact ⟨rfl, rfl, rfl⟩

end

/-- From every state that a parser can be brought to, reading a program comes to an end, after one
shift for each token left or after one shift more. Then the end is in view twice, the whole input
is behind, and however often the parser is shifted on, nothing of this changes and another reading
finds nothing. -/
theorem parseProgram_comes_to_rest (c : Cursor) (commands : List Command) :
    let p := (ofCursor c).performed commands
    let q := p.parseProgram.2
    (∃ k, p.Ends k ∧ q.window = (round^[k] p).window) ∧
    p.shifts + p.upcoming.length ≤ q.shifts ∧ q.shifts ≤ p.shifts + (p.upcoming.length + 1) ∧
    q.current = Token.eof ∧ q.ahead = Token.eof ∧
    q.cursor.byte? = none ∧ q.cursor.position = c.input.length ∧
    ∀ n, let r := shift^[n] q
      r.window = q.window ∧ r.errors = q.errors ∧
      r.parseProgram.1 = Program.empty ∧ r.parseProgram.2.errors = q.errors ∧
      r.parseProgram.2.window = q.window := by
  intro p q
  obtain ⟨ended, spent⟩ := parseStatements_spends (performed_reads c commands)
  have rest : q.AtRest := atRest_of_reads (reads_note _ ended)
  have count : q.shifts = p.shifts + p.upcoming.length ∨
      q.shifts = p.shifts + p.upcoming.length + 1 := by
    have noted : q.shifts = p.parseStatements.2.shifts := note_shifts rfl _
    rw [noted]
    rcases spent with pace | ⟨-, extra⟩
    · exact Or.inl pace
    · exact Or.inr extra
  have place : q.cursor.position = c.input.length := by
    obtain ⟨i, shows⟩ : ∃ i, q.Shows (c.pulls i) :=
      perform_kept (pulls_kept c) .parseProgram (performed_shows c commands)
    have same : q.cursor.input = c.input := by
      rw [shows.cursor, Cursor.next_input, Cursor.next_input, Cursor.pulls_input]
    have whole := q.cursor.input_length
    rw [same, rest.bare] at whole
    exact whole.symm
  refine ⟨?_, by omega, by omega, rest.current, rest.ahead, ?_, place, ?_⟩
  · obtain ⟨k, ends⟩ := exists_ends p
    have same : q.window = p.parseStatements.2.window := rfl
    exact ⟨k, ends, by rw [same, parseStatements_of_ends ends]⟩
  · rw [Cursor.byte?, rest.bare]
    rfl
  · intro n r
    have same : r.window = q.window := iterate_window rest n
    obtain ⟨program, errors, window⟩ := parseProgram_atRest (atRest_of_window same rest)
    have kept : r.errors = q.errors := iterate_errors n q
    exact ⟨same, kept, program, errors.trans kept, window.trans same⟩

end LetFrontEnd.Parser
