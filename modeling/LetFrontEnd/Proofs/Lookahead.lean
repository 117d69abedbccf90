import LetFrontEnd.Proofs.Findings

/- The window of a parser by number. Every token of a stream has a number, and the end stands at all
   numbers past the last. A parser that is driven in any way has two neighbours in view and has
   pulled nothing beyond them; what it stores about them fits what they are. -/
namespace LetFrontEnd

/-- The token of number `i`, where the end stands behind the last token and ever after. -/
def tokenAt (ts : List Token) (i : Nat) : Token := ts.getD i Token.eof

theorem tokenAt_tail (ts : List Token) (i : Nat) : tokenAt ts.tail i = tokenAt ts (i + 1) := by
  cases ts <;> rfl

theorem Cursor.pulls_tokenAt (c : Cursor) (i : Nat) :
    (c.pulls i).next.1 = tokenAt c.drain.1 i := by
  induction i generalizing c with
  | zero =>
    have first := c.drain_headD
    cases shape : c.drain.1 with
    | nil => simpa [shape, tokenAt, Cursor.pulls] using first.symm
    | cons t rest => simpa [shape, tokenAt, Cursor.pulls] using first.symm
  | succ i ih =>
    calc (c.pulls (i + 1)).next.1
        = tokenAt c.next.2.drain.1 i := ih c.next.2
      _ = tokenAt c.drain.1.tail i := by rw [c.drain_tail]
      _ = tokenAt c.drain.1 (i + 1) := tokenAt_tail _ i

namespace ParseError

def Reports (e : ParseError) (expected : TokenKind) (t : Token) : Prop :=
  e.token = t ∧
    (t.kind = .illegal ∧ e.cause = .unrecognised t.literal ∨
      t.kind ≠ .illegal ∧ e.cause = .unexpected expected t.kind)

/-- What the error says agrees with its own token, and it does not expect what it has received. -/
def Fits (e : ParseError) : Prop :=
  match e.cause with
  | .unrecognised text => e.token.kind = .illegal ∧ text = e.token.literal
  | .unexpected expected received =>
    e.token.kind ≠ .illegal ∧ received = e.token.kind ∧ expected ≠ received

theorem about_reports (expected : TokenKind) (t : Token) : (about expected t).Reports expected t := by
  by_cases illegal : t.kind = .illegal
  · simp [about, Token.is, Reports, illegal]
  · simp [about, Token.is, Reports, illegal]

theorem reports_fits {e : ParseError} {expected : TokenKind} {t : Token}
    (reports : e.Reports expected t) (other : t.kind ≠ expected) : e.Fits := by
  obtain ⟨rfl, ⟨illegal, cause⟩ | ⟨legal, cause⟩⟩ := reports
  · simp [Fits, cause, illegal]
  · simp [Fits, cause, legal, other.symm]

end ParseError

namespace Parser

/-- Tokens `i` and `i + 1` of the stream behind `c` are in view, and no more has been pulled. -/
structure StandsAt (p : Parser) (c : Cursor) (i : Nat) : Prop where
  current : p.current = tokenAt c.drain.1 i
  ahead : p.ahead = tokenAt c.drain.1 (i + 1)
  cursor : p.cursor = c.pulls (i + 2)

theorem standsAt_of_shows {p : Parser} {c : Cursor} {i : Nat} (shows : p.Shows (c.pulls i)) :
    p.StandsAt c i := by
  obtain ⟨current, ahead, cursor⟩ := shows
  rw [c.pulls_succ] at ahead cursor
  refine ⟨?_, ?_, ?_⟩
  · rw [current, c.pulls_tokenAt]
  · rw [ahead, c.pulls_tokenAt]
  · rw [cursor, c.pulls_succ]

theorem shift_standsAt {p : Parser} {c : Cursor} {i : Nat} (stands : p.StandsAt c i) :
    p.shift.StandsAt c (i + 1) := by
  refine ⟨stands.ahead, ?_, ?_⟩
  · change p.cursor.next.1 = _
    rw [stands.cursor, c.pulls_tokenAt]
  · change p.cursor.next.2 = _
    rw [stands.cursor, c.pulls_succ]

theorem note_standsAt {p : Parser} {c : Cursor} {i : Nat} (e : Event) (stands : p.StandsAt c i) :
    (p.note e).StandsAt c i :=
  ⟨stands.current, stands.ahead, stands.cursor⟩

theorem complain_standsAt {p : Parser} {c : Cursor} {i : Nat} (k : TokenKind)
    (stands : p.StandsAt c i) : (p.complain k).StandsAt c i :=
  ⟨stands.current, stands.ahead, stands.cursor⟩

theorem atStop_iff_kind {p : Parser} {c : Cursor} {i : Nat} (stands : p.StandsAt c i) :
    p.atStop = true ↔
      (tokenAt c.drain.1 i).kind = .semicolon ∨ (tokenAt c.drain.1 i).kind = .eof := by
  rw [← stands.current]
  simp [atStop, Token.is]

theorem errors_kept (es : List ParseError) : Kept fun p => es <+: p.errors := by
  refine ⟨?_, ?_, ?_⟩
  · intro p start
    exact start
  · intro p k _ start
    exact start.trans (List.prefix_append _ _)
  · intro p e start
    exact start

theorem fits_kept : Kept fun p => ∀ e ∈ p.errors, e.Fits := by
  refine ⟨?_, ?_, ?_⟩
  · intro p start
    exact start
  · intro p k missed start e member
    rcases List.mem_append.mp member with old | new
    · exact start e old
    · rw [List.mem_singleton.mp new]
      exact ParseError.reports_fits (ParseError.about_reports k p.ahead) (by simpa [Token.is] using missed)
  · intro p e start
    exact start

theorem expect_met_iff (p : Parser) (k : TokenKind) :
    (p.expect k).1 = true ↔ p.ahead.kind = k := by
  cases met : p.ahead.is k with
  | true => simpa [expect_of_met met, Token.is] using met
  | false => simpa [expect_of_missed met, Token.is] using met

theorem expect_met {p : Parser} {k : TokenKind} (met : (p.expect k).1 = true) :
    (p.expect k).2 = p.shift := by
  have kind := (p.expect_met_iff k).mp met
  rw [expect_of_met (by simp [Token.is, kind])]

theorem expect_missed {p : Parser} {k : TokenKind} (missed : (p.expect k).1 = false) :
    (p.expect k).2 = p.complain k := by
  have kind : p.ahead.kind ≠ k := by
    intro same
    rw [(p.expect_met_iff k).mpr same] at missed
    exact absurd missed (by decide)
  rw [expect_of_missed (by simp [Token.is, kind])]

/-- Whatever is done with a parser, its window is a place in the one stream it was opened on, its
errors fit their tokens, and later errors only follow earlier ones. A missed expectation adds one
error about the token ahead and moves nothing; a met one shifts once and adds none. -/
theorem window_invariant (c : Cursor) (commands : List Command) :
    let p := (ofCursor c).performed commands
    (∃ i, p.StandsAt c i ∧ ∀ k, (p.expect k).1 = true → (p.expect k).2.StandsAt c (i + 1)) ∧
    (∀ k, ((p.expect k).1 = true ↔ p.ahead.kind = k) ∧
      ((p.expect k).1 = true → (p.expect k).2.errors = p.errors) ∧
      ((p.expect k).1 = false →
        (p.expect k).2.current = p.current ∧ (p.expect k).2.ahead = p.ahead ∧
        (p.expect k).2.cursor = p.cursor ∧
        ∃ e, e.Reports k p.ahead ∧ (p.expect k).2.errors = p.errors ++ [e])) ∧
    (∀ more, p.errors <+: (p.performed more).errors) ∧
    ∀ e ∈ p.errors, e.Fits := by
  intro p
  refine ⟨?_, ?_, ?_, ?_⟩
  · obtain ⟨i, shows⟩ := performed_shows c commands
    have stands : p.StandsAt c i := standsAt_of_shows shows
    refine ⟨i, stands, ?_⟩
    intro k met
    rw [expect_met met]
    exact shift_standsAt stands
  · intro k
    refine ⟨p.expect_met_iff k, ?_, ?_⟩
    · intro met
      rw [expect_met met, shift_errors]
    · intro missed
      rw [expect_missed missed]
      exact ⟨rfl, rfl, rfl, _, ParseError.about_reports k p.ahead, complain_errors k p⟩
  · intro more
    exact performed_kept (errors_kept p.errors) more (List.prefix_refl _)
  · exact performed_kept fits_kept commands (by simp [ofCursor])

end Parser

end LetFrontEnd
