import LetFrontEnd.Proofs.Accounting
import Mathlib.Logic.Function.Iterate

/- What comes of reading a binding, from whatever state a parser is in. There are three outcomes, and
   the two tokens behind the current one decide between them. Each leaves the parser at a place of
   its own: a statement on the token that ends its value, a complaint just before the token it is
   about. -/
namespace LetFrontEnd

/-- Number `s` is the first from `k` on at which a semicolon or the end stands. -/
structure StopsAt (ts : List Token) (k s : Nat) : Prop where
  low : k ≤ s
  inside : ∀ m, k ≤ m → m < s → (tokenAt ts m).kind ≠ .semicolon ∧ (tokenAt ts m).kind ≠ .eof
  stop : (tokenAt ts s).kind = .semicolon ∨ (tokenAt ts s).kind = .eof

theorem stopsAt_le {ts : List Token} {k s : Nat} (stops : StopsAt ts k s) (within : k ≤ ts.length) :
    s ≤ ts.length := by
  apply Nat.le_of_not_lt
  intro beyond
  have last : tokenAt ts ts.length = Token.eof := tokenAt_beyond (Nat.le_refl _)
  exact (stops.inside ts.length within beyond).2 (congrArg Token.kind last)

namespace Parser

structure Passes (p : Parser) (n : Nat) : Prop where
  going : ∀ m < n, (shift^[m] p).atStop = false
  stopped : (shift^[n] p).atStop = true

section
variable {p : Parser} {c : Cursor} {i n : Nat}

theorem skipValue_of_passes (passes : p.Passes n) : p.skipValue = shift^[n] p := by
  induction n generalizing p with
  | zero =>
    rw [skipValue]
    exact dif_pos passes.stopped
  | succ n ih =>
    have going : p.atStop = false := passes.going 0 (Nat.succ_pos n)
    rw [skipValue, dif_neg (by simp [going]), Function.iterate_succ_apply]
    refine ih ⟨?_, passes.stopped⟩
    intro m below
    exact passes.going (m + 1) (by omega)

theorem passes_step (going : p.atStop = false) (later : p.shift.Passes n) : p.Passes (n + 1) := by
  refine ⟨?_, later.stopped⟩
  intro m below
  cases m with
  | zero => exact going
  | succ m => exact later.going m (by omega)

theorem exists_passes (p : Parser) : ∃ n, p.Passes n := by
  fun_induction skipValue p with
  | case1 p stop => exact ⟨0, by omega, stop⟩
  | case2 p going ih =>
    obtain ⟨n, later⟩ := ih
    exact ⟨n + 1, passes_step (by simpa using going) later⟩

theorem iterate_standsAt (stands : p.StandsAt c i) (n : Nat) :
    (shift^[n] p).StandsAt c (i + n) := by
  induction n generalizing p i with
  | zero => exact stands
  | succ n ih =>
    have later := ih (shift_standsAt stands)
    rw [Nat.add_right_comm] at later
    exact later

theorem iterate_errors (n : Nat) (p : Parser) : (shift^[n] p).errors = p.errors := by
  induction n generalizing p with
  | zero => rfl
  | succ n ih => rw [Function.iterate_succ_apply, ih, shift_errors]

theorem passes_stopsAt (stands : p.StandsAt c i) (passes : p.Passes n) :
    StopsAt c.drain.1 i (i + n) := by
  refine ⟨Nat.le_add_right i n, ?_, ?_⟩
  · intro m low high
    obtain ⟨d, rfl⟩ := Nat.exists_eq_add_of_le low
    have going := passes.going d (by omega)
    rw [← not_or, ← atStop_iff_kind (iterate_standsAt stands d), going]
    decide
  · exact (atStop_iff_kind (iterate_standsAt stands n)).mp passes.stopped

end

/-- All that reading a binding can come to, from a parser at number `i`. -/
inductive BindingOutcome (p : Parser) (c : Cursor) (i : Nat) : Option Binding × Parser → Prop
  | made {q : Parser} {n : Nat} (named : p.ahead.kind = .ident)
      (assigned : p.cursor.next.1.kind = .assign) (passes : p.shift.shift.Passes n)
      (stands : q.StandsAt c (i + 2 + n)) (errors : q.errors = p.errors) :
      BindingOutcome p c i (some ⟨p.current, .ofToken p.ahead, none⟩, q)
  | unnamed {q : Parser} {e : ParseError} (other : p.ahead.kind ≠ .ident)
      (stands : q.StandsAt c i) (reports : e.Reports .ident q.ahead)
      (errors : q.errors = p.errors ++ [e]) : BindingOutcome p c i (none, q)
  | unassigned {q : Parser} {e : ParseError} (named : p.ahead.kind = .ident)
      (other : p.cursor.next.1.kind ≠ .assign) (stands : q.StandsAt c (i + 1))
      (reports : e.Reports .assign q.ahead) (errors : q.errors = p.errors ++ [e]) :
      BindingOutcome p c i (none, q)

section
variable {p : Parser} {c : Cursor} {i : Nat}

theorem parseBinding_outcome (stands : p.StandsAt c i) :
    BindingOutcome p c i p.parseBinding := by
  have next : p.shift.ahead = p.cursor.next.1 := rfl
  by_cases named : p.ahead.kind = .ident
  case neg =>
    rw [parseBinding_of_unnamed (by simpa [Token.is] using named)]
    exact .unnamed named (complain_standsAt _ stands) (ParseError.about_reports _ _)
      (complain_errors _ p)
  have name : p.ahead.is .ident = true := by simpa [Token.is] using named
  have shifted := shift_standsAt stands
  by_cases assigned : p.cursor.next.1.kind = .assign
  case neg =>
    rw [parseBinding_of_unassigned name (by simpa [Token.is, next] using assigned)]
    exact .unassigned named assigned (complain_standsAt _ shifted) (ParseError.about_reports _ _)
      (complain_errors _ p.shift)
  rw [parseBinding_of_assigned name (by simpa [Token.is, next] using assigned)]
  obtain ⟨n, passes⟩ := exists_passes p.shift.shift
  rw [skipValue_of_passes passes]
  refine .made named assigned passes ?_ ?_
  · exact note_standsAt _ (iterate_standsAt (shift_standsAt shifted) n)
  · rw [note_errors, iterate_errors, shift_errors, shift_errors]

end

/-- From every state that a parser can be brought to, a binding is read if and only if a name and an
equals sign come next. Then no error is added, and the parser has passed all tokens up to the
first semicolon or to the end, and none more; its loop has ended there. Otherwise one error is
added, and it is about the token that is now ahead. -/
theorem parseBinding_from_anywhere (c : Cursor) (commands : List Command) :
    let p := (ofCursor c).performed commands
    let made := p.parseBinding.1
    let q := p.parseBinding.2
    ∃ i, p.StandsAt c i ∧
      (made.isSome = true ↔ p.ahead.kind = .ident ∧ p.cursor.next.1.kind = .assign) ∧
      (∀ s, made = some s →
        s = ⟨p.current, .ofToken p.ahead, none⟩ ∧ q.errors = p.errors ∧
        ∃ n, p.shift.shift.Passes n ∧ i + 2 + n ≤ c.drain.1.length ∧
          StopsAt c.drain.1 (i + 2) (i + 2 + n) ∧ q.StandsAt c (i + 2 + n)) ∧
      (made = none →
        (∃ e, q.errors = p.errors ++ [e] ∧ e.token = q.ahead ∧
          e.Reports (if p.ahead.kind = .ident then .assign else .ident) q.ahead) ∧
        (p.ahead.kind ≠ .ident → q.current = p.current ∧ q.StandsAt c i) ∧
        (p.ahead.kind = .ident → q.current = p.ahead ∧ q.StandsAt c (i + 1))) := by
  intro p
  obtain ⟨i, shows⟩ := performed_shows c commands
  have here : p.StandsAt c i := standsAt_of_shows shows
  have outcome := parseBinding_outcome here
  generalize p.parseBinding = result at outcome ⊢
  cases outcome with
  | @made q n named assigned passes stands errors =>
    have stops := passes_stopsAt (shift_standsAt (shift_standsAt here)) passes
    -- the equals sign is a token of the stream, so the search starts within it
    have equals : (tokenAt c.drain.1 (i + 2)).kind = .assign := by
      rw [← c.pulls_tokenAt, ← here.cursor, assigned]
    have within := stopsAt_le stops (Nat.le_of_lt (lt_length_of_kind equals (by decide)))
    refine ⟨i, here, by simp [named, assigned], ?_, by simp⟩
    intro s found
    exact ⟨(Option.some.inj found).symm, errors, n, passes, within, stops, stands⟩
  | unnamed other stands reports errors =>
    refine ⟨i, here, by simp [other], by simp, ?_⟩
    intro _
    refine ⟨⟨_, errors, reports.1, by simpa [other] using reports⟩, ?_,
      fun named => absurd named other⟩
    intro _
    exact ⟨stands.current.trans here.current.symm, stands⟩
  | unassigned named other stands reports errors =>
    refine ⟨i, here, by simp [other], by simp, ?_⟩
    intro _
    refine ⟨⟨_, errors, reports.1, by simpa [named] using reports⟩,
      fun unnamed => absurd named unnamed, ?_⟩
    intro _
    exact ⟨stands.current.trans here.ahead.symm, stands⟩

end Parser

end LetFrontEnd
