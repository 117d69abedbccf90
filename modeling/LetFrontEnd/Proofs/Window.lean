import LetFrontEnd.Parser.Command
import LetFrontEnd.Proofs.Stream
import Mathlib.Data.List.TakeWhile

/- The window of a parser is a place in the stream behind it. Every operation is made of three
   moves: a shift, a complaint about the token ahead, and a note in the log. What the moves keep
   holds of each parser that can be reached, and to all of them the stream looks like a list whose
   front is in view. -/
namespace LetFrontEnd

namespace Cursor

theorem pulls_succ (n : Nat) (c : Cursor) : (c.pulls n).next.2 = c.pulls (n + 1) := by
  induction n generalizing c with
  | zero => rfl
  | succ n ih => exact ih c.next.2

theorem drain_headD (c : Cursor) : c.drain.1.headD Token.eof = c.next.1 := by
  by_cases last : c.next.1.kind = .eof
  · rw [drain_of_eof last, (next_eof last).1]
    rfl
  · rw [drain_of_token last]
    rfl

theorem drain_tail (c : Cursor) : c.drain.1.tail = c.next.2.drain.1 := by
  by_cases last : c.next.1.kind = .eof
  · have blank : tokens c.next.2.after = [] := by
      rw [(next_eof last).2, tokens_of_blank List.dropWhile_nil]
    rw [drain_of_eof last, drain_eq_tokens, blank]
    rfl
  · rw [drain_of_token last]
    rfl

end Cursor

namespace Parser

/-- The moves keep a property. No complaint is made about a token of the expected kind. -/
structure Kept (holds : Parser → Prop) : Prop where
  shift : ∀ {p : Parser}, holds p → holds p.shift
  complain : ∀ {p : Parser} {k : TokenKind}, p.ahead.is k = false → holds p → holds (p.complain k)
  note : ∀ {p : Parser} {e : Event}, holds p → holds (p.note e)

theorem expect_of_met {p : Parser} {k : TokenKind} (met : p.ahead.is k = true) :
    p.expect k = (true, p.shift) := by
  simp [expect, met]

theorem expect_of_missed {p : Parser} {k : TokenKind} (missed : p.ahead.is k = false) :
    p.expect k = (false, p.complain k) := by
  simp [expect, missed]

theorem parseBinding_of_unnamed {p : Parser} (unnamed : p.ahead.is .ident = false) :
    p.parseBinding = (none, p.complain .ident) := by
  simp [parseBinding, expect_of_missed unnamed]

theorem parseBinding_of_unassigned {p : Parser} (named : p.ahead.is .ident = true)
    (unassigned : p.shift.ahead.is .assign = false) :
    p.parseBinding = (none, p.shift.complain .assign) := by
  simp [parseBinding, expect_of_met named, expect_of_missed unassigned]

theorem parseBinding_of_assigned {p : Parser} (named : p.ahead.is .ident = true)
    (assigned : p.shift.ahead.is .assign = true) :
    p.parseBinding = (some ⟨p.current, .ofToken p.ahead, none⟩,
      p.shift.shift.skipValue.note (.binding p.ahead.literal)) := by
  simp only [parseBinding, expect_of_met named, expect_of_met assigned]
  rfl

theorem parseStatement_of_letWord {p : Parser} (word : p.current.is .letWord = true) :
    p.parseStatement = p.parseBinding := by
  simp [parseStatement, word]

theorem parseStatement_of_other {p : Parser} (other : p.current.is .letWord = false) :
    p.parseStatement = (none, p) := by
  simp [parseStatement, other]

theorem parseStatements_of_eof {p : Parser} (last : p.current.is .eof = true) :
    p.parseStatements = ([], p) := by
  rw [parseStatements]
  simp [last]

theorem parseStatements_of_token {p : Parser} (more : p.current.is .eof = false) :
    p.parseStatements =
      (p.parseStatement.1.toList ++ p.parseStatement.2.shift.parseStatements.1,
        p.parseStatement.2.shift.parseStatements.2) := by
  rw [parseStatements]
  simp [more]

section
variable {holds : Parser → Prop}

theorem expect_kept (kept : Kept holds) (k : TokenKind) {p : Parser} (start : holds p) :
    holds (p.expect k).2 := by
  cases met : p.ahead.is k with
  | true =>
    rw [expect_of_met met]
    exact kept.shift start
  | false =>
    rw [expect_of_missed met]
    exact kept.complain met start

theorem skipValue_kept (kept : Kept holds) {p : Parser} (start : holds p) : holds p.skipValue := by
  fun_induction skipValue p with
  | case1 p stop => exact start
  | case2 p going ih => exact ih (kept.shift start)

theorem parseBinding_kept (kept : Kept holds) {p : Parser} (start : holds p) :
    holds p.parseBinding.2 := by
  cases named : p.ahead.is .ident with
  | false =>
    rw [parseBinding_of_unnamed named]
    exact kept.complain named start
  | true =>
    cases assigned : p.shift.ahead.is .assign with
    | false =>
      rw [parseBinding_of_unassigned named assigned]
      exact kept.complain assigned (kept.shift start)
    | true =>
      rw [parseBinding_of_assigned named assigned]
      exact kept.note (skipValue_kept kept (kept.shift (kept.shift start)))

theorem parseStatement_kept (kept : Kept holds) {p : Parser} (start : holds p) :
    holds p.parseStatement.2 := by
  cases word : p.current.is .letWord with
  | true =>
    rw [parseStatement_of_letWord word]
    exact parseBinding_kept kept start
  | false =>
    rw [parseStatement_of_other word]
    exact start

theorem parseStatements_kept (kept : Kept holds) {p : Parser} (start : holds p) :
    holds p.parseStatements.2 := by
  induction size : p.remaining using Nat.strongRecOn generalizing p with
  | ind n ih =>
    cases last : p.current.is .eof with
    | true =>
      rw [parseStatements_of_eof last]
      exact start
    | false =>
      rw [parseStatements_of_token last]
      exact ih _ (size ▸ parseStatement_progress last)
        (kept.shift (parseStatement_kept kept start)) rfl

theorem perform_kept (kept : Kept holds) (command : Command) {p : Parser} (start : holds p) :
    holds (p.perform command).2 := by
  cases command with
  | shift => exact kept.shift start
  | currentIs kind => exact start
  | aheadIs kind => exact start
  | expect kind => exact expect_kept kept kind start
  | parseStatement => exact parseStatement_kept kept start
  | parseBinding => exact parseBinding_kept kept start
  | parseProgram => exact kept.note (parseStatements_kept kept start)
  | errors => exact start

end

def performed (p : Parser) : List Command → Parser
  | [] => p
  | command :: rest => performed (p.perform command).2 rest

theorem performed_kept {holds : Parser → Prop} (kept : Kept holds) (commands : List Command)
    {p : Parser} (start : holds p) : holds (p.performed commands) := by
  induction commands generalizing p with
  | nil => exact start
  | cons command rest ih => exact ih (perform_kept kept command start)

/-- The parser has the two tokens after `c` in view, and the rest of the stream before it. -/
structure Shows (p : Parser) (c : Cursor) : Prop where
  current : p.current = c.next.1
  ahead : p.ahead = c.next.2.next.1
  cursor : p.cursor = c.next.2.next.2

theorem ofCursor_shows (c : Cursor) : (ofCursor c).Shows c := ⟨rfl, rfl, rfl⟩

theorem shift_shows {p : Parser} {c : Cursor} (shows : p.Shows c) : p.shift.Shows c.next.2 :=
  ⟨shows.ahead, congrArg (·.next.1) shows.cursor, congrArg (·.next.2) shows.cursor⟩

theorem complain_shows {p : Parser} {c : Cursor} (k : TokenKind) (shows : p.Shows c) :
    (p.complain k).Shows c :=
  ⟨shows.current, shows.ahead, shows.cursor⟩

theorem note_shows {p : Parser} {c : Cursor} (e : Event) (shows : p.Shows c) : (p.note e).Shows c :=
  ⟨shows.current, shows.ahead, shows.cursor⟩

theorem pulls_kept (c : Cursor) : Kept fun p => ∃ n, p.Shows (c.pulls n) := by
  refine ⟨?_, ?_, ?_⟩
  · intro p start
    obtain ⟨n, shows⟩ := start
    exact ⟨n + 1, c.pulls_succ n ▸ shift_shows shows⟩
  · intro p k _ start
    obtain ⟨n, shows⟩ := start
    exact ⟨n, complain_shows k shows⟩
  · intro p e start
    obtain ⟨n, shows⟩ := start
    exact ⟨n, note_shows e shows⟩

/-- Whatever is done with a parser, its window stays on the stream it was opened on. -/
theorem performed_shows (c : Cursor) (commands : List Command) :
    ∃ n, ((ofCursor c).performed commands).Shows (c.pulls n) :=
  performed_kept (pulls_kept c) commands ⟨0, ofCursor_shows c⟩

/-- The tokens a parser has not passed yet: those in view and those behind them, up to the end. -/
def upcoming (p : Parser) : List Token :=
  (p.current :: p.ahead :: p.cursor.drain.1).takeWhile fun t => !t.is .eof

theorem takeWhile_drain (c : Cursor) :
    c.drain.1.takeWhile (fun t => !t.is .eof) = c.drain.1 := by
  rw [List.takeWhile_eq_self_iff]
  intro t member
  simpa [Token.is] using Cursor.drain_ne_eof member

theorem upcoming_of_shows {p : Parser} {c : Cursor} (shows : p.Shows c) :
    p.upcoming = c.drain.1 := by
  rw [upcoming, shows.current, shows.ahead, shows.cursor]
  by_cases last : c.next.1.kind = .eof
  · simp [Token.is, last, Cursor.drain_of_eof last]
  · by_cases ending : c.next.2.next.1.kind = .eof
    · simp [Token.is, last, ending, Cursor.drain_of_token last, Cursor.drain_of_eof ending]
    · have rest := takeWhile_drain c.next.2.next.2
      simp only [Token.is] at rest
      simp [Token.is, last, ending, Cursor.drain_of_token last, Cursor.drain_of_token ending, rest]

/-- The parser stands in a stream of which the tokens `ts` are left. -/
def Reads (p : Parser) (ts : List Token) : Prop := ∃ c, p.Shows c ∧ c.drain.1 = ts

theorem ofCursor_reads (c : Cursor) : (ofCursor c).Reads c.drain.1 := ⟨c, ofCursor_shows c, rfl⟩

theorem performed_reads (c : Cursor) (commands : List Command) :
    ((ofCursor c).performed commands).Reads ((ofCursor c).performed commands).upcoming := by
  obtain ⟨n, shows⟩ := performed_shows c commands
  exact ⟨c.pulls n, shows, (upcoming_of_shows shows).symm⟩

section
variable {p : Parser} {ts : List Token}

theorem reads_current (reads : p.Reads ts) : p.current = ts.headD Token.eof := by
  obtain ⟨c, shows, rfl⟩ := reads
  rw [shows.current, c.drain_headD]

theorem reads_ahead (reads : p.Reads ts) : p.ahead = ts.tail.headD Token.eof := by
  obtain ⟨c, shows, rfl⟩ := reads
  rw [shows.ahead, c.drain_tail, c.next.2.drain_headD]

theorem reads_shift (reads : p.Reads ts) : p.shift.Reads ts.tail := by
  obtain ⟨c, shows, rfl⟩ := reads
  exact ⟨c.next.2, shift_shows shows, c.drain_tail.symm⟩

theorem reads_complain (k : TokenKind) (reads : p.Reads ts) : (p.complain k).Reads ts := by
  obtain ⟨c, shows, left⟩ := reads
  exact ⟨c, complain_shows k shows, left⟩

theorem reads_note (e : Event) (reads : p.Reads ts) : (p.note e).Reads ts := by
  obtain ⟨c, shows, left⟩ := reads
  exact ⟨c, note_shows e shows, left⟩

theorem reads_ne_eof (reads : p.Reads ts) {t : Token} (member : t ∈ ts) : t.is .eof = false := by
  obtain ⟨c, -, rfl⟩ := reads
  simpa [Token.is] using Cursor.drain_ne_eof member

theorem reads_eof_iff (reads : p.Reads ts) : p.current.is .eof = true ↔ ts = [] := by
  rw [reads_current reads]
  cases ts with
  | nil => simp [Token.is, Token.eof]
  | cons t rest => simp [reads_ne_eof reads (List.mem_cons_self ..)]

end

end Parser

end LetFrontEnd
