import LetFrontEnd.Proofs.Findings
import LetFrontEnd.Proofs.Scanning

/- Resuming. What lies before a cursor has no part in what it does: with more bytes put there every
   pull hands out the same tokens and comes to the same place, so much further on. Hence a cursor
   that was pulled in any way does what a fresh one does on the bytes from its position on, and so
   does a parser that is opened on it, whatever is asked of the parser. -/
namespace LetFrontEnd

namespace Cursor

/-- The cursor in a longer input, which has `front` before all that there was. -/
def behind (front : List UInt8) (c : Cursor) : Cursor := ⟨c.before ++ front.reverse, c.after⟩

section
variable (front : List UInt8) (c : Cursor)

@[simp] theorem behind_after : (c.behind front).after = c.after := rfl

@[simp] theorem behind_byte? : (c.behind front).byte? = c.byte? := rfl

@[simp] theorem behind_input : (c.behind front).input = front ++ c.input := by
  simp [behind, input]

@[simp] theorem behind_position : (c.behind front).position = front.length + c.position := by
  simp [behind, position, Nat.add_comm]

theorem behind_nextPosition : (c.behind front).nextPosition = front.length + c.nextPosition := by
  simp only [nextPosition, behind_position, behind_input, List.length_append]
  omega

theorem pass_behind (n : Nat) : (c.behind front).pass n = (c.pass n).behind front := by
  fun_induction pass n c with
  | case1 c => rfl
  | case2 n before => rfl
  | case3 n before b after ih => exact ih

theorem skipBlanks_behind : (c.behind front).skipBlanks = c.skipBlanks.behind front :=
  pass_behind front c _

theorem read_behind : (c.behind front).read = (c.read.1, c.read.2.behind front) := by
  unfold read
  rw [behind_after]
  cases c.after with
  | nil => rfl
  | cons b rest => simp only [pass_behind]

theorem next_behind : (c.behind front).next = (c.next.1, c.next.2.behind front) := by
  rw [next, skipBlanks_behind, read_behind, next]

theorem next?_behind : (c.behind front).next? = (c.next?.1, c.next?.2.behind front) := by
  simp only [next?, next_behind]

theorem take_behind (n : Nat) :
    (c.behind front).take n = ((c.take n).1, (c.take n).2.behind front) := by
  induction n generalizing c with
  | zero => rfl
  | succ n ih =>
    have same : (c.behind front).next.1 = c.next.1 := by rw [next_behind]
    by_cases last : c.next.1.kind = .eof
    · rw [take_of_eof n last, take_of_eof n (same ▸ last), next_behind]
    · rw [take_of_token n last, take_of_token n (same ▸ last), next_behind, ih]

theorem drain_behind : (c.behind front).drain = (c.drain.1, c.drain.2.behind front) := by
  induction c using drainThroughEnd.induct with
  | case1 c last =>
    have same : (c.behind front).next.1 = c.next.1 := by rw [next_behind]
    rw [drain_of_eof last, drain_of_eof (same ▸ last), next_behind]
  | case2 c more _ _ _ ih =>
    have same : (c.behind front).next.1 = c.next.1 := by rw [next_behind]
    rw [drain_of_token more, drain_of_token (same ▸ more), next_behind, ih]

theorem pull_behind (way : Pull) :
    (c.behind front).pull way = ((c.pull way).1, (c.pull way).2.behind front) := by
  cases way with
  | next => simp only [pull, next_behind]
  | next? => simp only [pull, next?_behind]
  | take n => exact take_behind front c n
  | drain => exact drain_behind front c

theorem pulled_behind (ways : List Pull) :
    (c.behind front).pulled ways = (c.pulled ways).behind front := by
  induction ways generalizing c with
  | nil => rfl
  | cons way rest ih => rw [pulled, pull_behind, ih, pulled]

end

/-- Every cursor is a fresh one, put behind the bytes it has passed. -/
theorem eq_behind_fresh (c : Cursor) :
    c = (ofBytes (c.input.drop c.position)).behind (c.input.take c.position) := by
  obtain ⟨before, after⟩ := c
  simp [behind, ofBytes, input, position]

end Cursor

namespace Scanner

/-- The registers over a longer input. -/
def behind (front : List UInt8) (s : Scanner) : Scanner :=
  ⟨front ++ s.input, front.length + s.position, front.length + s.readPosition, s.byte⟩

theorem ofCursor_behind (front : List UInt8) (c : Cursor) :
    ofCursor (c.behind front) = (ofCursor c).behind front := by
  simp [ofCursor, behind, Cursor.behind_nextPosition]

theorem run_behind (front : List UInt8) (n : Nat) (c : Cursor) :
    ((ofCursor c).behind front).run n =
      ((ofCursor c).run n).map fun (ts, s) => (ts, s.behind front) := by
  rw [← ofCursor_behind]
  induction n generalizing c with
  | zero => simp only [run, Option.map_some, ofCursor_behind]
  | succ n ih =>
    obtain ⟨here, scanned, follows⟩ := scan_follows c
    obtain ⟨there, shifted, alike⟩ := scan_follows (c.behind front)
    rw [Cursor.next_behind] at alike
    have token : there.token = here.token := alike.token.trans follows.token.symm
    rw [run, run, scanned, shifted, Option.bind_some, Option.bind_some, alike.scanner,
      follows.scanner, ih, token, Option.map_map, Option.map_map]
    rfl

end Scanner

namespace Parser

def behind (front : List UInt8) (p : Parser) : Parser := { p with cursor := p.cursor.behind front }

section
variable (front : List UInt8) (p : Parser)

theorem shift_behind : (p.behind front).shift = p.shift.behind front := by
  simp only [shift, behind, Cursor.next_behind]

theorem ofCursor_behind (c : Cursor) : ofCursor (c.behind front) = (ofCursor c).behind front := by
  unfold ofCursor
  rw [← shift_behind, ← shift_behind]
  rfl

theorem expect_behind (k : TokenKind) :
    (p.behind front).expect k = ((p.expect k).1, (p.expect k).2.behind front) := by
  cases met : p.ahead.is k with
  | true => rw [expect_of_met met, expect_of_met (p := p.behind front) met, shift_behind]
  | false =>
    rw [expect_of_missed met, expect_of_missed (p := p.behind front) met]
    rfl

theorem skipValue_behind : (p.behind front).skipValue = p.skipValue.behind front := by
  fun_induction skipValue p with
  | case1 p stop =>
    rw [skipValue]
    exact dif_pos stop
  | case2 p going ih =>
    have goes : ¬ (p.behind front).atStop = true := going
    rw [skipValue, dif_neg goes, shift_behind, ih]

theorem parseBinding_behind :
    (p.behind front).parseBinding = (p.parseBinding.1, p.parseBinding.2.behind front) := by
  have next : (p.behind front).shift.ahead = p.shift.ahead := by rw [shift_behind]; rfl
  cases named : p.ahead.is .ident with
  | false =>
    rw [parseBinding_of_unnamed named, parseBinding_of_unnamed (p := p.behind front) named]
    rfl
  | true =>
    cases assigned : p.shift.ahead.is .assign with
    | false =>
      rw [parseBinding_of_unassigned named assigned,
        parseBinding_of_unassigned (p := p.behind front) named (next ▸ assigned), shift_behind]
      rfl
    | true =>
      rw [parseBinding_of_assigned named assigned,
        parseBinding_of_assigned (p := p.behind front) named (next ▸ assigned), shift_behind,
        shift_behind, skipValue_behind]
      rfl

theorem parseStatement_behind :
    (p.behind front).parseStatement = (p.parseStatement.1, p.parseStatement.2.behind front) := by
  cases word : p.current.is .letWord with
  | true =>
    rw [parseStatement_of_letWord word, parseStatement_of_letWord (p := p.behind front) word,
      parseBinding_behind]
  | false =>
    rw [parseStatement_of_other word, parseStatement_of_other (p := p.behind front) word]

theorem parseStatements_behind :
    (p.behind front).parseStatements = (p.parseStatements.1, p.parseStatements.2.behind front) := by
  induction size : p.remaining using Nat.strongRecOn generalizing p with
  | ind n ih =>
    cases last : p.current.is .eof with
    | true =>
      rw [parseStatements_of_eof last, parseStatements_of_eof (p := p.behind front) last]
    | false =>
      have later := ih _ (size ▸ parseStatement_progress last) p.parseStatement.2.shift rfl
      rw [parseStatements_of_token last, parseStatements_of_token (p := p.behind front) last,
        parseStatement_behind, shift_behind, later]

theorem parseProgram_behind :
    (p.behind front).parseProgram = (p.parseProgram.1, p.parseProgram.2.behind front) := by
  simp only [parseProgram, parseStatements_behind]
  rfl

theorem perform_behind (command : Command) :
    (p.behind front).perform command =
      ((p.perform command).1, (p.perform command).2.behind front) := by
  cases command with
  | shift => simp only [perform, shift_behind]
  | currentIs kind => rfl
  | aheadIs kind => rfl
  | expect kind => simp only [perform, expect_behind]
  | parseStatement => simp only [perform, parseStatement_behind]
  | parseBinding => simp only [perform, parseBinding_behind]
  | parseProgram => simp only [perform, parseProgram_behind]
  | errors => rfl

theorem performAll_behind (commands : List Command) :
    (p.behind front).performAll commands =
      (p.performAll commands).map fun (answer, q) => (answer, q.behind front) := by
  induction commands generalizing p with
  | nil => rfl
  | cons command rest ih => simp only [performAll, perform_behind, ih, List.map_cons]

end

end Parser

theorem parse_behind (front : List UInt8) (c : Cursor) : parse (c.behind front) = parse c := by
  simp only [parse, Parser.ofCursor_behind, Parser.parseProgram_behind]
  rfl

namespace Cursor

/-- A cursor that was pulled in any way goes on like a fresh one on the bytes from its position to the
end: it has the same tokens to come, each further pull hands out the same and leaves it at the
same place further on, in registers too, and a parser over it gives the same answers. So the
tokens taken from an input and those of the bytes left are all tokens of the input, wherever it
is cut. -/
theorem resumes_anywhere (bs : List UInt8) (ways : List Pull) :
    let c := (ofBytes bs).pulled ways
    let rest := bs.drop c.position
    let front := bs.take c.position
    c.drain.1 = tokens rest ∧
    (∀ more, c.pulled more = ((ofBytes rest).pulled more).behind front ∧
      ∀ way, ((c.pulled more).pull way).1 = (((ofBytes rest).pulled more).pull way).1) ∧
    (∀ n, (Scanner.ofCursor c).run n =
      ((Scanner.ofBytes rest).run n).map fun (ts, s) => (ts, s.behind front)) ∧
    parse c = parse (ofBytes rest) ∧
    (∀ commands, ((Parser.ofCursor c).performAll commands).map Prod.fst =
      ((Parser.ofCursor (ofBytes rest)).performAll commands).map Prod.fst) ∧
    ∀ k, ((ofBytes bs).take k).1 ++ tokens (bs.drop ((ofBytes bs).take k).2.position) =
      tokens bs := by
  intro c rest front
  have input : c.input = bs := by
    obtain ⟨n, reached⟩ := (ofBytes bs).pulled_eq_pulls ways
    change ((ofBytes bs).pulled ways).input = bs
    rw [reached, pulls_input, ofBytes_input]
  -- the rest is that every operation commutes with `behind`
  have resumed : c = (ofBytes rest).behind front := by
    have fresh := c.eq_behind_fresh
    rwa [input] at fresh
  refine ⟨?_, ?_, ?_, ?_, ?_, ?_⟩
  · rw [resumed, drain_behind]
    rfl
  · intro more
    have place : c.pulled more = ((ofBytes rest).pulled more).behind front := by
      rw [resumed, pulled_behind]
    refine ⟨place, ?_⟩
    intro way
    rw [place, pull_behind]
  · intro n
    rw [resumed, Scanner.ofCursor_behind, Scanner.run_behind, Scanner.ofBytes_eq]
  · rw [resumed, parse_behind]
  · intro commands
    rw [resumed, Parser.ofCursor_behind, Parser.performAll_behind, List.map_map]
    rfl
  · intro k
    have yields := take_yields k (ofBytes bs)
    have left := yields_drain yields
    rw [drain_eq_tokens, after_eq_drop, yields_input yields, ofBytes_input] at left
    exact left

end Cursor

end LetFrontEnd
