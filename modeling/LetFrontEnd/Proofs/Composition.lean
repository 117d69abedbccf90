import LetFrontEnd.Proofs.Transcript

/- Sessions in a row. Where an input stops at the end of a line, a session over it and a session
   over what follows make one: the last prompt of the first is the first prompt of the second. So a
   session is put together from sessions over single lines. The loop that holds it reads every
   line into one buffer, and nothing that a line leaves there reaches the next. -/
namespace LetFrontEnd.Session

/-- The input is empty, or a line feed stands at its end. -/
def Whole (bs : List UInt8) : Prop := ∀ b ∈ bs.getLast?, b = 0x0A

instance (bs : List UInt8) : Decidable (Whole bs) :=
  @Option.decidableForallMem _ (fun b => b = 0x0A) _ bs.getLast?

instance : Append Outcome :=
  ⟨fun o p => ⟨o.output ++ p.output, o.flushes + p.flushes, o.events ++ p.events, p.fault⟩⟩

/-- A session and then another over what follows. The prompt that found nothing to read goes, with
its event, and the second session does not start anew. -/
def Outcome.followedBy (o p : Outcome) : Outcome where
  output := o.output.take (o.output.length - promptBytes.length) ++ p.output
  flushes := o.flushes + p.flushes - 1
  events := o.events.dropLast ++ p.events.tail
  fault := p.fault

/-- The session came to the end of its input, with its first and last events in their places. -/
structure Outcome.Complete (o : Outcome) : Prop where
  prompted : promptBytes <:+ o.output
  flushed : 1 ≤ o.flushes
  started : o.events.head? = some .sessionStarted
  exhausted : o.events.getLast? = some .inputExhausted
  clean : o.fault = none

def Step.outcome : Step → Outcome
  | note e => ⟨[], 0, [e], none⟩
  | write text => ⟨Text.utf8 text, 0, [], none⟩
  | flush => ⟨[], 1, [], none⟩
  | read _ => ⟨[], 0, [], none⟩

section
variable {o p q : Outcome}

theorem append_outcome (o p : Outcome) :
    o ++ p = ⟨o.output ++ p.output, o.flushes + p.flushes, o.events ++ p.events, p.fault⟩ := rfl

theorem append_assoc (o p q : Outcome) : o ++ p ++ q = o ++ (p ++ q) := by
  simp only [append_outcome, List.append_assoc, Nat.add_assoc]

theorem perform_step (step : Step) (rest : List Step) :
    perform .unlimited (step :: rest) = step.outcome ++ perform .unlimited rest := by
  cases step with
  | note e => simp [perform, Step.outcome, append_outcome]
  | write text => simp [perform, Step.outcome, append_outcome, Limits.unlimited]
  | flush => simp [perform, Step.outcome, append_outcome, Limits.unlimited, Nat.add_comm]
  | read piece => simp [perform, Step.outcome, append_outcome, Limits.unlimited]

theorem perform_append (steps later : List Step) :
    perform .unlimited (steps ++ later) = perform .unlimited steps ++ perform .unlimited later := by
  induction steps with
  | nil => simp [perform, append_outcome]
  | cons step rest ih => rw [List.cons_append, perform_step, perform_step, ih, append_assoc]

end

def body (input : List UInt8) : Outcome := perform .unlimited ((pieces input).flatMap turn)

theorem run_eq_body (input : List UInt8) :
    run .unlimited input =
      (Step.note .sessionStarted).outcome ++ (body input ++ perform .unlimited closing) := by
  rw [run, script, perform_step, perform_append, body]

theorem perform_closing :
    perform .unlimited closing = ⟨promptBytes, 1, [.inputExhausted], none⟩ := by
  decide

theorem run_complete (input : List UInt8) : (run .unlimited input).Complete := by
  have last : ∀ events : List Event,
      (.sessionStarted :: (events ++ [.inputExhausted])).getLast? = some .inputExhausted := by
    intro events
    rw [← List.cons_append, List.getLast?_concat]
  rw [run_eq_body, perform_closing]
  constructor <;> simp [append_outcome, Step.outcome, last]

theorem run_followedBy (a b : List UInt8) :
    (run .unlimited a).followedBy (run .unlimited b) =
      (Step.note .sessionStarted).outcome ++ (body a ++ body b ++ perform .unlimited closing) := by
  have apart : ∀ events : List Event,
      (.sessionStarted :: (events ++ [.inputExhausted])).dropLast = .sessionStarted :: events := by
    intro events
    rw [← List.cons_append, List.dropLast_concat]
  rw [run_eq_body, run_eq_body, perform_closing]
  simp only [Outcome.followedBy, append_outcome, Step.outcome, Outcome.mk.injEq]
  simp [apart]
  omega

theorem pieces_append {a : List UInt8} (whole : Whole a) (b : List UInt8) :
    pieces (a ++ b) = pieces a ++ pieces b := by
  have cut := pieces_cuts a
  generalize pieces a = ps at cut ⊢
  induction cut with
  | nil => rfl
  | @line body rest ps inside later ih =>
    have left : Whole rest := by
      intro x last
      apply whole x
      rw [List.getLast?_append, List.getLast?_cons, last]
      rfl
    rw [List.append_assoc, List.cons_append, pieces_line inside, ih left, List.cons_append]
  | @last body inside some =>
    have ends : body.getLast some = 0x0A := whole _ (List.getLast?_eq_some_getLast some)
    exact absurd (ends ▸ List.getLast_mem some) inside

theorem run_append {a : List UInt8} (whole : Whole a) (b : List UInt8) :
    run .unlimited (a ++ b) = (run .unlimited a).followedBy (run .unlimited b) := by
  have lines : body (a ++ b) = body a ++ body b := by
    unfold body
    rw [pieces_append whole, List.flatMap_append, perform_append]
  rw [run_followedBy, run_eq_body, lines]

theorem run_flatten {as : List (List UInt8)} (whole : ∀ a ∈ as, Whole a) (b : List UInt8) :
    run .unlimited (as.flatten ++ b) =
      (as.map (run .unlimited)).foldr Outcome.followedBy (run .unlimited b) := by
  induction as with
  | nil => rfl
  | cons a later ih =>
    obtain ⟨first, others⟩ := List.forall_mem_cons.mp whole
    rw [List.flatten_cons, List.append_assoc, run_append first, ih others, List.map_cons,
      List.foldr_cons]

theorem run_followedBy_nothing (a : List UInt8) :
    (run .unlimited a).followedBy (run .unlimited []) = run .unlimited a := by
  have none : body a ++ body [] = body a := by
    unfold body
    rw [← perform_append, pieces, List.flatMap_nil, List.append_nil]
  rw [run_followedBy, run_eq_body a, none]

theorem run_pieces (input : List UInt8) :
    run .unlimited input =
      ((pieces input).map (run .unlimited)).foldr Outcome.followedBy (run .unlimited []) := by
  have cut := pieces_cuts input
  generalize pieces input = ps at cut ⊢
  induction cut with
  | nil => rfl
  | @line body rest ps inside later ih =>
    have whole : Whole (body ++ [0x0A]) := by
      intro x last
      rw [List.getLast?_concat] at last
      exact (Option.some.inj last).symm
    rw [List.append_cons, run_append whole, ih, List.map_cons, List.foldr_cons]
  | @last body inside some => exact (run_followedBy_nothing body).symm

namespace Reader

theorem fill_line {line : List UInt8} (inside : 0x0A ∉ line) (buffer rest : List UInt8) :
    fill buffer (line ++ 0x0A :: rest) = (line.length + 1, ⟨rest, buffer ++ line ++ [0x0A]⟩) := by
  induction line generalizing buffer with
  | nil => simp [fill]
  | cons b line ih =>
    have other : b ≠ 0x0A := (List.ne_of_not_mem_cons inside).symm
    simp [fill, other, ih (List.not_mem_of_not_mem_cons inside)]

theorem fill_last {line : List UInt8} (inside : 0x0A ∉ line) (buffer : List UInt8) :
    fill buffer line = (line.length, ⟨[], buffer ++ line⟩) := by
  induction line generalizing buffer with
  | nil => simp [fill]
  | cons b line ih =>
    have other : b ≠ 0x0A := (List.ne_of_not_mem_cons inside).symm
    simp [fill, other, ih (List.not_mem_of_not_mem_cons inside)]

theorem converse_end (stale : List UInt8) : converse ⟨[], stale⟩ = closing := by
  unfold converse
  rfl

theorem converse_round {r s : Reader} {n : Nat} (filled : r.clear.readLine = (n + 1, s)) :
    r.converse = turn s.buffer ++ s.converse := by
  conv => lhs; unfold converse
  split
  · rename_i t empty
    rw [filled] at empty
    cases empty
  · rename_i k t read
    rw [filled] at read
    cases read
    simp [turn]

theorem converse_pieces (input stale : List UInt8) :
    converse ⟨input, stale⟩ = (pieces input).flatMap turn ++ closing := by
  have cut := pieces_cuts input
  generalize pieces input = ps at cut
  induction cut generalizing stale with
  | nil => exact converse_end stale
  | @line body rest ps inside later ih =>
    have filled : (Reader.mk (body ++ 0x0A :: rest) stale).clear.readLine =
        (body.length + 1, ⟨rest, body ++ [0x0A]⟩) := by
      simp [readLine, clear, fill_line inside]
    rw [converse_round filled, ih, List.flatMap_cons, List.append_assoc]
  | @last body inside some =>
    obtain ⟨b, others, rfl⟩ := List.exists_cons_of_ne_nil some
    have filled : (Reader.mk (b :: others) stale).clear.readLine =
        (others.length + 1, ⟨[], b :: others⟩) := by
      simp [readLine, clear, fill_last inside]
    rw [converse_round filled, converse_end, List.flatMap_singleton]

end Reader

/-- Sessions over whole lines and a session over what follows make one session over all of it: the
output goes on where the last prompt stood, the prompts at the seam are flushed once, and the events
at the seam fall away. Any number of sessions can be joined so, those over the single lines of an
input in particular, and the loop takes the same steps whatever it finds in its buffer. -/
theorem sessions_compose :
    (∀ input, (run .unlimited input).Complete) ∧
    (∀ a b, Whole a →
      run .unlimited (a ++ b) = (run .unlimited a).followedBy (run .unlimited b)) ∧
    (∀ (as : List (List UInt8)) (b : List UInt8), (∀ a ∈ as, Whole a) →
      run .unlimited (as.flatten ++ b) =
        (as.map (run .unlimited)).foldr Outcome.followedBy (run .unlimited b)) ∧
    (∀ input, run .unlimited input =
      ((pieces input).map (run .unlimited)).foldr Outcome.followedBy (run .unlimited [])) ∧
    ∀ input stale, script input = .note .sessionStarted :: Reader.converse ⟨input, stale⟩ := by
  constructor
  · exact run_complete
  constructor
  · intro a b whole
    exact run_append whole b
  constructor
  · intro as b whole
    exact run_flatten whole b
  constructor
  · exact run_pieces
  · intro input stale
    rw [Reader.converse_pieces, script]

/-- The second line would finish the binding that the first one starts, yet it is read alone. -/
theorem sessions_compose_in_binding :
    Whole (Byte.ofText "let x\n") ∧
    run .unlimited (Byte.ofText "let x\n" ++ Byte.ofText "= 1;") =
      (run .unlimited (Byte.ofText "let x\n")).followedBy (run .unlimited (Byte.ofText "= 1;")) ∧
    (∀ a ∈ [Byte.ofText "let x\n", [], Byte.ofText "= 1;\r\n"], Whole a) ∧
    run .unlimited
        ([Byte.ofText "let x\n", [], Byte.ofText "= 1;\r\n"].flatten ++ Byte.ofText "let") =
      ([Byte.ofText "let x\n", [], Byte.ofText "= 1;\r\n"].map (run .unlimited)).foldr
        Outcome.followedBy (run .unlimited (Byte.ofText "let")) := by
  have whole : Whole (Byte.ofText "let x\n") := by decide
  have lines : ∀ a ∈ [Byte.ofText "let x\n", [], Byte.ofText "= 1;\r\n"], Whole a := by decide
  exact ⟨whole, sessions_compose.2.1 _ _ whole, lines, sessions_compose.2.2.1 _ _ lines⟩

end LetFrontEnd.Session
