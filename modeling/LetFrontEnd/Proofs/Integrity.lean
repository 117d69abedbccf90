import LetFrontEnd.Proofs.Logging
import LetFrontEnd.Proofs.Unbroken

/- No forged lines. Each line feed of a transcript ends the line of a token or one of the two lines
   of a report, and each line of a log in plain text tells of one event. The input has no say in
   where a line ends. -/
namespace LetFrontEnd
open Text

namespace Text

def ended (line : String) : List UInt8 := utf8 (line ++ "\n")

end Text

namespace Session

section
variable {front rest : List UInt8} {line : String} {ls : List String}

theorem ended_eq (line : String) : ended line = utf8 line ++ [0x0A] := utf8_append ..

theorem pieces_unended (some : front ≠ []) (clear : 0x0A ∉ front) : pieces front = [front] := by
  induction front with
  | nil => exact absurd rfl some
  | cons b bs ih =>
    rw [pieces, if_neg (List.ne_of_not_mem_cons clear).symm]
    cases bs with
    | nil => rfl
    | cons c cs => rw [ih (by simp) (List.not_mem_of_not_mem_cons clear)]

theorem pieces_ended (clear : 0x0A ∉ front) (unbroken : Unbroken line) (rest : List UInt8) :
    pieces (front ++ ended line ++ rest) = (front ++ ended line) :: pieces rest := by
  have inside : 0x0A ∉ front ++ utf8 line := by
    simp [clear, feed_not_mem_utf8 unbroken]
  simpa [ended_eq] using pieces_line inside rest

theorem pieces_written (unbroken : ∀ line ∈ ls, Unbroken line) (rest : List UInt8) :
    pieces (ls.flatMap ended ++ rest) = ls.map ended ++ pieces rest := by
  induction ls with
  | nil => rfl
  | cons line ls ih =>
    obtain ⟨first, others⟩ := List.forall_mem_cons.mp unbroken
    have cut := pieces_ended List.not_mem_nil first (ls.flatMap ended ++ rest)
    rw [ih others] at cut
    simpa using cut

theorem pieces_behind (clear : 0x0A ∉ front) (unbroken : ∀ l ∈ line :: ls, Unbroken l)
    (rest : List UInt8) :
    pieces (front ++ (line :: ls).flatMap ended ++ rest) =
      (front ++ ended line) :: (ls.map ended ++ pieces rest) := by
  obtain ⟨first, others⟩ := List.forall_mem_cons.mp unbroken
  have cut := pieces_ended clear first (ls.flatMap ended ++ rest)
  rw [pieces_written others] at cut
  simpa using cut

end

/-- The lines of an exchange: one for each token, and two for each error. -/
def Exchange.lines (e : Exchange) : List String :=
  e.tokens.map Token.display ++ e.errors.flatMap fun x => [x.heading, x.detail]

theorem exchange_lines_length (e : Exchange) :
    e.lines.length = e.tokens.length + 2 * e.errors.length := by
  simp [Exchange.lines, Nat.mul_comm]

theorem lines_length (es : List Exchange) :
    (es.flatMap Exchange.lines).length =
      (es.flatMap Exchange.tokens).length + 2 * (es.flatMap Exchange.errors).length := by
  induction es with
  | nil => rfl
  | cons e es ih =>
    simp only [List.flatMap_cons, List.length_append, exchange_lines_length, ih]
    omega

theorem exchange_written (e : Exchange) : e.texts.flatMap utf8 = e.lines.flatMap ended := by
  have report : ∀ x : ParseError, utf8 x.report = [x.heading, x.detail].flatMap ended := by
    intro x
    rw [x.report_eq, utf8_append]
    simp [ended]
  simp only [Exchange.texts, Exchange.lines, List.flatMap_append, List.flatMap_map,
    List.flatMap_assoc, report]
  rfl

theorem reported_unbroken {line : List UInt8} {x : ParseError}
    (reported : x ∈ (Exchange.ofLine line).errors) : Unbroken x.token.literal := by
  have found : x ∈ (findings (tokens line)).errors := (parse_findings (.ofBytes line)).2 ▸ reported
  obtain ⟨k, t, seen, rfl⟩ := findings_concern found
  rw [(ParseError.about_reports k t).1]
  rcases seen with read | rfl
  · exact tokens_unbroken read
  · decide

theorem exchange_unbroken (input : List UInt8) :
    ∀ e ∈ exchanges input, ∀ line ∈ e.lines, Unbroken line := by
  intro e member
  obtain ⟨read, -, rfl⟩ := List.mem_map.mp member
  intro line inside
  rcases List.mem_append.mp inside with token | error
  · obtain ⟨t, listed, rfl⟩ := List.mem_map.mp token
    exact display_unbroken (tokens_unbroken listed)
  · obtain ⟨x, reported, one⟩ := List.mem_flatMap.mp error
    rcases List.mem_pair.mp one with rfl | rfl
    · exact ParseError.heading_unbroken (reported_unbroken reported)
    · exact x.detail_unbroken

def prompted (n : Nat) : List UInt8 := (List.replicate n promptBytes).flatten

theorem prompted_clear (n : Nat) : 0x0A ∉ prompted n := by
  simp [prompted, promptBytes_eq]

theorem prompted_succ (n : Nat) : prompted (n + 1) = prompted n ++ promptBytes := by
  rw [prompted, List.replicate_succ', List.flatten_append, List.flatten_singleton, prompted]

/-- The piece is the line, ended, behind the prompts that nothing was answered to. -/
def Shows (piece : List UInt8) (line : String) : Prop := ∃ n, piece = prompted n ++ ended line

theorem shows_ended (line : String) : Shows (ended line) line := ⟨0, rfl⟩

/-- A transcript comes apart into the lines of its exchanges, and the last prompts are on a line of
their own that nothing ends. -/
theorem pieces_transcript {es : List Exchange}
    (unbroken : ∀ e ∈ es, ∀ line ∈ e.lines, Unbroken line) (n : Nat) :
    ∃ shown k, pieces (prompted n ++ transcript es) = shown ++ [prompted (k + 1)] ∧
      List.Forall₂ Shows shown (es.flatMap Exchange.lines) := by
  -- prompts gather on a line as long as nothing is answered to them
  induction es generalizing n with
  | nil =>
    refine ⟨[], n, ?_, .nil⟩
    rw [transcript_nil, ← prompted_succ]
    apply pieces_unended _ (prompted_clear _)
    simp [prompted_succ, promptBytes_eq]
  | cons e es ih =>
    obtain ⟨here, later⟩ := List.forall_mem_cons.mp unbroken
    have begun : prompted n ++ transcript (e :: es) =
        prompted (n + 1) ++ e.lines.flatMap ended ++ transcript es := by
      rw [transcript_cons, exchange_written, prompted_succ]
      simp only [List.append_assoc]
    rw [begun, List.flatMap_cons]
    cases answered : e.lines with
    | nil =>
      -- the next prompt stands on the same line
      rw [List.flatMap_nil, List.append_nil, List.nil_append]
      exact ih later (n + 1)
    | cons line ls =>
      rw [answered] at here
      obtain ⟨shown, k, rest, same⟩ := ih later 0
      have afresh : pieces (transcript es) = shown ++ [prompted (k + 1)] := rest
      refine ⟨(prompted (n + 1) ++ ended line) :: (ls.map ended ++ shown), k, ?_, ?_⟩
      · rw [pieces_behind (prompted_clear _) here, afresh, List.cons_append, List.append_assoc]
      · have others : List.Forall₂ Shows (ls.map ended) ls :=
          List.forall₂_map_left_iff.mpr (List.forall₂_same.mpr fun line _ => shows_ended line)
        exact .cons ⟨n + 1, rfl⟩ (List.rel_append others same)

theorem feeds_shown {shown : List (List UInt8)} {ls : List String}
    (same : List.Forall₂ Shows shown ls) (unbroken : ∀ line ∈ ls, Unbroken line) :
    shown.flatten.count 0x0A = ls.length := by
  induction same with
  | nil => rfl
  | @cons piece line shown ls first rest ih =>
    obtain ⟨n, rfl⟩ := first
    obtain ⟨here, others⟩ := List.forall_mem_cons.mp unbroken
    have front := List.count_eq_zero.mpr (prompted_clear n)
    have inside := List.count_eq_zero.mpr (feed_not_mem_utf8 here)
    rw [List.flatten_cons, List.count_append, ih others, ended_eq, List.count_append,
      List.count_append, front, inside, List.length_cons]
    simp [Nat.add_comm]

theorem note_of_mem_events {limits : Limits} {steps : List Step} {e : Event}
    (member : e ∈ (perform limits steps).events) : .note e ∈ steps := by
  induction steps generalizing limits with
  | nil => simp [perform] at member
  | cons step rest ih =>
    cases step with
    | note f =>
      rw [perform] at member
      rcases List.mem_cons.mp member with rfl | later
      · exact List.mem_cons_self
      · exact List.mem_cons_of_mem _ (ih later)
    | write text =>
      rw [perform] at member
      split at member
      · exact List.mem_cons_of_mem _ (ih member)
      · exact absurd member List.not_mem_nil
    | flush =>
      rw [perform] at member
      split at member
      · exact List.mem_cons_of_mem _ (ih member)
      · exact absurd member List.not_mem_nil
    | read piece =>
      rw [perform] at member
      split at member
      · exact List.mem_cons_of_mem _ (ih member)
      · exact absurd member List.not_mem_nil

theorem reply_unbroken {line : List UInt8} {e : Event} (member : .note e ∈ reply line) :
    e.Unbroken := by
  rcases List.mem_append.mp member with listed | reviewed
  · rcases List.mem_append.mp listed with token | ending
    · obtain ⟨t, inside, one⟩ := List.mem_flatMap.mp token
      rcases List.mem_pair.mp one with same | other
      · rw [Step.note.inj same]
        exact Event.token_unbroken (tokens_unbroken inside)
      · cases other
    · rw [Step.note.inj (List.mem_singleton.mp ending)]
      exact Event.token_unbroken (by decide)
  · rcases List.mem_append.mp reviewed with told | reported
    · obtain ⟨f, inside, same⟩ := List.mem_map.mp told
      exact Step.note.inj same ▸ parse_unbroken (.ofBytes line) f inside
    · obtain ⟨x, -, other⟩ := List.mem_map.mp reported
      cases other

theorem run_unbroken (limits : Limits) (input : List UInt8) :
    ∀ e ∈ (run limits input).events, e.Unbroken := by
  intro e member
  have noted : .note e ∈ script input := note_of_mem_events member
  rcases List.mem_cons.mp noted with same | later
  · rw [Step.note.inj same]
    exact List.forall_mem_nil _
  · rcases List.mem_append.mp later with turned | closed
    · obtain ⟨piece, -, inside⟩ := List.mem_flatMap.mp turned
      have answered : .note e ∈ reply (lineOf piece) := by simpa [turn, prompt] using inside
      exact reply_unbroken answered
    · have same : e = .inputExhausted := by simpa [closing, prompt] using closed
      rw [same]
      exact List.forall_mem_nil _

/-- Each line feed ends the line of a token or a line of a report, and none is missing. -/
structure Ruled (input output : List UInt8) : Prop where
  feeds : output.count 0x0A =
    (tokens input).length + 2 * ((exchanges input).flatMap Exchange.errors).length
  lines : ∃ shown k, pieces output = shown ++ [prompted (k + 1)] ∧
    List.Forall₂ Shows shown ((exchanges input).flatMap Exchange.lines)

theorem ruled_transcript (input : List UInt8) :
    Ruled input (transcript (exchanges input)) := by
  obtain ⟨shown, k, cut, same⟩ := pieces_transcript (exchange_unbroken input) 0
  refine ⟨?_, shown, k, cut, same⟩
  have whole : transcript (exchanges input) = shown.flatten ++ prompted (k + 1) := by
    have joined := congrArg List.flatten cut
    rw [pieces_flatten] at joined
    simpa [prompted] using joined
  have last := List.count_eq_zero.mpr (prompted_clear (k + 1))
  have unbroken : ∀ line ∈ (exchanges input).flatMap Exchange.lines, Unbroken line :=
    List.forall_mem_flatMap.mpr (exchange_unbroken input)
  have listed : (exchanges input).flatMap Exchange.tokens = tokens input := by
    rw [List.flatMap_def, exchanges_tokens, ← List.flatMap_def, tokens_lines]
  calc (transcript (exchanges input)).count 0x0A
      = shown.flatten.count 0x0A := by rw [whole, List.count_append, last, Nat.add_zero]
    _ = ((exchanges input).flatMap Exchange.lines).length := feeds_shown same unbroken
    _ = (tokens input).length + 2 * ((exchanges input).flatMap Exchange.errors).length := by
        rw [lines_length, listed]

end Session

theorem trace_unbroken (input : List UInt8) (a : Activity) : ∀ e ∈ a.trace input, e.Unbroken := by
  have listed : ∀ e ∈ (tokens input ++ [Token.eof]).map Event.token, e.Unbroken := by
    intro e member
    obtain ⟨t, inside, rfl⟩ := List.mem_map.mp member
    apply Event.token_unbroken
    rcases List.mem_append.mp inside with read | ending
    · exact tokens_unbroken read
    · rw [List.mem_singleton.mp ending]
      decide
  cases a with
  | tokenizing =>
    have whole : tokensThroughEnd input = tokens input ++ [Token.eof] :=
      Cursor.drainThroughEnd_eq _
    rw [Activity.trace, whole]
    exact listed
  | draining => exact listed
  | parsing => exact parse_unbroken _
  | session => exact Session.run_unbroken _ _

def CommandLine.Logger.KeepsLines (l : CommandLine.Logger) : Prop :=
  ∀ e : Event, e.Unbroken → Unbroken (l.line e)

namespace Log
open Session

/-- Nothing that the events carry breaks a line, so that a log has one line for each event that is
let through, in plain text as in any layout that breaks no line of its own. -/
structure Ruled (events : List Event) : Prop where
  fields : ∀ e ∈ events, e.Unbroken
  lines : ∀ l : CommandLine.Logger, l.KeepsLines →
    pieces ((events.filterMap l.line?).flatMap ended) =
      (events.filter l.filter.admits).map fun e => ended (l.line e)
  plain : ∀ filter : Filter,
    pieces ((events.filterMap (CommandLine.Logger.line? ⟨filter, Format.plainLine⟩)).flatMap ended) =
      (events.filter filter.admits).map fun e => ended (Format.plainLine e)

theorem pieces_log {events : List Event} (unbroken : ∀ e ∈ events, e.Unbroken)
    {l : CommandLine.Logger} (keeps : l.KeepsLines) :
    pieces ((events.filterMap l.line?).flatMap ended) =
      (events.filter l.filter.admits).map fun e => ended (l.line e) := by
  have shown : ∀ line ∈ (events.filter l.filter.admits).map l.line, Unbroken line := by
    intro line member
    obtain ⟨e, inside, rfl⟩ := List.mem_map.mp member
    exact keeps e (unbroken e (List.mem_of_mem_filter inside))
  have cut := pieces_written shown []
  simp only [List.append_nil, pieces, List.map_map, Function.comp_def] at cut
  rw [CommandLine.filterMap_line? l events, cut]

theorem ruled_of_unbroken {events : List Event} (unbroken : ∀ e ∈ events, e.Unbroken) :
    Ruled events :=
  { fields := unbroken
    lines := fun _ keeps => pieces_log unbroken keeps
    plain := fun filter => pieces_log (l := ⟨filter, Format.plainLine⟩) unbroken
      fun _ => Format.plainLine_unbroken }

end Log

open Session

/-- Lines keep their integrity, whatever the input. A session that nothing stops puts out one line
for each token and two for each error, and no line feed besides. Whatever is told of it, or of any
other activity, makes one line of a log each. -/
theorem no_forged_lines (input : List UInt8) :
    (∀ limits : Limits,
      ((run limits input).fault = none → Session.Ruled input (run limits input).output) ∧
        Log.Ruled (run limits input).events) ∧
    ∀ a : Activity, Log.Ruled (a.trace input) := by
  refine ⟨?_, fun a => Log.ruled_of_unbroken (trace_unbroken input a)⟩
  intro limits
  refine ⟨?_, Log.ruled_of_unbroken (run_unbroken limits input)⟩
  intro clean
  rw [output_of_no_fault clean]
  exact ruled_transcript input

def strayInput : List UInt8 := Byte.ofText "let @\r\n\n"

theorem no_forged_lines_of_stray :
    (run .unlimited strayInput).fault = none ∧
      (run .unlimited strayInput).output.count 0x0A = 4 := by
  have clean : (run .unlimited strayInput).fault = none :=
    congrArg View.fault (run_unlimited strayInput)
  have ruled := ((no_forged_lines strayInput).1 .unlimited).1 clean
  have listed : tokens strayInput = [⟨.letWord, "let"⟩, ⟨.illegal, "@"⟩] := by decide +kernel
  have reported : (exchanges strayInput).flatMap Exchange.errors =
      [.about .ident ⟨.illegal, "@"⟩] := by
    decide +kernel
  refine ⟨clean, ?_⟩
  rw [ruled.feeds, listed, reported]
  rfl

end LetFrontEnd
