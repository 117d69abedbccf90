import LetFrontEnd.Proofs.Lines
import LetFrontEnd.Trace

/- What a session puts out. With nothing in its way it prompts, lists and reports for each line in
   turn, and the lists and reports in a row tell what lexer and parser make of the whole input. -/
namespace LetFrontEnd.Session

structure View where
  output : List UInt8
  fault : Option Fault
  deriving DecidableEq, Repr

def Outcome.view (o : Outcome) : View := ⟨o.output, o.fault⟩

def View.after (bytes : List UInt8) (v : View) : View := ⟨bytes ++ v.output, v.fault⟩

@[simp] theorem grants_none (cost : Nat) : grants none cost = true := rfl

@[simp] theorem spend_none (cost : Nat) : spend cost none = none := rfl

@[simp] theorem grants_some (n cost : Nat) : grants (some n) cost = decide (cost ≤ n) := rfl

@[simp] theorem spend_some (n cost : Nat) : spend cost (some n) = some (n - cost) := rfl

def Step.text? : Step → Option String
  | write text => some text
  | _ => none

def Step.bytes : Step → List UInt8
  | write text => Text.utf8 text
  | _ => []

def Step.fault? : Step → Option Fault
  | note _ => none
  | write _ => some .write
  | flush => some .flush
  | read _ => some .read

/-- What a step leaves of the limits. There is nothing left when they do not grant it. -/
def Limits.charge (limits : Limits) : Step → Option Limits
  | .note _ => some limits
  | .write text =>
    if grants limits.write (Text.utf8 text).length then
      some { limits with write := spend (Text.utf8 text).length limits.write }
    else none
  | .flush =>
    if grants limits.flush 1 then some { limits with flush := spend 1 limits.flush } else none
  | .read piece =>
    if grants limits.read (demand piece) then
      some { limits with read := spend piece.length limits.read }
    else none

section
variable {limits left : Limits} {step : Step} {rest : List Step}

@[simp] theorem view_nil : (perform limits []).view = ⟨[], none⟩ := by
  rw [perform]
  rfl

theorem view_granted (granted : limits.charge step = some left) :
    (perform limits (step :: rest)).view = (perform left rest).view.after step.bytes := by
  cases step with
  | note e =>
    obtain rfl : limits = left := Option.some.inj granted
    rw [perform]
    rfl
  | write text =>
    obtain ⟨room, same⟩ := Option.ite_none_right_eq_some.mp granted
    rw [perform, if_pos room, ← Option.some.inj same]
    rfl
  | flush =>
    obtain ⟨room, same⟩ := Option.ite_none_right_eq_some.mp granted
    rw [perform, if_pos room, ← Option.some.inj same]
    rfl
  | read piece =>
    obtain ⟨room, same⟩ := Option.ite_none_right_eq_some.mp granted
    rw [perform, if_pos room, ← Option.some.inj same]
    rfl

/-- A step that is refused ends the run. Of a text that is too long the beginning gets through. -/
theorem view_refused (refused : limits.charge step = none) :
    (perform limits (step :: rest)).view =
      ⟨step.bytes.take (limits.write.getD 0), step.fault?⟩ := by
  cases step with
  | note e => simp [Limits.charge] at refused
  | write text =>
    have short : ¬ grants limits.write (Text.utf8 text).length = true := by
      simpa [Limits.charge] using refused
    rw [perform, if_neg short]
    rfl
  | flush =>
    have short : ¬ grants limits.flush 1 = true := by simpa [Limits.charge] using refused
    rw [perform, if_neg short]
    simp [Outcome.view, Step.bytes, Step.fault?]
  | read piece =>
    have short : ¬ grants limits.read (demand piece) = true := by
      simpa [Limits.charge] using refused
    rw [perform, if_neg short]
    simp [Outcome.view, Step.bytes, Step.fault?]

theorem fault_of_refused (refused : limits.charge step = none) : step.fault? ≠ none := by
  cases step <;> simp_all [Limits.charge, Step.fault?]

theorem charge_unlimited (step : Step) : Limits.unlimited.charge step = some .unlimited := by
  cases step <;> rfl

end

theorem view_unlimited (steps : List Step) :
    (perform .unlimited steps).view = ⟨steps.flatMap Step.bytes, none⟩ := by
  induction steps with
  | nil => exact view_nil
  | cons step rest ih =>
    rw [view_granted (charge_unlimited step), ih]
    rfl

theorem view_of_no_fault {limits : Limits} {steps : List Step}
    (clean : (perform limits steps).view.fault = none) :
    (perform limits steps).view = (perform .unlimited steps).view := by
  induction steps generalizing limits with
  | nil => rw [view_nil, view_nil]
  | cons step rest ih =>
    cases paid : limits.charge step with
    | none =>
      rw [view_refused paid] at clean
      exact absurd clean (fault_of_refused paid)
    | some left =>
      rw [view_granted paid] at clean ⊢
      rw [ih clean, view_granted (charge_unlimited step)]

def texts (steps : List Step) : List String := steps.filterMap Step.text?

theorem bytes_eq_texts (steps : List Step) :
    steps.flatMap Step.bytes = (texts steps).flatMap Text.utf8 := by
  induction steps with
  | nil => rfl
  | cons step rest ih =>
    cases step with
    | write text => exact congrArg (Text.utf8 text ++ ·) ih
    | note e => exact ih
    | flush => exact ih
    | read piece => exact ih

def listed (t : Token) : String := t.display ++ "\n"

/-- What a session has to say about one line. -/
structure Exchange where
  tokens : List Token
  errors : List ParseError
  deriving DecidableEq, Repr

namespace Exchange

def ofLine (line : List UInt8) : Exchange := ⟨LetFrontEnd.tokens line, (parse (.ofBytes line)).2⟩

def texts (e : Exchange) : List String :=
  e.tokens.map listed ++ e.errors.map ParseError.report

end Exchange

/-- A prompt stands before each exchange and once more at the end. -/
def dialogue (es : List Exchange) : List String :=
  es.flatMap (fun e => promptText :: e.texts) ++ [promptText]

def transcript (es : List Exchange) : List UInt8 := (dialogue es).flatMap Text.utf8

def promptBytes : List UInt8 := Text.utf8 promptText

theorem dialogue_cons (e : Exchange) (es : List Exchange) :
    dialogue (e :: es) = promptText :: (e.texts ++ dialogue es) := by
  simp [dialogue]

theorem transcript_nil : transcript [] = promptBytes := by
  simp [transcript, dialogue, promptBytes]

theorem transcript_cons (e : Exchange) (es : List Exchange) :
    transcript (e :: es) = promptBytes ++ e.texts.flatMap Text.utf8 ++ transcript es := by
  simp [transcript, dialogue_cons, promptBytes]

def exchanges (input : List UInt8) : List Exchange := (lines input).map .ofLine

theorem texts_append (steps later : List Step) :
    texts (steps ++ later) = texts steps ++ texts later :=
  List.filterMap_append

theorem texts_flatMap {α : Type} (steps : α → List Step) (xs : List α) :
    texts (xs.flatMap steps) = xs.flatMap fun x => texts (steps x) :=
  List.filterMap_flatMap

theorem texts_listing (line : List UInt8) :
    texts (listing line) = (tokens line).map listed := by
  have ending : texts [.note (.token .eof)] = [] := rfl
  rw [listing, texts_append, texts_flatMap, ending, List.append_nil, List.map_eq_flatMap]
  rfl

theorem texts_review (line : List UInt8) :
    texts (review line) = (parse (.ofBytes line)).2.map ParseError.report := by
  simp [texts, review, parse, Step.text?, List.filterMap_map, Function.comp_def]

theorem texts_reply (line : List UInt8) : texts (reply line) = (Exchange.ofLine line).texts := by
  rw [reply, texts_append, texts_listing, texts_review]
  rfl

theorem texts_turn (piece : List UInt8) :
    texts (turn piece) = promptText :: (Exchange.ofLine (lineOf piece)).texts := by
  rw [← texts_reply]
  rfl

theorem texts_script (input : List UInt8) : texts (script input) = dialogue (exchanges input) := by
  have turns : texts ((pieces input).flatMap turn) =
      (exchanges input).flatMap fun e => promptText :: e.texts := by
    rw [texts_flatMap, exchanges, lines, List.map_map, List.flatMap_map]
    exact congrArg (fun f => (pieces input).flatMap f) (funext texts_turn)
  calc texts (script input)
      = texts ((pieces input).flatMap turn) ++ texts closing := texts_append _ _
    _ = dialogue (exchanges input) := by rw [turns]; rfl

theorem run_unlimited (input : List UInt8) :
    (run .unlimited input).view = ⟨transcript (exchanges input), none⟩ := by
  rw [run, view_unlimited, bytes_eq_texts, texts_script, transcript]

theorem output_of_no_fault {limits : Limits} {input : List UInt8}
    (clean : (run limits input).fault = none) :
    (run limits input).output = transcript (exchanges input) :=
  congrArg View.output ((view_of_no_fault clean).trans (run_unlimited input))

/-- The tokens of a line are all that a session has to know of it. -/
def Exchange.ofTokens (ts : List Token) : Exchange := ⟨ts, (findings ts).errors⟩

theorem exchanges_eq (input : List UInt8) :
    exchanges input = ((lines input).map LetFrontEnd.tokens).map Exchange.ofTokens := by
  rw [exchanges, List.map_map]
  apply congrArg (fun f => (lines input).map f)
  funext line
  exact congrArg (Exchange.mk (tokens line)) (parse_findings (.ofBytes line)).2

theorem exchanges_tokens (input : List UInt8) :
    (exchanges input).map Exchange.tokens = (lines input).map LetFrontEnd.tokens := by
  rw [exchanges_eq, List.map_map]
  exact List.map_id _

/-- The tokens that a session lists are those of the whole input. If each line but the last has no
tokens or ends in a semicolon, the errors that it reports are those of the whole input as well. -/
theorem session_reads_whole_input (input : List UInt8) :
    (run .unlimited input).output = transcript (exchanges input) ∧
    (exchanges input).flatMap Exchange.tokens = tokens input ∧
    ((∀ e ∈ (exchanges input).dropLast, Closed e.tokens) →
      (exchanges input).flatMap Exchange.errors = (parse (.ofBytes input)).2) := by
  have all : ((exchanges input).map Exchange.tokens).flatten = tokens input := by
    rw [exchanges_tokens, ← List.flatMap_def, tokens_lines]
  refine ⟨congrArg View.output (run_unlimited input), all, ?_⟩
  intro closed
  have apart : ∀ ts ∈ ((exchanges input).map Exchange.tokens).dropLast, Closed ts := by
    rw [← List.map_dropLast, List.forall_mem_map]
    exact closed
  have reported : (exchanges input).flatMap Exchange.errors =
      ((exchanges input).map Exchange.tokens).flatMap fun ts => (findings ts).errors := by
    rw [exchanges_tokens, exchanges_eq, List.flatMap_map]
    rfl
  have whole : (parse (.ofBytes input)).2 = (findings (tokens input)).errors :=
    (parse_findings (.ofBytes input)).2
  rw [whole, ← all, findings_flatten apart, reported]

/-- The first line is wrong and the last one breaks off, but all lines before that are closed. -/
theorem session_reads_closed_lines :
    (∀ e ∈ (exchanges (Byte.ofText "let;\r\n\nlet")).dropLast, Closed e.tokens) ∧
      (exchanges (Byte.ofText "let;\r\n\nlet")).flatMap Exchange.errors =
        (parse (.ofBytes (Byte.ofText "let;\r\n\nlet"))).2 := by
  have cut : lines (Byte.ofText "let;\r\n\nlet") =
      [Byte.ofText "let;", [], Byte.ofText "let"] := by decide
  have ended : Closed (tokens (Byte.ofText "let;")) := closed_semicolon (Byte.ofText "let")
  have empty : Closed (tokens []) := by
    rw [tokens_of_blank List.dropWhile_nil]
    decide
  have closed : ∀ e ∈ (exchanges (Byte.ofText "let;\r\n\nlet")).dropLast, Closed e.tokens := by
    rw [exchanges, cut]
    exact List.forall_mem_cons.mpr ⟨ended, List.forall_mem_singleton.mpr empty⟩
  exact ⟨closed, (session_reads_whole_input _).2.2 closed⟩

end LetFrontEnd.Session
