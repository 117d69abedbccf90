import LetFrontEnd.CommandLine
import LetFrontEnd.Proofs.Precedence

/- The log stands beside the program. A session goes on as if nobody took notes, so that no setting
   of the log can be seen in the output or in the exit code. A setting selects among the lines that
   there are; what a subscriber has to say of directives that it cannot read comes before them. -/
namespace LetFrontEnd

namespace Session

def Step.isNote : Step → Bool
  | note _ => true
  | _ => false

def Outcome.unnoted (o : Outcome) : Outcome := { o with events := [] }

/-- Leaving out the notes of a run leaves out its events and changes nothing else. -/
theorem perform_unnoted (limits : Limits) (steps : List Step) :
    perform limits (steps.filter fun step => !step.isNote) = (perform limits steps).unnoted := by
  induction steps generalizing limits with
  | nil => simp [perform, Outcome.unnoted]
  | cons step rest ih =>
    cases step with
    | note e =>
      rw [List.filter_cons_of_neg (by simp [Step.isNote]), ih, perform]
      rfl
    | write text =>
      rw [List.filter_cons_of_pos rfl, perform, perform]
      split
      · rw [ih]
        rfl
      · rfl
    | flush =>
      rw [List.filter_cons_of_pos rfl, perform, perform]
      split
      · rw [ih]
        rfl
      · rfl
    | read piece =>
      rw [List.filter_cons_of_pos rfl, perform, perform]
      split
      · exact ih _
      · rfl

end Session

theorem Level.rank_le_trace (l : Level) : l.rank ≤ Level.trace.rank := by
  cases l <;> decide

namespace Log

theorem deciding?_ceiling (target : String) (ceiling : Option Level) :
    deciding? target [⟨"", ceiling⟩] = some ⟨"", ceiling⟩ := by
  simp [deciding?, Directive.covers]

theorem byTarget_traces : byTarget.Traces := by
  have whole : directives "trace" = [⟨"", some .trace⟩] := by decide
  refine ⟨?_, by decide⟩
  intro e
  change (deciding? e.target (directives "trace")).any (·.admits e.level) = true
  rw [whole, deciding?_ceiling]
  simpa [Directive.admits] using Level.rank_le_trace e.level

end Log

namespace CommandLine

def silent (input : Input) : Session.Outcome :=
  Session.perform input.limits ((Session.script input.bytes).filter fun step => !step.isNote)

theorem silent_eq (input : Input) : silent input = (session input).unnoted :=
  Session.perform_unnoted _ _

theorem session_fault (input : Input) :
    (session input).fault = input.failure.map fun _ => .read := by
  unfold session Input.limits
  cases broken : input.failure with
  | none => exact congrArg Session.View.fault (Session.run_unlimited input.bytes)
  | some reason =>
    -- all bytes are granted, but the look at what is behind them is not
    have stopped := congrArg Session.View.fault
      (Session.run_read_limit input.bytes.length input.bytes)
    rw [if_pos (Nat.le_refl _)] at stopped
    exact stopped

theorem filterMap_line? (l : Logger) (events : List Event) :
    events.filterMap l.line? = (events.filter l.filter.admits).map l.line := by
  induction events with
  | nil => rfl
  | cons e rest ih =>
    by_cases shown : l.filter.admits e
    · simp [Logger.line?, shown, ← ih]
    · simp [Logger.line?, shown, ← ih]

section
variable (s : Log.Subscriber) {env full : Environment} {input : Input} {events : List Event}

theorem stdout_silent (env : Environment) (input : Input) :
    (runWith s env input).stdout =
      Text.utf8 (Greeting.ofEnvironment env).text ++ (silent input).output := by
  rw [silent_eq]
  rfl

theorem exit_silent (env : Environment) (input : Input) :
    (runWith s env input).exit = if (silent input).fault.isSome then 1 else 0 := by
  rw [silent_eq]
  rfl

theorem logLines_of_directives {text : String} (asked : directives? env = some text) :
    logLines s env events =
      (events.filter (s.filter text).admits).map (s.line (formatOf env)) := by
  simp only [logLines, logger?, asked, Option.map_some, filterMap_line?]

theorem logLines_sublist (env : Environment) (events : List Event) :
    (logLines s env events).Sublist (events.map (s.line (formatOf env))) := by
  cases asked : directives? env with
  | none => simp [logLines, logger?, asked]
  | some text =>
    rw [logLines_of_directives s asked]
    exact List.filter_sublist.map _

/-- What a run writes beside its output, the notices apart. Behind the log stands why the input
broke off, if it did. -/
def commentary (env : Environment) (input : Input) : List String :=
  logLines s env (session input).events ++ (input.failure.map failureLine).toList

theorem stderr_eq (env : Environment) (input : Input) :
    (runWith s env input).stderr = notices s env ++ commentary s env input := by
  unfold runWith commentary
  simp only [session_fault, List.append_assoc]
  cases input.failure <;> rfl

variable {s}

theorem directives?_trace (talkative : full "MONKEY_LOG" = some "trace") :
    directives? full = some "trace" := by
  rw [directives?, talkative]
  rfl

theorem stderr_trace (traces : s.Traces) (talkative : full "MONKEY_LOG" = some "trace") :
    (runWith s full input).stderr =
      (session input).events.map (s.line (formatOf full)) ++
        (input.failure.map failureLine).toList := by
  have asked := directives?_trace talkative
  have quiet : notices s full = [] := by simp only [notices, asked, traces.understood]
  have all : (session input).events.filter (s.filter "trace").admits = (session input).events :=
    List.filter_eq_self.mpr fun e _ => traces.admits e
  rw [stderr_eq, commentary, quiet, logLines_of_directives s asked, all, List.nil_append]

theorem commentary_sublist (traces : s.Traces) (talkative : full "MONKEY_LOG" = some "trace")
    (same : formatOf full = formatOf env) :
    (commentary s env input).Sublist (runWith s full input).stderr := by
  rw [stderr_trace traces talkative, same]
  exact (logLines_sublist s env (session input).events).append (List.Sublist.refl _)

end

/-- The log disturbs nothing. Runs that greet the same name have the same output and exit code,
whatever their settings say about logging; a run exits with a failure just if its input breaks off;
and what it logs is, in order, a selection from what it logs at the most talkative level, where each
event has its line. Only notices of directives that cannot be read come before that. -/
theorem logging_disturbs_nothing (s : Log.Subscriber) (traces : s.Traces) (env : Environment)
    (input : Input) :
    (∀ other : Environment,
      (Greeting.ofEnvironment other).name = (Greeting.ofEnvironment env).name →
      (runWith s other input).stdout = (runWith s env input).stdout ∧
        (runWith s other input).exit = (runWith s env input).exit) ∧
    ((runWith s env input).exit ≠ 0 ↔ input.failure.isSome) ∧
    (∀ full : Environment, full "MONKEY_LOG" = some "trace" → formatOf full = formatOf env →
      ∃ told, (runWith s env input).stderr = notices s env ++ told ∧
        told.Sublist (runWith s full input).stderr ∧
        (notices s env = [] →
          (runWith s env input).stderr.Sublist (runWith s full input).stderr) ∧
        (runWith s full input).stderr = (session input).events.map (s.line (formatOf env)) ++
          (input.failure.map failureLine).toList) := by
  refine ⟨?_, ?_, ?_⟩
  · intro other same
    constructor
    · rw [stdout_silent, stdout_silent, Greeting.text, Greeting.text, same]
    · rw [exit_silent, exit_silent]
  · rw [exit_silent, silent_eq, Session.Outcome.unnoted, session_fault]
    cases input.failure <;> simp
  · intro full talkative same
    have selected : (commentary s env input).Sublist (runWith s full input).stderr :=
      commentary_sublist traces talkative same
    refine ⟨commentary s env input, stderr_eq s env input, selected, ?_, ?_⟩
    · intro quiet
      rw [stderr_eq, quiet, List.nil_append]
      exact selected
    · rw [stderr_trace traces talkative, same]

def settings (pairs : List (String × String)) : Environment := fun key => pairs.lookup key

def brokenInput : Input := ⟨Byte.ofText "let x\nlet", some "Is a directory (os error 21)"⟩

theorem logging_disturbs_nothing_of_broken_input :
    (run (settings [("USERNAME", "ada"), ("MONKEY_LOG", "*,info")]) brokenInput).stdout =
      (run (settings [("USER", "ada"), ("RUST_LOG", "info")]) brokenInput).stdout ∧
    (run (settings [("USER", "ada"), ("RUST_LOG", "info")]) brokenInput).exit ≠ 0 ∧
    (run (settings [("USER", "ada"), ("RUST_LOG", "info")]) brokenInput).stderr.Sublist
      (run (settings [("MONKEY_LOG", "trace")]) brokenInput).stderr ∧
    ∃ told, (run (settings [("USERNAME", "ada"), ("MONKEY_LOG", "*,info")]) brokenInput).stderr =
        "ignoring `*`: invalid filter directive" :: told ∧
      told.Sublist (run (settings [("MONKEY_LOG", "trace")]) brokenInput).stderr := by
  have same :
      (Greeting.ofEnvironment (settings [("USERNAME", "ada"), ("MONKEY_LOG", "*,info")])).name =
        (Greeting.ofEnvironment (settings [("USER", "ada"), ("RUST_LOG", "info")])).name := by
    decide
  obtain ⟨output, failing, log⟩ := logging_disturbs_nothing Log.byTarget Log.byTarget_traces
    (settings [("USER", "ada"), ("RUST_LOG", "info")]) brokenInput
  obtain ⟨_, -, -, selected, -⟩ := log (settings [("MONKEY_LOG", "trace")]) rfl rfl
  obtain ⟨-, -, log⟩ := logging_disturbs_nothing Log.byTarget Log.byTarget_traces
    (settings [("USERNAME", "ada"), ("MONKEY_LOG", "*,info")]) brokenInput
  obtain ⟨told, whole, behind, -⟩ := log (settings [("MONKEY_LOG", "trace")]) rfl rfl
  exact ⟨(output _ same).1, failing.mpr rfl, selected (by decide), told, whole, behind⟩

/-- A notice is not among the lines of the most talkative run. -/
theorem refused_directive_breaks_in :
    Log.byTarget.Traces ∧
    formatOf (settings [("MONKEY_LOG", "*")]) = formatOf (settings [("MONKEY_LOG", "trace")]) ∧
    (run (settings [("MONKEY_LOG", "*")]) ⟨[], none⟩).stderr =
      ["ignoring `*`: invalid filter directive"] ∧
    ¬ (run (settings [("MONKEY_LOG", "*")]) ⟨[], none⟩).stderr.Sublist
      (run (settings [("MONKEY_LOG", "trace")]) ⟨[], none⟩).stderr := by
  have notice : (run (settings [("MONKEY_LOG", "*")]) ⟨[], none⟩).stderr =
      ["ignoring `*`: invalid filter directive"] := by
    decide +kernel
  refine ⟨Log.byTarget_traces, rfl, notice, ?_⟩
  decide +kernel

end CommandLine

end LetFrontEnd
