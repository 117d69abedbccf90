import LetFrontEnd.Proofs.Faults

/- Several limits at once. Each would stop a session somewhere on its own, and the session stops at
   the first of these places. Where two places show the same output, the order of the steps decides:
   a prompt is flushed before a line is read, and a line is read before anything else is written. -/
namespace LetFrontEnd.Session

def Limits.only (limits : Limits) : Fault → Limits
  | .read => ⟨limits.read, none, none⟩
  | .write => ⟨none, limits.write, none⟩
  | .flush => ⟨none, none, limits.flush⟩

def Fault.rank : Fault → Nat
  | .flush => 0
  | .read => 1
  | .write => 2

/-- Given how a run goes under each limit alone, `f` makes it fail, and no other does so sooner. -/
structure Prevails (alone : Fault → View) (f : Fault) : Prop where
  fails : (alone f).fault = some f
  soonest : ∀ g, (alone g).fault ≠ none →
    (alone f).output.length < (alone g).output.length ∨
    (alone f).output.length = (alone g).output.length ∧ f.rank ≤ g.rank

theorem Prevails.after {alone : Fault → View} {f : Fault} (first : Prevails alone f)
    (bytes : List UInt8) : Prevails (fun g => (alone g).after bytes) f where
  fails := first.fails
  soonest g failing := by
    have sooner := first.soonest g failing
    simp only [View.after, List.length_append]
    omega

section
variable {limits left : Limits} {step : Step} {rest : List Step} {f g : Fault}

theorem charge_only (paid : limits.charge step = some left) (f : Fault) :
    (limits.only f).charge step = some (left.only f) := by
  cases step with
  | note e => simp_all [Limits.charge]
  | write text =>
    obtain ⟨room, rfl⟩ := by simpa [Limits.charge] using paid
    cases f <;> simp [Limits.charge, Limits.only, room]
  | flush =>
    obtain ⟨room, rfl⟩ := by simpa [Limits.charge] using paid
    cases f <;> simp [Limits.charge, Limits.only, room]
  | read piece =>
    obtain ⟨room, rfl⟩ := by simpa [Limits.charge] using paid
    cases f <;> simp [Limits.charge, Limits.only, room]

theorem charge_only_cause (refused : limits.charge step = none) (cause : step.fault? = some f) :
    (limits.only f).charge step = none := by
  cases step with
  | note e => cases cause
  | write text =>
    cases cause
    have short : grants limits.write (Text.utf8 text).length = false := by
      simpa [Limits.charge] using refused
    simp [Limits.charge, Limits.only, short]
  | flush =>
    cases cause
    have short : grants limits.flush 1 = false := by simpa [Limits.charge] using refused
    simp [Limits.charge, Limits.only, short]
  | read piece =>
    cases cause
    have short : grants limits.read (demand piece) = false := by
      simpa [Limits.charge] using refused
    simp [Limits.charge, Limits.only, short]

theorem charge_only_other (other : step.fault? ≠ some g) :
    (limits.only g).charge step = some (limits.only g) := by
  cases step <;> cases g <;> simp_all [Limits.charge, Limits.only, Step.fault?]

end

def Heralded : List Step → Prop
  | [] => True
  | .note _ :: rest => Heralded rest
  | .write text :: _ => text ≠ ""
  | .flush :: _ => False
  | .read _ :: rest => Heralded rest

/-- From one read to the next flush something is written. -/
def Orderly : List Step → Prop
  | [] => True
  | .read _ :: rest => Heralded rest ∧ Orderly rest
  | _ :: rest => Orderly rest

theorem heralded_speech {steps rest : List Step} (speech : ∀ step ∈ steps, step.Speaks)
    (later : Heralded rest) : Heralded (steps ++ rest) := by
  induction steps with
  | nil => exact later
  | cons step steps ih =>
    obtain ⟨first, others⟩ := List.forall_mem_cons.mp speech
    cases step with
    | note e => exact ih others
    | write text => exact first
    | flush => exact first.elim
    | read piece => exact first.elim

theorem orderly_speech {steps rest : List Step} (speech : ∀ step ∈ steps, step.Speaks)
    (later : Orderly rest) : Orderly (steps ++ rest) := by
  induction steps with
  | nil => exact later
  | cons step steps ih =>
    obtain ⟨first, others⟩ := List.forall_mem_cons.mp speech
    cases step with
    | note e => exact ih others
    | write text => exact ih others
    | flush => exact first.elim
    | read piece => exact first.elim

theorem heralded_turns (ps : List (List UInt8)) : Heralded (turns ps) := by
  have some : promptText ≠ "" := by decide
  cases ps with
  | nil => exact some
  | cons piece ps => exact some

theorem orderly_turns (ps : List (List UInt8)) : Orderly (turns ps) := by
  induction ps with
  | nil => exact ⟨trivial, trivial⟩
  | cons piece ps ih =>
    have answered := reply_speaks (lineOf piece)
    rw [turns_cons]
    exact ⟨heralded_speech answered (heralded_turns ps), orderly_speech answered ih⟩

theorem heralded_output {limits : Limits} {steps : List Step} (heralded : Heralded steps)
    (failing : (perform (limits.only .flush) steps).view.fault ≠ none) :
    (perform (limits.only .flush) steps).view.output ≠ [] := by
  induction steps with
  | nil => simp at failing
  | cons step rest ih =>
    cases step with
    | flush => exact heralded.elim
    | write text =>
      rw [view_granted (charge_only_other (by simp [Step.fault?]))]
      simp [View.after, Step.bytes, Text.utf8_ne_nil heralded]
    | note e =>
      rw [view_granted (charge_only_other (by simp [Step.fault?]))] at failing ⊢
      exact ih heralded failing
    | read piece =>
      rw [view_granted (charge_only_other (by simp [Step.fault?]))] at failing ⊢
      exact ih heralded failing

section
variable {limits : Limits} {step : Step} {rest : List Step}

theorem take_length_lt_of_refused {text : String} (refused : limits.charge (.write text) = none) :
    ((Text.utf8 text).take (limits.write.getD 0)).length < (Text.utf8 text).length := by
  have short : ¬ grants limits.write (Text.utf8 text).length = true := by
    simpa [Limits.charge] using refused
  cases budget : limits.write with
  | none => simp [budget] at short
  | some w =>
    rw [budget, grants_some, decide_eq_true_iff] at short
    rw [Option.getD_some, List.length_take]
    omega

theorem prevails_of_refused (refused : limits.charge step = none)
    (orderly : Orderly (step :: rest)) :
    ∃ f, Prevails (fun g => (perform (limits.only g) (step :: rest)).view) f ∧
      (perform limits (step :: rest)).view = (perform (limits.only f) (step :: rest)).view := by
  obtain ⟨f, cause⟩ := Option.ne_none_iff_exists'.mp (fault_of_refused refused)
  have stopped : (perform (limits.only f) (step :: rest)).view =
      ⟨step.bytes.take (limits.write.getD 0), some f⟩ := by
    rw [view_refused (charge_only_cause refused cause), cause]
    cases step <;> cases cause <;> simp [Step.bytes, Limits.only]
  refine ⟨f, ⟨congrArg View.fault stopped, ?_⟩, ?_⟩
  · -- the other limits let this step pass, so they show at least what it writes
    intro g failing
    by_cases same : g = f
    · exact .inr ⟨by rw [same], by rw [same]⟩
    have other : step.fault? ≠ some g := by
      rw [cause]
      exact fun named => same (Option.some.inj named).symm
    rw [view_granted (charge_only_other other)] at failing ⊢
    rw [stopped]
    simp only [View.after, List.length_append] at failing ⊢
    cases step with
    | note e => cases cause
    | write text =>
      have less := take_length_lt_of_refused refused
      simp only [Step.bytes]
      omega
    | flush =>
      obtain rfl : f = .flush := (Option.some.inj cause).symm
      simp only [Step.bytes, List.take_nil, List.length_nil, Fault.rank]
      omega
    | read piece =>
      obtain rfl : f = .read := (Option.some.inj cause).symm
      cases g with
      | read => exact absurd rfl same
      | write =>
        simp only [Step.bytes, List.take_nil, List.length_nil, Fault.rank]
        omega
      | flush =>
        -- the one tie that would go the other way: a prompt stands before the next flush
        have more := List.length_pos_of_ne_nil (heralded_output orderly.1 failing)
        simp only [Step.bytes, List.take_nil, List.length_nil]
        omega
  · rw [stopped, view_refused refused, cause]

end

theorem orderly_tail {step : Step} {rest : List Step} (orderly : Orderly (step :: rest)) :
    Orderly rest := by
  cases step with
  | read piece => exact orderly.2
  | note e => exact orderly
  | write text => exact orderly
  | flush => exact orderly

/-- Either some limit makes the run fail, and the run goes as under that one alone, or none does,
and the run goes as without limits. -/
theorem view_of_limits (limits : Limits) {steps : List Step} (orderly : Orderly steps) :
    (∃ f, Prevails (fun g => (perform (limits.only g) steps).view) f ∧
      (perform limits steps).view = (perform (limits.only f) steps).view) ∨
    ((∀ g, (perform (limits.only g) steps).view.fault = none) ∧
      (perform limits steps).view = (perform .unlimited steps).view) := by
  induction steps generalizing limits with
  | nil => exact .inr ⟨fun g => by rw [view_nil], by rw [view_nil, view_nil]⟩
  | cons step rest ih =>
    cases paid : limits.charge step with
    | none => exact .inl (prevails_of_refused paid orderly)
    | some left =>
      have each : ∀ g, (perform (limits.only g) (step :: rest)).view =
          (perform (left.only g) rest).view.after step.bytes :=
        fun g => view_granted (charge_only paid g)
      simp only [each, view_granted paid, view_granted (charge_unlimited step)]
      rcases ih left (orderly_tail orderly) with ⟨f, first, same⟩ | ⟨clean, same⟩
      · exact .inl ⟨f, first.after step.bytes, by rw [same]⟩
      · exact .inr ⟨clean, by rw [same]⟩

def full (input : List UInt8) : List UInt8 := (run .unlimited input).output

/-- `cut` is `whole` up to the end of its prompt number `k`, counted from one. -/
structure EndsAtPrompt (whole : List UInt8) (k : Nat) (cut : List UInt8) : Prop where
  begins : cut <+: whole
  ends : promptBytes <:+ cut
  count : prompts cut = k

theorem run_eq_turns (limits : Limits) (input : List UInt8) :
    (run limits input).view = (perform limits (turns (pieces input))).view :=
  view_granted rfl

theorem full_eq_transcript (input : List UInt8) : full input = transcript (exchanges input) :=
  congrArg View.output (run_unlimited input)

theorem bytes_turns (input : List UInt8) :
    (turns (pieces input)).flatMap Step.bytes = full input := by
  have whole := congrArg View.output (run_eq_turns .unlimited input)
  rw [view_unlimited] at whole
  exact whole.symm

theorem run_prefix (limits : Limits) (input : List UInt8) :
    (run limits input).view.output <+: full input := by
  rw [run_eq_turns, ← bytes_turns]
  exact output_prefix _ _

theorem transcript_ends (es : List Exchange) : promptBytes <:+ transcript es := by
  rw [transcript, dialogue, List.flatMap_append, List.flatMap_singleton]
  exact List.suffix_append _ _

theorem run_flush_limit (n : Nat) (input : List UInt8) :
    (run ⟨none, none, some n⟩ input).view =
      ⟨transcript ((exchanges input).take n),
        if n < prompts (full input) then some .flush else none⟩ := by
  have count : prompts (full input) = (pieces input).length + 1 := by
    rw [full_eq_transcript, prompts_transcript (exchanges_legible input), exchanges_pieces,
      List.length_map]
  rw [run_eq_turns, view_flush_limit, List.map_take, ← exchanges_pieces, count]

theorem endsAtPrompt_take {n : Nat} {input : List UInt8} (more : n < prompts (full input)) :
    EndsAtPrompt (full input) (n + 1) (transcript ((exchanges input).take n)) where
  begins := by
    have cut := run_prefix ⟨none, none, some n⟩ input
    rwa [run_flush_limit] at cut
  ends := transcript_ends _
  count := by
    have legible : ∀ e ∈ (exchanges input).take n, e.Legible :=
      fun e member => exchanges_legible input e (List.mem_of_mem_take member)
    rw [full_eq_transcript, prompts_transcript (exchanges_legible input)] at more
    rw [prompts_transcript legible, List.length_take_of_le (by omega)]

theorem run_read_limit (n : Nat) (input : List UInt8) :
    (run ⟨some n, none, none⟩ input).view =
      if n ≤ input.length then ⟨full (wholeLines (input.take n)), some .read⟩
      else ⟨full input, none⟩ := by
  rw [run_eq_turns, view_read_limit (pieces_cuts input), ← exchanges_pieces, full_eq_transcript,
    full_eq_transcript]

/-- What a session does under limits, by what it does without. A writer that takes `n` bytes gets
the first `n`. With `n` flushes the output ends at prompt `n + 1`. With `n` bytes to read, the lines
that are complete within them are answered, and the session fails unless it can see the end. Under
several limits the one that fails with the shortest output decides, and where outputs are equally
long, flush goes before read and read before write. -/
theorem limited_session (input : List UInt8) :
    (∀ limits, (run limits input).output <+: full input) ∧
    (∀ n, (run ⟨none, some n, none⟩ input).view =
      ⟨(full input).take n, if n < (full input).length then some .write else none⟩) ∧
    (∀ n, if n < prompts (full input) then
        ∃ cut, (run ⟨none, none, some n⟩ input).view = ⟨cut, some .flush⟩ ∧
          EndsAtPrompt (full input) (n + 1) cut
      else (run ⟨none, none, some n⟩ input).view = ⟨full input, none⟩) ∧
    (∀ n, (run ⟨some n, none, none⟩ input).view =
      if n ≤ input.length then ⟨full (wholeLines (input.take n)), some .read⟩
      else ⟨full input, none⟩) ∧
    (∀ limits : Limits,
      (∃ f, Prevails (fun g => (run (limits.only g) input).view) f ∧
        (run limits input).view = (run (limits.only f) input).view) ∨
      ((∀ g, (run (limits.only g) input).view.fault = none) ∧
        (run limits input).view = ⟨full input, none⟩)) := by
  refine ⟨fun limits => run_prefix limits input, ?_, ?_, fun n => run_read_limit n input, ?_⟩
  · intro n
    rw [run_eq_turns, view_write_limit, bytes_turns]
  · intro n
    have stop := run_flush_limit n input
    by_cases more : n < prompts (full input)
    · rw [if_pos more] at stop ⊢
      exact ⟨_, stop, endsAtPrompt_take more⟩
    · have clean : (run ⟨none, none, some n⟩ input).view.fault = none := by
        rw [stop]
        exact if_neg more
      rw [if_neg more, run_eq_turns]
      rw [run_eq_turns] at clean
      rw [view_of_no_fault clean, view_unlimited, bytes_turns]
  · intro limits
    have decided := view_of_limits limits (orderly_turns (pieces input))
    rw [view_unlimited, bytes_turns] at decided
    simpa only [← run_eq_turns] using decided

end LetFrontEnd.Session
