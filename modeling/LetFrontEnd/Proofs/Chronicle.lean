import LetFrontEnd.Proofs.Narration

/- The log of a whole parse as a chronicle. Every event that is no token has its place between two
   tokens, no two share one, and so an error is told of right behind the token it is about and a
   statement once the token that ends it has been told of. -/
namespace LetFrontEnd

def statementAt (ts : List Token) (i : Nat) : Binding :=
  ⟨tokenAt ts i, .ofToken (tokenAt ts (i + 1)), none⟩

section
variable {ts : List Token} {i j : Nat}

theorem recordAt_complete (complete : Completes ts i) :
    recordAt ts i = .statement (statementAt ts i) := by
  simp [recordAt, complete.1, complete.2, statementAt]

theorem recordAt_incomplete (incomplete : ¬ Completes ts i) :
    ∃ expected position, recordAt ts i = .fault expected position ∧
      (position = i + 1 ∨ position = i + 2 ∧ (tokenAt ts (i + 1)).kind = .ident) := by
  by_cases named : (tokenAt ts (i + 1)).kind = .ident
  · have unassigned : (tokenAt ts (i + 2)).kind ≠ .assign := fun same => incomplete ⟨named, same⟩
    exact ⟨.assign, i + 2, by simp [recordAt, named, unassigned], Or.inr ⟨rfl, named⟩⟩
  · exact ⟨.ident, i + 1, by simp [recordAt, named], Or.inl rfl⟩

theorem place_low (ts : List Token) (i : Nat) : i + 2 ≤ (markAt ts i).place := by
  by_cases complete : Completes ts i
  · have low := (value_ends ts (i + 3)).low
    simp only [markAt, recordAt_complete complete]
    omega
  · obtain ⟨expected, position, record, next | ⟨next, -⟩⟩ := recordAt_incomplete complete
    · simp only [markAt, record]
      omega
    · simp only [markAt, record]
      omega

theorem place_high (live : Live ts j) (alive : Live ts i) (before : i < j) :
    (markAt ts i).place < j + 2 := by
  by_cases complete : Completes ts i
  · have behind : valueEnd ts (i + 3) < j := by
      apply Nat.lt_of_not_le
      intro inside
      exact not_live_in_binding alive complete (value_ends ts (i + 3)) j before inside live
    simp only [markAt, recordAt_complete complete]
    omega
  · obtain ⟨expected, position, record, next | ⟨next, named⟩⟩ := recordAt_incomplete complete
    · simp only [markAt, record]
      omega
    · have apart := ne_of_named live named
      simp only [markAt, record]
      omega

end

theorem places_increase (ts : List Token) :
    (livePositions ts).Pairwise fun i j => (markAt ts i).place < (markAt ts j).place := by
  refine (livePositions_increase ts).imp_of_mem ?_
  intro i j first second before
  have high := place_high (live_of_mem second) (live_of_mem first) before
  exact Nat.lt_of_lt_of_le high (place_low ts j)

/-- How often the end is told of: once more when the last statement has run into it. -/
def endings (ts : List Token) : Nat :=
  if ∃ i ∈ (bindings ts (livePositions ts)).getLast?, valueEnd ts (i + 3) = ts.length then 3 else 2

theorem restingPlace_endings (ts : List Token) :
    restingPlace ts 0 (livePositions ts) + 2 = ts.length + endings ts := by
  unfold restingPlace endings
  cases last : (bindings ts (livePositions ts)).getLast? with
  | none => simp
  | some i =>
    have complete : Completes ts i := by
      have member := List.mem_of_getLast? last
      simpa using (List.mem_filter.mp member).2
    have inside : i + 2 < ts.length := lt_length_of_kind complete.2 (by decide)
    have within : valueEnd ts (i + 3) ≤ ts.length := valueEnd_le inside
    by_cases ran : valueEnd ts (i + 3) = ts.length
    · simp [ran]
    · simp [ran]
      omega

theorem range_tokenAt (ts : List Token) (n : Nat) :
    (List.range (ts.length + n)).map (tokenAt ts) = ts ++ List.replicate n Token.eof := by
  have inside : (List.range ts.length).map (tokenAt ts) = ts := by
    apply List.ext_getElem
    · simp
    · intro i low high
      simp [tokenAt, high]
  have beyond : (List.range n).map (fun i => tokenAt ts (ts.length + i)) =
      List.replicate n Token.eof := by
    simp [tokenAt_beyond, List.map_const']
  rw [List.range_add, List.map_append, inside, List.map_map]
  exact congrArg (ts ++ ·) beyond

/-- The log of a parse: its tokens run to the end, and its marks are those of the live words and, as
the last event, the count of what was found. -/
structure Chronicle (ts : List Token) (found : Findings) (log : List Event) : Prop where
  tokens : pulled log = ts ++ List.replicate (endings ts) Token.eof
  marks : marks 0 log = (livePositions ts).map (markAt ts) ++
    [⟨ts.length + endings ts, .parsedProgram found.statements.length found.errors.length⟩]
  last : log.getLast? = some (.parsedProgram found.statements.length found.errors.length)

theorem parse_chronicle (c : Cursor) :
    Chronicle c.drain.1 (findings c.drain.1) (Parser.ofCursor c).parseProgram.2.log := by
  have told := Parser.tellsFrom_of_clear (clear_start c.drain.1) _ _ (Parser.ofCursor_tells c)
  rw [← livePositions_eq, List.nil_append] at told
  obtain ⟨statements, errors⟩ := parse_findings c
  have log : (Parser.ofCursor c).parseProgram.2 =
      (Parser.ofCursor c).parseStatements.2.note (.parsedProgram
        (findings c.drain.1).statements.length (findings c.drain.1).errors.length) := by
    rw [← statements, ← errors]
    rfl
  obtain ⟨-, tokens, marks⟩ := Parser.tells_note (e := .parsedProgram
    (findings c.drain.1).statements.length (findings c.drain.1).errors.length) rfl told
  rw [restingPlace_endings] at tokens marks
  rw [log]
  constructor
  · rw [tokens, range_tokenAt]
  · exact marks
  · exact List.getLast?_concat

theorem tokenAt_padded (ts : List Token) (n i : Nat) :
    tokenAt (ts ++ List.replicate n Token.eof) i = tokenAt ts i := by
  by_cases inside : i < ts.length
  · simp [tokenAt, List.getElem?_append, inside]
  · rw [tokenAt_beyond (Nat.le_of_not_lt inside)]
    simp [tokenAt, List.getElem?_append, inside, List.getElem?_replicate]
    split <;> rfl

section
variable {ts : List Token} {found : Findings} {log front back early later : List Event}

theorem exists_token_of_lt {n : Nat} (told : n < (pulled front).length) :
    ∃ early t later, front = early ++ .token t :: later ∧ (pulled early).length = n := by
  induction front generalizing n with
  | nil => simp [pulled] at told
  | cons e rest ih =>
    cases shape : e.token? with
    | none =>
      obtain ⟨early, t, later, rfl, count⟩ := ih (n := n) (by simpa [pulled, shape] using told)
      exact ⟨e :: early, t, later, rfl, by simpa [pulled, shape] using count⟩
    | some t =>
      cases n with
      | zero => exact ⟨[], t, rest, by rw [Event.token?_eq_some shape]; rfl, rfl⟩
      | succ n =>
        obtain ⟨early, u, later, rfl, count⟩ := ih (n := n) (by simpa [pulled, shape] using told)
        exact ⟨e :: early, u, later, rfl, by simpa [pulled, shape] using count⟩

theorem told_token {t : Token} (chronicle : Chronicle ts found (early ++ .token t :: later)) :
    t = tokenAt ts (pulled early).length := by
  rw [← tokenAt_padded ts (endings ts), ← chronicle.tokens]
  simp [tokenAt, pulled, Event.token?]

theorem live_of_mark {e : Event} (chronicle : Chronicle ts found (front ++ e :: back))
    (other : e.token? = none) (inner : ∀ n m, e ≠ .parsedProgram n m) :
    ∃ before i after, livePositions ts = before ++ i :: after ∧
      marks 0 front = before.map (markAt ts) ∧ markAt ts i = ⟨(pulled front).length, e⟩ := by
  have whole := chronicle.marks
  rw [marks_split other] at whole
  have unlike : (⟨(pulled front).length, e⟩ : Mark) ≠
      ⟨ts.length + endings ts, .parsedProgram found.statements.length found.errors.length⟩ := by
    intro same
    exact inner _ _ (Mark.mk.inj same).2
  rcases List.append_eq_append_iff.mp whole with ⟨rest, live, tail⟩ | ⟨rest, -, tail⟩
  · cases rest with
    | nil => exact absurd (List.cons.inj tail).1 unlike
    | cons m rest =>
      obtain ⟨rfl, -⟩ := List.cons.inj tail
      obtain ⟨before, others, positions, passed, shape⟩ := List.map_eq_append_iff.mp live
      obtain ⟨i, after, rfl, mark, -⟩ := List.map_eq_cons_iff.mp shape
      exact ⟨before, i, after, positions, passed.symm, mark⟩
  · cases rest with
    | nil => exact absurd (List.cons.inj tail).1.symm unlike
    | cons m rest => simp at tail

theorem token_before_mark {e : Event} (chronicle : Chronicle ts found (front ++ e :: back))
    (other : e.token? = none) (inner : ∀ n m, e ≠ .parsedProgram n m) :
    ∃ early t, front = early ++ [.token t] := by
  obtain ⟨before, i, after, positions, passed, mark⟩ := live_of_mark chronicle other inner
  rcases List.eq_nil_or_concat' front with rfl | ⟨early, x, rfl⟩
  · have low := place_low ts i
    simp [mark, pulled] at low
  · cases shape : x.token? with
    | some t => exact ⟨early, t, by rw [Event.token?_eq_some shape]⟩
    | none =>
      -- an event between the last token and this one would share its place
      rw [marks_other 0 early shape] at passed
      obtain ⟨sooner, last, rfl, -, latest⟩ := List.map_eq_append_iff.mp passed.symm
      obtain ⟨j, rfl, same⟩ := List.map_eq_singleton_iff.mp latest
      have order := places_increase ts
      rw [positions, List.pairwise_append] at order
      have apart := order.2.2 j (by simp) i (by simp)
      simp [mark, same, pulled, shape] at apart

end

theorem markAt_error (ts : List Token) (i : Nat) :
    (markAt ts i).event.error? =
      (recordAt ts i).fault?.map fun fault => .about fault.1 (tokenAt ts fault.2) := by
  unfold markAt
  cases recordAt ts i <;> rfl

theorem markAt_name (ts : List Token) (i : Nat) :
    (markAt ts i).event.name? = (recordAt ts i).statement?.map fun s => s.name.value := by
  unfold markAt
  cases recordAt ts i <;> rfl

theorem marks_errors (ts : List Token) (live : List Nat) :
    (live.map (markAt ts)).filterMap (fun m => m.event.error?) =
      ((live.map (recordAt ts)).filterMap Record.fault?).map fun fault =>
        .about fault.1 (tokenAt ts fault.2) := by
  simp only [List.filterMap_map, List.map_filterMap, Function.comp_def, markAt_error]

theorem marks_names (ts : List Token) (live : List Nat) :
    (live.map (markAt ts)).filterMap (fun m => m.event.name?) =
      ((live.map (recordAt ts)).filterMap Record.statement?).map fun s => s.name.value := by
  simp only [List.filterMap_map, List.map_filterMap, Function.comp_def, markAt_name]

theorem bindings_statements (ts : List Token) (live : List Nat) :
    (live.map (recordAt ts)).filterMap Record.statement? =
      (bindings ts live).map (statementAt ts) := by
  induction live with
  | nil => rfl
  | cons i rest ih =>
    rw [List.map_cons, List.filterMap_cons]
    by_cases complete : Completes ts i
    · rw [recordAt_complete complete, bindings_complete complete]
      simp [Record.statement?, ih]
    · obtain ⟨expected, position, record, -⟩ := recordAt_incomplete complete
      rw [record, bindings_incomplete complete]
      simp [Record.statement?, ih]

theorem reports_about {e : ParseError} {expected : TokenKind} {t : Token}
    (reports : e.Reports expected t) : e = .about expected t := by
  obtain ⟨cause, token⟩ := e
  obtain ⟨same, ⟨illegal, kind⟩ | ⟨legal, kind⟩⟩ := reports
  · simp_all [ParseError.about, Token.is]
  · simp_all [ParseError.about, Token.is]

theorem errors_about {ts : List Token} {es : List ParseError} {fs : List (TokenKind × Nat)}
    (reported : List.Forall₂ (fun e fault => e.Reports fault.1 (tokenAt ts fault.2)) es fs) :
    es = fs.map fun fault => .about fault.1 (tokenAt ts fault.2) := by
  induction reported with
  | nil => rfl
  | cons first rest ih => rw [List.map_cons, ← reports_about first, ← ih]

/-- What a log tells, with the places of its events. -/
structure Narrates (ts : List Token) (program : Program) (es : List ParseError)
    (log : List Event) : Prop where
  tokens : pulled log = ts ++ List.replicate (endings ts) Token.eof
  errors : log.filterMap Event.error? = es
  -- the place of an error is the number of its token, and nothing stands between the two
  error_places : ∀ front e back, log = front ++ .parseError e :: back →
    ∃ early expected, front = early ++ [.token e.token] ∧
      (faults ts)[(front.filterMap Event.error?).length]? =
        some (expected, (pulled early).length)
  statements : program.statements = (bindings ts (livePositions ts)).map (statementAt ts)
  names : log.filterMap Event.name? = program.statements.map fun s => s.name.value
  -- the token that ends a statement is somewhere before the event, as one more was looked at
  name_places : ∀ front name back, log = front ++ .binding name :: back →
    ∃ i early later, front = early ++ .token (tokenAt ts (valueEnd ts (i + 3))) :: later ∧
      (pulled early).length = valueEnd ts (i + 3) ∧
      (bindings ts (livePositions ts))[(front.filterMap Event.name?).length]? = some i
  closing : ∃ front, log = front ++ [.parsedProgram program.size es.length] ∧
    ∀ n m, .parsedProgram n m ∉ front

section
variable {ts : List Token} {found : Findings} {log front back : List Event}

theorem error_place {e : ParseError}
    (chronicle : Chronicle ts found (front ++ .parseError e :: back)) :
    ∃ early expected, front = early ++ [.token e.token] ∧
      (faults ts)[(front.filterMap Event.error?).length]? =
        some (expected, (pulled early).length) := by
  obtain ⟨before, i, after, positions, passed, mark⟩ :=
    live_of_mark chronicle rfl (fun n m => by simp)
  have count : (front.filterMap Event.error?).length =
      ((before.map (recordAt ts)).filterMap Record.fault?).length := by
    rw [filterMap_marks Event.error? (fun t => rfl) 0, passed, marks_errors, List.length_map]
  obtain ⟨early, t, rfl⟩ := token_before_mark chronicle rfl (fun n m => by simp)
  have told : t = tokenAt ts (pulled early).length := by
    rw [List.append_assoc, List.singleton_append] at chronicle
    exact told_token chronicle
  cases record : recordAt ts i with
  | statement s => simp [markAt, record] at mark
  | fault expected position =>
    obtain ⟨place, same⟩ : position = (pulled early).length ∧
        ParseError.about expected (tokenAt ts position) = e := by
      simpa [markAt, record, pulled, Event.token?] using mark
    have token : e.token = tokenAt ts position := by
      rw [← same]
      exact (ParseError.about_reports expected _).1
    refine ⟨early, expected, ?_, ?_⟩
    · rw [token, place, told]
    · rw [count, ← place, faults, records, positions]
      simp [record, Record.fault?]

theorem name_place {name : String}
    (chronicle : Chronicle ts found (front ++ .binding name :: back)) :
    ∃ i early later, front = early ++ .token (tokenAt ts (valueEnd ts (i + 3))) :: later ∧
      (pulled early).length = valueEnd ts (i + 3) ∧
      (bindings ts (livePositions ts))[(front.filterMap Event.name?).length]? = some i := by
  obtain ⟨before, i, after, positions, passed, mark⟩ :=
    live_of_mark chronicle rfl (fun n m => by simp)
  have count : (front.filterMap Event.name?).length = (bindings ts before).length := by
    rw [filterMap_marks Event.name? (fun t => rfl) 0, passed, marks_names, List.length_map,
      bindings_statements, List.length_map]
  by_cases complete : Completes ts i
  · have place : valueEnd ts (i + 3) + 2 = (pulled front).length := by
      simpa [markAt, recordAt_complete complete] using congrArg Mark.place mark
    obtain ⟨early, t, later, rfl, number⟩ : ∃ early t later,
        front = early ++ .token t :: later ∧ (pulled early).length = valueEnd ts (i + 3) :=
      exists_token_of_lt (by omega)
    have told : t = tokenAt ts (valueEnd ts (i + 3)) := by
      rw [List.append_assoc, List.cons_append] at chronicle
      rw [← number]
      exact told_token chronicle
    refine ⟨i, early, later, by rw [told], number, ?_⟩
    rw [count, positions]
    simp [bindings, complete]
  · obtain ⟨expected, position, record, -⟩ := recordAt_incomplete complete
    simp [markAt, record] at mark

theorem closing_place (chronicle : Chronicle ts found log) :
    ∃ front, log = front ++ [.parsedProgram found.statements.length found.errors.length] ∧
      ∀ n m, .parsedProgram n m ∉ front := by
  obtain ⟨front, rfl⟩ := List.getLast?_eq_some_iff.mp chronicle.last
  refine ⟨front, rfl, ?_⟩
  intro n m member
  obtain ⟨early, later, rfl⟩ := List.append_of_mem member
  -- it would leave a mark before the last one, and those are marks of live words
  have whole := chronicle.marks
  rw [marks_other 0 _ rfl, marks_split rfl] at whole
  have inner := (List.append_inj' whole rfl).1
  have left : (⟨(pulled early).length, .parsedProgram n m⟩ : Mark) ∈
      (livePositions ts).map (markAt ts) := by
    rw [← inner]
    simp
  obtain ⟨i, -, mark⟩ := List.mem_map.mp left
  cases record : recordAt ts i with
  | statement s => simp [markAt, record] at mark
  | fault expected position => simp [markAt, record] at mark

end

/-- Shape of the trace of a parse. The tokens are told of in order and then the end, three times if
the last statement has no semicolon and twice otherwise. Each error stands right behind the token it
is about, and each statement behind the token that closes it. The last event and only it counts what
was found. -/
theorem parse_trace_shape (bs : List UInt8) :
    Narrates (tokens bs) (parse (.ofBytes bs)).1 (parse (.ofBytes bs)).2
      (Activity.parsing.trace bs) := by
  have chronicle : Chronicle (tokens bs) (findings (tokens bs)) (Activity.parsing.trace bs) :=
    parse_chronicle (.ofBytes bs)
  obtain ⟨statements, errors⟩ := parse_findings (.ofBytes bs)
  have whole : Booked (tokens bs) 0 := booked_of_clear (clear_start _)
  rw [Booked, ← livePositions_eq, List.drop_zero] at whole
  have made : (parse (.ofBytes bs)).1.statements =
      ((livePositions (tokens bs)).map (recordAt (tokens bs))).filterMap Record.statement? :=
    statements.trans whole.statements
  constructor
  case tokens => exact chronicle.tokens
  case errors =>
    rw [filterMap_marks Event.error? (fun t => rfl) 0, chronicle.marks, List.filterMap_append,
      marks_errors, ← errors_about whole.errors]
    exact (List.append_nil _).trans errors.symm
  case error_places =>
    intro front e back shape
    exact error_place (shape ▸ chronicle)
  case statements => rw [made, bindings_statements]
  case names =>
    rw [filterMap_marks Event.name? (fun t => rfl) 0, chronicle.marks, List.filterMap_append,
      marks_names, made]
    exact List.append_nil _
  case name_places =>
    intro front name back shape
    exact name_place (shape ▸ chronicle)
  case closing =>
    rw [Program.size, statements, errors]
    exact closing_place chronicle

end LetFrontEnd
