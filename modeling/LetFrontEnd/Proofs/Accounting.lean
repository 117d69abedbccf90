import LetFrontEnd.Proofs.Lookahead
import Mathlib.Data.List.Forall2

/- Keeping account of the words that open a binding. Such a word is live unless it stands in the
   value of a binding that was recorded before it. Each live word makes one record, a statement or
   an error at the first token that breaks the pattern, and nothing else makes any. -/
namespace LetFrontEnd

/-- Behind number `i` stand a name and an equals sign. -/
def Completes (ts : List Token) (i : Nat) : Prop :=
  (tokenAt ts (i + 1)).kind = .ident ∧ (tokenAt ts (i + 2)).kind = .assign

/-- Number `i` stands behind the equals sign of a binding at `j`, and no semicolon between them. -/
def InValue (ts : List Token) (j i : Nat) : Prop :=
  j + 2 < i ∧ ∀ m < i, j + 2 < m → (tokenAt ts m).kind ≠ .semicolon

/-- The word at `i` opens a binding and is in no value of a live binding before it. -/
def Live (ts : List Token) (i : Nat) : Prop :=
  (tokenAt ts i).kind = .letWord ∧ ∀ j < i, Live ts j → Completes ts j → ¬ InValue ts j i

instance (ts : List Token) (i : Nat) : Decidable (Completes ts i) :=
  inferInstanceAs (Decidable (_ ∧ _))

instance (ts : List Token) (j i : Nat) : Decidable (InValue ts j i) :=
  inferInstanceAs (Decidable (_ ∧ _))

instance decidableLive (ts : List Token) (i : Nat) : Decidable (Live ts i) :=
  have : Decidable (∀ j < i, Live ts j → Completes ts j → ¬ InValue ts j i) :=
    @Nat.decidableBallLT i (fun j _ => Live ts j → Completes ts j → ¬ InValue ts j i)
      fun j _ => have := decidableLive ts j; inferInstance
  decidable_of_iff
    ((tokenAt ts i).kind = .letWord ∧ ∀ j < i, Live ts j → Completes ts j → ¬ InValue ts j i)
    (by rw [Live])

/-- What becomes of a live word: a statement, or a fault at a token of another kind. -/
inductive Record
  | statement (s : Binding)
  | fault (expected : TokenKind) (position : Nat)
  deriving DecidableEq, Repr

def recordAt (ts : List Token) (i : Nat) : Record :=
  if (tokenAt ts (i + 1)).kind ≠ .ident then .fault .ident (i + 1)
  else if (tokenAt ts (i + 2)).kind ≠ .assign then .fault .assign (i + 2)
  else .statement ⟨tokenAt ts i, .ofToken (tokenAt ts (i + 1)), none⟩

def Record.statement? : Record → Option Binding
  | statement s => some s
  | fault _ _ => none

def Record.fault? : Record → Option (TokenKind × Nat)
  | statement _ => none
  | fault expected position => some (expected, position)

def liveFrom (ts : List Token) (k : Nat) : List Nat :=
  (List.range' k (ts.length - k)).filter fun i => Live ts i

def livePositions (ts : List Token) : List Nat :=
  (List.range ts.length).filter fun i => Live ts i

def records (ts : List Token) : List Record := (livePositions ts).map (recordAt ts)

def faults (ts : List Token) : List (TokenKind × Nat) := (records ts).filterMap Record.fault?

section
variable {ts : List Token} {i j k : Nat}

theorem tokenAt_beyond (beyond : ts.length ≤ i) : tokenAt ts i = Token.eof := by
  simp [tokenAt, beyond]

theorem lt_length_of_kind {kind : TokenKind} (here : (tokenAt ts i).kind = kind)
    (inner : kind ≠ .eof) : i < ts.length := by
  apply Nat.lt_of_not_le
  intro beyond
  rw [tokenAt_beyond beyond] at here
  exact inner here.symm

theorem live_kind (live : Live ts i) : (tokenAt ts i).kind = .letWord := by
  rw [Live] at live
  exact live.1

theorem live_lt_length (live : Live ts i) : i < ts.length :=
  lt_length_of_kind (live_kind live) (by decide)

theorem live_of_mem (member : i ∈ livePositions ts) : Live ts i := by
  simpa using (List.mem_filter.mp member).2

theorem livePositions_increase (ts : List Token) : (livePositions ts).Pairwise (· < ·) :=
  List.pairwise_lt_range.filter _

theorem livePositions_eq (ts : List Token) : livePositions ts = liveFrom ts 0 := by
  rw [livePositions, liveFrom, List.range_eq_range', Nat.sub_zero]

theorem liveFrom_beyond (beyond : ts.length ≤ k) : liveFrom ts k = [] := by
  simp [liveFrom, Nat.sub_eq_zero_of_le beyond]

theorem liveFrom_step (ts : List Token) (k : Nat) :
    liveFrom ts k = if Live ts k then k :: liveFrom ts (k + 1) else liveFrom ts (k + 1) := by
  by_cases inside : k < ts.length
  · have split : ts.length - k = (ts.length - (k + 1)) + 1 := by omega
    rw [liveFrom, split, List.range'_succ, List.filter_cons, liveFrom]
    simp
  · have dead : ¬ Live ts k := fun live => inside (live_lt_length live)
    rw [if_neg dead, liveFrom_beyond (by omega), liveFrom_beyond (by omega)]

theorem liveFrom_of_live (live : Live ts k) : liveFrom ts k = k :: liveFrom ts (k + 1) := by
  rw [liveFrom_step, if_pos live]

theorem liveFrom_skip (n : Nat) (dead : ∀ m, k ≤ m → m < k + n → ¬ Live ts m) :
    liveFrom ts k = liveFrom ts (k + n) := by
  induction n generalizing k with
  | zero => rfl
  | succ n ih =>
    have first : ¬ Live ts k := dead k (by omega) (by omega)
    rw [liveFrom_step, if_neg first, ih fun m low high => dead m (by omega) (by omega)]
    congr 1
    omega

end

/-- No live binding before number `k` has a value that reaches to `k` or beyond. -/
def Clear (ts : List Token) (k : Nat) : Prop :=
  ∀ j < k, Live ts j → Completes ts j → ∀ i, k ≤ i → i < ts.length → ¬ InValue ts j i

section
variable {ts : List Token} {k : Nat}

theorem clear_start (ts : List Token) : Clear ts 0 := by
  intro j before
  omega

theorem live_of_clear (clear : Clear ts k) (inside : k < ts.length)
    (word : (tokenAt ts k).kind = .letWord) : Live ts k := by
  rw [Live]
  refine ⟨word, ?_⟩
  intro j before live complete
  exact clear j before live complete k (Nat.le_refl k) inside

theorem clear_add (clear : Clear ts k) (n : Nat)
    (incomplete : ∀ m, k ≤ m → m < k + n → Live ts m → ¬ Completes ts m) : Clear ts (k + n) := by
  intro j before live complete i low high
  by_cases early : j < k
  · exact clear j early live complete i (by omega) high
  · exact absurd complete (incomplete j (by omega) before live)

theorem not_live_of_kind {i : Nat} {kind : TokenKind} (here : (tokenAt ts i).kind = kind)
    (other : kind ≠ .letWord) : ¬ Live ts i := by
  rw [Live, here]
  intro live
  exact other live.1

/-- The value that starts at `k` ends at `s`: at its first semicolon, or behind the last token. -/
structure EndsAt (ts : List Token) (k s : Nat) : Prop where
  low : k ≤ s
  inside : ∀ m, k ≤ m → m < s → (tokenAt ts m).kind ≠ .semicolon
  stop : (tokenAt ts s).kind = .semicolon ∨ ts.length ≤ s
  rest : afterSemicolon (ts.drop k) = ts.drop (s + 1)

theorem drop_tokenAt (more : k < ts.length) : ts.drop k = tokenAt ts k :: ts.drop (k + 1) := by
  have here : tokenAt ts k = ts[k] := by simp [tokenAt, more]
  rw [here, List.drop_eq_getElem_cons more]

def valueEnd (ts : List Token) (k : Nat) : Nat :=
  k + ((ts.drop k).takeWhile fun t => !t.is .semicolon).length

theorem valueEnd_stop (stop : (tokenAt ts k).kind = .semicolon ∨ ts.length ≤ k) :
    valueEnd ts k = k := by
  by_cases more : k < ts.length
  · have semicolon : (tokenAt ts k).kind = .semicolon := stop.resolve_right (by omega)
    simp [valueEnd, drop_tokenAt more, Token.is, semicolon]
  · simp [valueEnd, List.drop_of_length_le (Nat.le_of_not_lt more)]

theorem valueEnd_step (more : k < ts.length) (going : (tokenAt ts k).kind ≠ .semicolon) :
    valueEnd ts k = valueEnd ts (k + 1) := by
  simp [valueEnd, drop_tokenAt more, Token.is, going]
  omega

theorem valueEnd_le (within : k ≤ ts.length) : valueEnd ts k ≤ ts.length := by
  have taken := (List.takeWhile_sublist (l := ts.drop k) fun t => !t.is .semicolon).length_le
  rw [List.length_drop] at taken
  unfold valueEnd
  omega

theorem value_ends (ts : List Token) (k : Nat) : EndsAt ts k (valueEnd ts k) := by
  induction size : ts.length - k using Nat.strongRecOn generalizing k with
  | ind n ih =>
    by_cases more : k < ts.length
    case neg =>
      rw [valueEnd_stop (Or.inr (by omega))]
      refine ⟨Nat.le_refl k, by omega, Or.inr (by omega), ?_⟩
      rw [List.drop_of_length_le (by omega), List.drop_of_length_le (by omega)]
      rfl
    by_cases stop : (tokenAt ts k).kind = .semicolon
    · rw [valueEnd_stop (Or.inl stop)]
      refine ⟨Nat.le_refl k, by omega, Or.inl stop, ?_⟩
      simp [drop_tokenAt more, afterSemicolon, Token.is, stop]
    · have ends := ih _ (by omega) (k + 1) rfl
      rw [valueEnd_step more stop]
      refine ⟨Nat.le_of_succ_le ends.low, ?_, ends.stop, ?_⟩
      · intro m low before
        by_cases same : m = k
        · rw [same]
          exact stop
        · exact ends.inside m (by omega) before
      · rw [← ends.rest]
        simp [drop_tokenAt more, afterSemicolon, Token.is, stop]

theorem not_live_in_binding {s : Nat} (live : Live ts k) (complete : Completes ts k)
    (ends : EndsAt ts (k + 3) s) : ∀ m, k < m → m ≤ s → ¬ Live ts m := by
  intro m low high
  by_cases name : m = k + 1
  · exact not_live_of_kind (name ▸ complete.1) (by decide)
  by_cases equals : m = k + 2
  · exact not_live_of_kind (equals ▸ complete.2) (by decide)
  by_cases last : m = s
  · rcases ends.stop with stop | beyond
    · exact not_live_of_kind (last ▸ stop) (by decide)
    · intro alive
      have := live_lt_length alive
      omega
  -- what is left lies in the value
  rw [Live]
  intro alive
  refine alive.2 k low live complete ⟨by omega, ?_⟩
  intro l below above
  exact ends.inside l above (by omega)

theorem liveFrom_named (live : Live ts k) (named : (tokenAt ts (k + 1)).kind = .ident) :
    liveFrom ts k = k :: liveFrom ts (k + 2) := by
  have dead : ¬ Live ts (k + 1) := not_live_of_kind named (by decide)
  rw [liveFrom_of_live live, liveFrom_step ts (k + 1), if_neg dead]

theorem liveFrom_binding {s : Nat} (live : Live ts k) (complete : Completes ts k)
    (ends : EndsAt ts (k + 3) s) : liveFrom ts k = k :: liveFrom ts (s + 1) := by
  have low := ends.low
  have dead := not_live_in_binding live complete ends
  have skipped : liveFrom ts (k + 1) = liveFrom ts (k + 1 + (s - k)) :=
    liveFrom_skip (s - k) fun m low high => dead m (by omega) (by omega)
  rw [show k + 1 + (s - k) = s + 1 by omega] at skipped
  rw [liveFrom_of_live live, skipped]

theorem clear_behind_binding {s : Nat} (clear : Clear ts k) (live : Live ts k)
    (complete : Completes ts k) (ends : EndsAt ts (k + 3) s) : Clear ts (s + 1) := by
  have low := ends.low
  intro j before alive done i above more
  by_cases early : j < k
  · exact clear j early alive done i (by omega) more
  by_cases same : j = k
  · intro inValue
    rcases ends.stop with stop | beyond
    · exact inValue.2 s (by omega) (by omega) stop
    · omega
  · exact absurd alive (not_live_in_binding live complete ends j (by omega) (by omega))

end

/-- The findings are those of the records, in order: each statement as it stands, and for each fault
an error about the token at its number. -/
structure Recorded (ts : List Token) (f : Findings) (rs : List Record) : Prop where
  statements : f.statements = rs.filterMap Record.statement?
  errors : List.Forall₂ (fun e fault => e.Reports fault.1 (tokenAt ts fault.2)) f.errors
    (rs.filterMap Record.fault?)

section
variable {ts : List Token} {f : Findings} {rs : List Record}

theorem recorded_error {expected : TokenKind} {position : Nat} (recorded : Recorded ts f rs) :
    Recorded ts (f.withError (.about expected (tokenAt ts position)))
      (.fault expected position :: rs) := by
  refine ⟨?_, ?_⟩
  · exact recorded.statements
  · exact List.Forall₂.cons (ParseError.about_reports expected _) recorded.errors

theorem recorded_statement (s : Binding) (recorded : Recorded ts f rs) :
    Recorded ts (f.withStatement s) (.statement s :: rs) := by
  refine ⟨?_, recorded.errors⟩
  simp [Findings.withStatement, Record.statement?, recorded.statements]

theorem look_drop (ts : List Token) (k : Nat) : look (ts.drop k) = tokenAt ts k := by
  simp [look, tokenAt, List.headD_eq_head?_getD]

theorem look_drop_is (ts : List Token) (k : Nat) (kind : TokenKind) :
    (look (ts.drop k)).is kind = decide ((tokenAt ts k).kind = kind) := by
  rw [look_drop, Token.is]

end

def Booked (ts : List Token) (k : Nat) : Prop :=
  Recorded ts (findings (ts.drop k)) ((liveFrom ts k).map (recordAt ts))

section
variable {ts : List Token} {k : Nat}

theorem booked_end (beyond : ts.length ≤ k) : Booked ts k := by
  rw [Booked, List.drop_of_length_le beyond, liveFrom_beyond beyond, findings_nil]
  exact ⟨rfl, List.Forall₂.nil⟩

theorem booked_other (more : k < ts.length) (other : (tokenAt ts k).kind ≠ .letWord)
    (later : Booked ts (k + 1)) : Booked ts k := by
  have dead : ¬ Live ts k := not_live_of_kind rfl other
  rw [Booked, drop_tokenAt more, findings_of_other (by simpa [Token.is] using other),
    liveFrom_step, if_neg dead]
  exact later

theorem live_is_letWord (live : Live ts k) : (tokenAt ts k).is .letWord = true := by
  simpa [Token.is] using live_kind live

theorem booked_unnamed (live : Live ts k) (unnamed : (tokenAt ts (k + 1)).kind ≠ .ident)
    (later : Booked ts (k + 1)) : Booked ts k := by
  have record : recordAt ts k = .fault .ident (k + 1) := by simp [recordAt, unnamed]
  have next : (look (ts.drop (k + 1))).is .ident = false := by
    rw [look_drop_is, decide_eq_false unnamed]
  rw [Booked, drop_tokenAt (live_lt_length live), findings_of_unnamed (live_is_letWord live) next,
    look_drop, liveFrom_of_live live, List.map_cons, record]
  exact recorded_error later

theorem booked_unassigned (live : Live ts k) (named : (tokenAt ts (k + 1)).kind = .ident)
    (unassigned : (tokenAt ts (k + 2)).kind ≠ .assign) (later : Booked ts (k + 2)) :
    Booked ts k := by
  have record : recordAt ts k = .fault .assign (k + 2) := by simp [recordAt, named, unassigned]
  have next : (look (ts.drop (k + 1))).is .ident = true := by
    rw [look_drop_is, decide_eq_true named]
  have second : (look (ts.drop (k + 1)).tail).is .assign = false := by
    rw [List.tail_drop, look_drop_is, decide_eq_false unassigned]
  rw [Booked, drop_tokenAt (live_lt_length live),
    findings_of_unassigned (live_is_letWord live) next second, List.tail_drop, look_drop,
    liveFrom_named live named, List.map_cons, record]
  exact recorded_error later

theorem booked_assigned {s : Nat} (live : Live ts k) (complete : Completes ts k)
    (ends : EndsAt ts (k + 3) s) (later : Booked ts (s + 1)) : Booked ts k := by
  obtain ⟨named, assigned⟩ := complete
  have record : recordAt ts k = .statement ⟨tokenAt ts k, .ofToken (tokenAt ts (k + 1)), none⟩ := by
    simp [recordAt, named, assigned]
  have next : (look (ts.drop (k + 1))).is .ident = true := by
    rw [look_drop_is, decide_eq_true named]
  have second : (look (ts.drop (k + 1)).tail).is .assign = true := by
    rw [List.tail_drop, look_drop_is, decide_eq_true assigned]
  rw [Booked, drop_tokenAt (live_lt_length live),
    findings_of_assigned (live_is_letWord live) next second, look_drop, List.tail_drop,
    List.tail_drop, ends.rest, liveFrom_binding live ⟨named, assigned⟩ ends, List.map_cons, record]
  exact recorded_statement _ later

/-- From a clear place on, the cases are those of the recursion, and each leads to a clear place. -/
theorem clear_induction {holds : Nat → Prop}
    (ended : ∀ k, ts.length ≤ k → holds k)
    (other : ∀ k, k < ts.length → (tokenAt ts k).kind ≠ .letWord → holds (k + 1) → holds k)
    (unnamed : ∀ k, Live ts k → (tokenAt ts (k + 1)).kind ≠ .ident → holds (k + 1) → holds k)
    (unassigned : ∀ k, Live ts k → (tokenAt ts (k + 1)).kind = .ident →
      (tokenAt ts (k + 2)).kind ≠ .assign → holds (k + 2) → holds k)
    (assigned : ∀ k, Live ts k → Completes ts k → holds (valueEnd ts (k + 3) + 1) → holds k)
    (clear : Clear ts k) : holds k := by
  induction size : ts.length - k using Nat.strongRecOn generalizing k with
  | ind n ih =>
    by_cases more : k < ts.length
    case neg => exact ended k (by omega)
    by_cases word : (tokenAt ts k).kind = .letWord
    case neg =>
      refine other k more word (ih _ (by omega) (clear_add clear 1 ?_) rfl)
      intro m low high alive
      obtain rfl : m = k := by omega
      exact absurd alive (not_live_of_kind rfl word)
    have live := live_of_clear clear more word
    by_cases named : (tokenAt ts (k + 1)).kind = .ident
    case neg =>
      refine unnamed k live named (ih _ (by omega) (clear_add clear 1 ?_) rfl)
      intro m low high _ complete
      obtain rfl : m = k := by omega
      exact named complete.1
    by_cases equals : (tokenAt ts (k + 2)).kind = .assign
    case neg =>
      -- the name is no live word, so both tokens can be passed
      refine unassigned k live named equals (ih _ (by omega) (clear_add clear 2 ?_) rfl)
      intro m low high alive complete
      by_cases same : m = k
      · exact equals (same ▸ complete.2)
      · obtain rfl : m = k + 1 := by omega
        exact not_live_of_kind named (by decide) alive
    have ends := value_ends ts (k + 3)
    have low := ends.low
    exact assigned k live ⟨named, equals⟩
      (ih _ (by omega) (clear_behind_binding clear live ⟨named, equals⟩ ends) rfl)

theorem booked_of_clear (clear : Clear ts k) : Booked ts k := by
  refine clear_induction ?_ ?_ ?_ ?_ ?_ clear
  · intro k beyond
    exact booked_end beyond
  · intro k more other later
    exact booked_other more other later
  · intro k live unnamed later
    exact booked_unnamed live unnamed later
  · intro k live named unassigned later
    exact booked_unassigned live named unassigned later
  · intro k live complete later
    exact booked_assigned live complete (value_ends ts (k + 3)) later

end

theorem records_count (rs : List Record) :
    (rs.filterMap Record.statement?).length + (rs.filterMap Record.fault?).length = rs.length := by
  induction rs with
  | nil => rfl
  | cons r rest ih =>
    cases r with
    | statement s =>
      simp only [List.filterMap_cons, Record.statement?, Record.fault?, List.length_cons]
      omega
    | fault expected position =>
      simp only [List.filterMap_cons, Record.statement?, Record.fault?, List.length_cons]
      omega

theorem recordAt_fault {ts : List Token} {i : Nat} {fault : TokenKind × Nat}
    (found : (recordAt ts i).fault? = some fault) :
    fault.2 = i + 1 ∨ fault.2 = i + 2 ∧ (tokenAt ts (i + 1)).kind = .ident := by
  unfold recordAt at found
  split at found
  · obtain rfl := Option.some.inj found
    exact Or.inl rfl
  · rename_i named
    split at found
    · obtain rfl := Option.some.inj found
      exact Or.inr ⟨rfl, by simpa using named⟩
    · cases found

theorem ne_of_named {ts : List Token} {i j : Nat} (live : Live ts j)
    (named : (tokenAt ts (i + 1)).kind = .ident) : j ≠ i + 1 := by
  rintro rfl
  exact not_live_of_kind named (by decide) live

theorem fault_lt {ts : List Token} {i j : Nat} {first second : TokenKind × Nat} (before : i < j)
    (live : Live ts j) (left : (recordAt ts i).fault? = some first)
    (right : (recordAt ts j).fault? = some second) : first.2 < second.2 := by
  have late : j < second.2 := by
    rcases recordAt_fault right with next | ⟨next, -⟩ <;> omega
  rcases recordAt_fault left with next | ⟨next, named⟩
  · omega
  · -- the fault is behind a name, and a name is no live word
    have apart := ne_of_named live named
    omega

theorem faults_increase (ts : List Token) :
    (faults ts).Pairwise fun first second => first.2 < second.2 := by
  rw [faults, records, List.filterMap_map, List.pairwise_filterMap]
  refine (livePositions_increase ts).imp_of_mem ?_
  intro i j _ member before first left second right
  exact fault_lt before (live_of_mem member) left right

theorem fault_within {ts : List Token} {fault : TokenKind × Nat} (member : fault ∈ faults ts) :
    fault.2 ≤ ts.length := by
  obtain ⟨r, listed, found⟩ := List.mem_filterMap.mp member
  obtain ⟨i, alive, rfl⟩ := List.mem_map.mp listed
  have inside := live_lt_length (live_of_mem alive)
  rcases recordAt_fault found with next | ⟨next, named⟩
  · omega
  · have more : i + 1 < ts.length := lt_length_of_kind named (by decide)
    omega

/-- Each live word of an input makes one record, in order, and the program and the errors are those
of the records. So statements and errors together are as many as live words, and no two errors
are about the same token. -/
theorem live_words_recorded (bs : List UInt8) :
    (parse (.ofBytes bs)).1.statements = (records (tokens bs)).filterMap Record.statement? ∧
    List.Forall₂ (fun e fault => e.Reports fault.1 (tokenAt (tokens bs) fault.2))
      (parse (.ofBytes bs)).2 (faults (tokens bs)) ∧
    (parse (.ofBytes bs)).1.statements.length + (parse (.ofBytes bs)).2.length =
      (livePositions (tokens bs)).length ∧
    (faults (tokens bs)).Pairwise (fun first second => first.2 < second.2) ∧
    ∀ fault ∈ faults (tokens bs), fault.2 ≤ (tokens bs).length := by
  obtain ⟨statements, errors⟩ := parse_findings (.ofBytes bs)
  have whole : Booked (tokens bs) 0 := booked_of_clear (clear_start _)
  rw [Booked, ← livePositions_eq, List.drop_zero] at whole
  have made : (parse (.ofBytes bs)).1.statements =
      (records (tokens bs)).filterMap Record.statement? := statements.trans whole.statements
  have reported : List.Forall₂ (fun e fault => e.Reports fault.1 (tokenAt (tokens bs) fault.2))
      (parse (.ofBytes bs)).2 (faults (tokens bs)) := errors ▸ whole.errors
  refine ⟨made, reported, ?_, faults_increase _, fun fault => fault_within⟩
  have total := records_count (records (tokens bs))
  rw [made, reported.length_eq, faults, total, records, List.length_map]

end LetFrontEnd
