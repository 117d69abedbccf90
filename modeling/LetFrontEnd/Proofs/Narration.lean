import LetFrontEnd.Proofs.Accounting
import LetFrontEnd.Trace

/- What a parser tells while it reads. Its log runs through the tokens as they are pulled and
   through the end, and a record of a binding or of an error stands in it at a place of its own.
   That place is given by how many tokens were told before, and it follows from the tokens alone. -/
namespace LetFrontEnd

namespace Event

def token? : Event → Option Token
  | token t => some t
  | _ => none

def error? : Event → Option ParseError
  | parseError e => some e
  | _ => none

def name? : Event → Option String
  | binding name => some name
  | _ => none

theorem token?_eq_some {e : Event} {t : Token} (found : e.token? = some t) : e = .token t := by
  cases e <;> simp_all [token?]

end Event

def pulled (log : List Event) : List Token := log.filterMap Event.token?

@[simp] theorem pulled_append (log later : List Event) :
    pulled (log ++ later) = pulled log ++ pulled later :=
  List.filterMap_append

/-- An event that is no token, with the number of tokens told before it. -/
structure Mark where
  place : Nat
  event : Event
  deriving DecidableEq, Repr

/-- The other events of a log that starts when `n` tokens have been told. -/
def marks (n : Nat) : List Event → List Mark
  | [] => []
  | e :: rest => if e.token?.isSome then marks (n + 1) rest else ⟨n, e⟩ :: marks n rest

section
variable {n : Nat} {e : Event} {log front back : List Event}

theorem marks_append (n : Nat) (log later : List Event) :
    marks n (log ++ later) = marks n log ++ marks (n + (pulled log).length) later := by
  induction log generalizing n with
  | nil => rfl
  | cons e rest ih =>
    cases shape : e.token? with
    | none => simp [marks, pulled, shape, ih]
    | some t =>
      have count : n + 1 + (rest.filterMap Event.token?).length =
          n + ((rest.filterMap Event.token?).length + 1) := by omega
      simp [marks, pulled, shape, ih, count]

theorem marks_token (n : Nat) (log : List Event) (t : Token) :
    marks n (log ++ [.token t]) = marks n log := by
  simp [marks_append, marks, Event.token?]

theorem marks_other (n : Nat) (log : List Event) (other : e.token? = none) :
    marks n (log ++ [e]) = marks n log ++ [⟨n + (pulled log).length, e⟩] := by
  simp [marks_append, marks, other]

theorem marks_split (other : e.token? = none) :
    marks 0 (front ++ e :: back) =
      marks 0 front ++ ⟨(pulled front).length, e⟩ :: marks (pulled front).length back := by
  simp [marks_append, marks, other]

theorem filterMap_marks {α : Type} (select : Event → Option α)
    (passes : ∀ t, select (.token t) = none) (n : Nat) (log : List Event) :
    log.filterMap select = (marks n log).filterMap fun m => select m.event := by
  induction log generalizing n with
  | nil => rfl
  | cons e rest ih =>
    cases shape : e.token? with
    | none => simp [marks, shape, List.filterMap_cons, ← ih n]
    | some t =>
      rw [Event.token?_eq_some shape]
      simp [marks, Event.token?, passes, ← ih (n + 1)]

end

/-- The mark that the live word at `i` leaves. A fault is told of right behind its token, and a
statement once the token behind the one that ends its value has been looked at. -/
def markAt (ts : List Token) (i : Nat) : Mark :=
  match recordAt ts i with
  | .statement s => ⟨valueEnd ts (i + 3) + 2, .binding s.name.value⟩
  | .fault expected position =>
    ⟨position + 1, .parseError (.about expected (tokenAt ts position))⟩

def bindings (ts : List Token) (live : List Nat) : List Nat := live.filter fun i => Completes ts i

/-- Where the loop comes to rest when it starts at number `k` and the words `live` are still to
come: at the end, or one token further if the last binding has run into it. -/
def restingPlace (ts : List Token) (k : Nat) (live : List Nat) : Nat :=
  max ts.length (((bindings ts live).getLast?.map fun i => valueEnd ts (i + 3) + 1).getD k)

section
variable {ts : List Token} {i k : Nat} {live : List Nat}

theorem bindings_complete (complete : Completes ts i) :
    bindings ts (i :: live) = i :: bindings ts live := by
  simp [bindings, complete]

theorem bindings_incomplete (incomplete : ¬ Completes ts i) :
    bindings ts (i :: live) = bindings ts live := by
  simp [bindings, incomplete]

theorem restingPlace_incomplete (incomplete : ¬ Completes ts i) :
    restingPlace ts k (i :: live) = restingPlace ts k live := by
  rw [restingPlace, bindings_incomplete incomplete, restingPlace]

theorem restingPlace_complete (complete : Completes ts i) :
    restingPlace ts k (i :: live) = restingPlace ts (valueEnd ts (i + 3) + 1) live := by
  rw [restingPlace, bindings_complete complete, List.getLast?_cons, restingPlace]
  cases (bindings ts live).getLast? <;> simp

theorem restingPlace_before {m : Nat} (live : List Nat) (first : k ≤ ts.length)
    (second : m ≤ ts.length) : restingPlace ts k live = restingPlace ts m live := by
  unfold restingPlace
  cases (bindings ts live).getLast? with
  | none => simp [first, second]
  | some i => rfl

end

namespace Parser

/-- The parser stands at number `i`, has told of the tokens up to the one ahead, and of nothing else
but the marks. -/
structure Tells (p : Parser) (c : Cursor) (i : Nat) (ms : List Mark) : Prop where
  stands : p.StandsAt c i
  pulled : pulled p.log = (List.range (i + 2)).map (tokenAt c.drain.1)
  marks : marks 0 p.log = ms

section
variable {p : Parser} {c : Cursor} {i k : Nat} {ms : List Mark} {e : Event}

theorem ofCursor_tells (c : Cursor) : (ofCursor c).Tells c 0 [] := by
  have stands := standsAt_of_shows (i := 0) (ofCursor_shows c)
  refine ⟨stands, ?_, rfl⟩
  change [(ofCursor c).current, (ofCursor c).ahead] = _
  rw [stands.current, stands.ahead]
  rfl

theorem tells_shift (tells : p.Tells c i ms) : p.shift.Tells c (i + 1) ms := by
  have stands := shift_standsAt tells.stands
  have log : p.shift.log = p.log ++ [.token p.shift.ahead] := rfl
  refine ⟨stands, ?_, ?_⟩
  · rw [log, pulled_append, tells.pulled, stands.ahead, List.range_succ (n := i + 2),
      List.map_append]
    rfl
  · rw [log, marks_token, tells.marks]

theorem tells_note (other : e.token? = none) (tells : p.Tells c i ms) :
    (p.note e).Tells c i (ms ++ [⟨i + 2, e⟩]) := by
  obtain ⟨stands, tokens, others⟩ := tells
  refine ⟨note_standsAt e stands, ?_, ?_⟩
  · rw [note, pulled_append, tokens]
    simp [LetFrontEnd.pulled, other]
  · rw [note, marks_other 0 _ other, others, tokens]
    simp

theorem tells_complain (k : TokenKind) (tells : p.Tells c i ms) :
    (p.complain k).Tells c i
      (ms ++ [⟨i + 2, .parseError (.about k (tokenAt c.drain.1 (i + 1)))⟩]) := by
  obtain ⟨-, tokens, others⟩ := tells_note (e := .parseError (.about k p.ahead)) rfl tells
  rw [← tells.stands.ahead]
  exact ⟨complain_standsAt k tells.stands, tokens, others⟩

theorem drain_eof_iff (c : Cursor) (i : Nat) :
    (tokenAt c.drain.1 i).kind = .eof ↔ c.drain.1.length ≤ i := by
  constructor
  · intro last
    apply Nat.le_of_not_lt
    intro inside
    have here : tokenAt c.drain.1 i = c.drain.1[i] := by simp [tokenAt, inside]
    exact Cursor.drain_ne_eof (List.getElem_mem inside) (here ▸ last)
  · intro beyond
    rw [tokenAt_beyond beyond]
    rfl

theorem atStop_iff (stands : p.StandsAt c i) :
    p.atStop = true ↔ (tokenAt c.drain.1 i).kind = .semicolon ∨ c.drain.1.length ≤ i := by
  rw [atStop_iff_kind stands, drain_eof_iff]

theorem tells_skipValue (tells : p.Tells c i ms) :
    p.skipValue.Tells c (valueEnd c.drain.1 i) ms := by
  fun_induction skipValue p generalizing i with
  | case1 p stop => rwa [valueEnd_stop ((atStop_iff tells.stands).mp stop)]
  | case2 p going ih =>
    have more := going
    rw [atStop_iff tells.stands, not_or] at more
    rw [valueEnd_step (by omega) more.1]
    exact ih (tells_shift tells)

/- One turn of the loop, for each thing that can stand at its start. -/

theorem tells_other (tells : p.Tells c k ms) (other : (tokenAt c.drain.1 k).kind ≠ .letWord) :
    p.parseStatement.2.shift.Tells c (k + 1) ms := by
  rw [← tells.stands.current] at other
  rw [parseStatement_of_other (by simpa [Token.is] using other)]
  exact tells_shift tells

theorem tells_unnamed (tells : p.Tells c k ms) (word : (tokenAt c.drain.1 k).kind = .letWord)
    (unnamed : (tokenAt c.drain.1 (k + 1)).kind ≠ .ident) :
    p.parseStatement.2.shift.Tells c (k + 1) (ms ++ [markAt c.drain.1 k]) := by
  have mark : markAt c.drain.1 k =
      ⟨k + 2, .parseError (.about .ident (tokenAt c.drain.1 (k + 1)))⟩ := by
    simp [markAt, recordAt, unnamed]
  rw [← tells.stands.current] at word
  rw [← tells.stands.ahead] at unnamed
  rw [parseStatement_of_letWord (by simpa [Token.is] using word),
    parseBinding_of_unnamed (by simpa [Token.is] using unnamed), mark]
  exact tells_shift (tells_complain .ident tells)

theorem tells_unassigned (tells : p.Tells c k ms) (word : (tokenAt c.drain.1 k).kind = .letWord)
    (named : (tokenAt c.drain.1 (k + 1)).kind = .ident)
    (unassigned : (tokenAt c.drain.1 (k + 2)).kind ≠ .assign) :
    p.parseStatement.2.shift.Tells c (k + 2) (ms ++ [markAt c.drain.1 k]) := by
  have mark : markAt c.drain.1 k =
      ⟨k + 3, .parseError (.about .assign (tokenAt c.drain.1 (k + 2)))⟩ := by
    simp [markAt, recordAt, named, unassigned]
  have shifted := tells_shift tells
  rw [← tells.stands.current] at word
  rw [← tells.stands.ahead] at named
  rw [← shifted.stands.ahead] at unassigned
  rw [parseStatement_of_letWord (by simpa [Token.is] using word),
    parseBinding_of_unassigned (by simpa [Token.is] using named)
      (by simpa [Token.is] using unassigned), mark]
  exact tells_shift (tells_complain .assign shifted)

theorem tells_assigned (tells : p.Tells c k ms) (word : (tokenAt c.drain.1 k).kind = .letWord)
    (complete : Completes c.drain.1 k) :
    p.parseStatement.2.shift.Tells c (valueEnd c.drain.1 (k + 3) + 1)
      (ms ++ [markAt c.drain.1 k]) := by
  obtain ⟨named, assigned⟩ := complete
  have mark : markAt c.drain.1 k =
      ⟨valueEnd c.drain.1 (k + 3) + 2, .binding (tokenAt c.drain.1 (k + 1)).literal⟩ := by
    simp [markAt, recordAt, named, assigned, Identifier.ofToken]
  have inside : k + 2 < c.drain.1.length := lt_length_of_kind assigned (by decide)
  have shifted := tells_shift tells
  -- the value is passed from the equals sign on, which does not end it
  have passed := tells_skipValue (tells_shift shifted)
  rw [valueEnd_step inside (by simp [assigned])] at passed
  rw [← tells.stands.ahead] at mark
  rw [← tells.stands.current] at word
  rw [← tells.stands.ahead] at named
  rw [← shifted.stands.ahead] at assigned
  rw [parseStatement_of_letWord (by simpa [Token.is] using word),
    parseBinding_of_assigned (by simpa [Token.is] using named)
      (by simpa [Token.is] using assigned), mark]
  exact tells_shift (tells_note rfl passed)

end

def TellsFrom (c : Cursor) (k : Nat) : Prop :=
  ∀ (p : Parser) (ms : List Mark), p.Tells c k ms →
    p.parseStatements.2.Tells c (restingPlace c.drain.1 k (liveFrom c.drain.1 k))
      (ms ++ (liveFrom c.drain.1 k).map (markAt c.drain.1))

section
variable {c : Cursor} {k : Nat}

theorem tellsFrom_end (beyond : c.drain.1.length ≤ k) : TellsFrom c k := by
  intro p ms tells
  have last : p.current.is .eof = true := by
    rw [tells.stands.current, tokenAt_beyond beyond]
    rfl
  rw [parseStatements_of_eof last, liveFrom_beyond beyond]
  simpa [restingPlace, bindings, beyond] using tells

theorem not_eof_of_lt {p : Parser} (stands : p.StandsAt c k) (more : k < c.drain.1.length) :
    p.current.is .eof = false := by
  have inside : ¬ c.drain.1.length ≤ k := by omega
  rw [← drain_eof_iff, ← stands.current] at inside
  simpa [Token.is] using inside

theorem tellsFrom_other (more : k < c.drain.1.length)
    (other : (tokenAt c.drain.1 k).kind ≠ .letWord) (later : TellsFrom c (k + 1)) :
    TellsFrom c k := by
  intro p ms tells
  have dead : ¬ Live c.drain.1 k := not_live_of_kind rfl other
  rw [parseStatements_of_token (not_eof_of_lt tells.stands more), liveFrom_step, if_neg dead,
    restingPlace_before _ (Nat.le_of_lt more) more]
  exact later _ _ (tells_other tells other)

theorem tellsFrom_unnamed (live : Live c.drain.1 k)
    (unnamed : (tokenAt c.drain.1 (k + 1)).kind ≠ .ident) (later : TellsFrom c (k + 1)) :
    TellsFrom c k := by
  intro p ms tells
  have more := live_lt_length live
  have rest := later _ _ (tells_unnamed tells (live_kind live) unnamed)
  rw [parseStatements_of_token (not_eof_of_lt tells.stands more), liveFrom_of_live live,
    restingPlace_incomplete fun complete => unnamed complete.1,
    restingPlace_before _ (Nat.le_of_lt more) more]
  simpa using rest

theorem tellsFrom_unassigned (live : Live c.drain.1 k)
    (named : (tokenAt c.drain.1 (k + 1)).kind = .ident)
    (unassigned : (tokenAt c.drain.1 (k + 2)).kind ≠ .assign) (later : TellsFrom c (k + 2)) :
    TellsFrom c k := by
  intro p ms tells
  have more := live_lt_length live
  have name : k + 1 < c.drain.1.length := lt_length_of_kind named (by decide)
  have rest := later _ _ (tells_unassigned tells (live_kind live) named unassigned)
  rw [parseStatements_of_token (not_eof_of_lt tells.stands more), liveFrom_named live named,
    restingPlace_incomplete fun complete => unassigned complete.2,
    restingPlace_before _ (Nat.le_of_lt more) name]
  simpa using rest

theorem tellsFrom_assigned (live : Live c.drain.1 k) (complete : Completes c.drain.1 k)
    (later : TellsFrom c (valueEnd c.drain.1 (k + 3) + 1)) : TellsFrom c k := by
  intro p ms tells
  have rest := later _ _ (tells_assigned tells (live_kind live) complete)
  rw [parseStatements_of_token (not_eof_of_lt tells.stands (live_lt_length live)),
    liveFrom_binding live complete (value_ends _ _), restingPlace_complete complete]
  simpa using rest

theorem tellsFrom_of_clear (clear : Clear c.drain.1 k) : TellsFrom c k := by
  refine clear_induction ?_ ?_ ?_ ?_ ?_ clear
  · intro k beyond
    exact tellsFrom_end beyond
  · intro k more other later
    exact tellsFrom_other more other later
  · intro k live unnamed later
    exact tellsFrom_unnamed live unnamed later
  · intro k live named unassigned later
    exact tellsFrom_unassigned live named unassigned later
  · intro k live complete later
    exact tellsFrom_assigned live complete later

end

end Parser

end LetFrontEnd
