import LetFrontEnd.Proofs.Window

/- Ways of pulling. A token can be asked for with the end as a token or with the end as nothing, a
   few can be taken at once, and all that is left can be drained. Each way is so many single pulls
   and hands out the next tokens of the one stream; once the end was met nothing moves any more. -/
namespace LetFrontEnd.Cursor

theorem pulls_add (m n : Nat) (c : Cursor) : c.pulls (m + n) = (c.pulls m).pulls n := by
  induction m generalizing c with
  | zero => rw [Nat.zero_add, pulls]
  | succ m ih => rw [Nat.add_right_comm, pulls, ih, pulls]

theorem drain_pulls (n : Nat) (c : Cursor) : (c.pulls n).drain.1 = c.drain.1.drop n := by
  induction n generalizing c with
  | zero => rfl
  | succ n ih => rw [pulls, ih, ← drain_tail, List.drop_tail]

/-- The cursor hands out `ts` and comes to rest at `d`: what some number of pulls brings about. -/
def Yields (c : Cursor) (ts : List Token) (d : Cursor) : Prop :=
  ∃ n, d = c.pulls n ∧ ts = c.drain.1.take n

section
variable {c d e : Cursor} {ts us : List Token}

theorem yields_nothing (c : Cursor) : c.Yields [] c := ⟨0, rfl, List.take_zero.symm⟩

theorem yields_trans (first : c.Yields ts d) (second : d.Yields us e) : c.Yields (ts ++ us) e := by
  obtain ⟨m, rfl, rfl⟩ := first
  obtain ⟨n, rfl, rfl⟩ := second
  refine ⟨m + n, (c.pulls_add m n).symm, ?_⟩
  rw [drain_pulls, List.take_add]

theorem yields_input (yields : c.Yields ts d) : d.input = c.input := by
  obtain ⟨n, rfl, -⟩ := yields
  exact pulls_input n c

theorem yields_drain (yields : c.Yields ts d) : ts ++ d.drain.1 = c.drain.1 := by
  obtain ⟨n, rfl, rfl⟩ := yields
  rw [drain_pulls, List.take_append_drop]

end

theorem yields_token {c : Cursor} (more : c.next.1.kind ≠ .eof) :
    c.Yields [c.next.1] c.next.2 := by
  refine ⟨1, rfl, ?_⟩
  rw [drain_of_token more]
  rfl

theorem yields_end {c : Cursor} (last : c.next.1.kind = .eof) : c.Yields [] c.next.2 := by
  refine ⟨1, rfl, ?_⟩
  rw [drain_of_eof last]
  rfl

theorem next?_of_token {c : Cursor} (more : c.next.1.kind ≠ .eof) :
    c.next? = (some c.next.1, c.next.2) := by
  simp [next?, Token.is, more]

theorem next?_of_eof {c : Cursor} (last : c.next.1.kind = .eof) : c.next? = (none, c.next.2) := by
  simp [next?, Token.is, last]

theorem take_of_token {c : Cursor} (n : Nat) (more : c.next.1.kind ≠ .eof) :
    c.take (n + 1) = (c.next.1 :: (c.next.2.take n).1, (c.next.2.take n).2) := by
  simp [take, next?_of_token more]

theorem take_of_eof {c : Cursor} (n : Nat) (last : c.next.1.kind = .eof) :
    c.take (n + 1) = ([], c.next.2) := by
  simp [take, next?_of_eof last]

inductive Pull
  | next
  | next?
  | take (n : Nat)
  | drain
  deriving DecidableEq, Repr

/-- The tokens that a pull hands out, and the cursor after it. The end is reported, not handed
out. -/
def pull (c : Cursor) : Pull → List Token × Cursor
  | .next => (if c.next.1.is .eof then [] else [c.next.1], c.next.2)
  | .next? => (c.next?.1.toList, c.next?.2)
  | .take n => c.take n
  | .drain => c.drain

/-- Whether a pull meets the end. Fewer tokens than were asked for tell of it. -/
def meetsEnd (c : Cursor) : Pull → Bool
  | .next => c.next.1.is .eof
  | .next? => c.next?.1.isNone
  | .take n => (c.take n).1.length < n
  | .drain => true

theorem take_yields (n : Nat) (c : Cursor) : c.Yields (c.take n).1 (c.take n).2 := by
  induction n generalizing c with
  | zero => exact c.yields_nothing
  | succ n ih =>
    by_cases last : c.next.1.kind = .eof
    · rw [take_of_eof n last]
      exact yields_end last
    · rw [take_of_token n last]
      exact yields_trans (yields_token last) (ih c.next.2)

theorem drain_yields (c : Cursor) : c.Yields c.drain.1 c.drain.2 := by
  induction c using drainThroughEnd.induct with
  | case1 c last =>
    rw [drain_of_eof last]
    exact yields_end last
  | case2 c more _ _ _ ih =>
    rw [drain_of_token more]
    exact yields_trans (yields_token more) ih

theorem pull_yields (c : Cursor) (way : Pull) : c.Yields (c.pull way).1 (c.pull way).2 := by
  cases way with
  | next =>
    by_cases last : c.next.1.kind = .eof
    · simpa [pull, Token.is, last] using yields_end last
    · simpa [pull, Token.is, last] using yields_token last
  | next? =>
    by_cases last : c.next.1.kind = .eof
    · simpa [pull, next?_of_eof last] using yields_end last
    · simpa [pull, next?_of_token last] using yields_token last
  | take n => exact take_yields n c
  | drain => exact drain_yields c

theorem take_end {n : Nat} {c : Cursor} (short : (c.take n).1.length < n) :
    (c.take n).2.after = [] := by
  induction n generalizing c with
  | zero => omega
  | succ n ih =>
    by_cases last : c.next.1.kind = .eof
    · rw [take_of_eof n last]
      exact (next_eof last).2
    · rw [take_of_token n last] at short ⊢
      exact ih (by simpa using short)

theorem drain_end (c : Cursor) : c.drain.2.after = [] := by
  induction c using drainThroughEnd.induct with
  | case1 c last =>
    rw [drain_of_eof last]
    exact (next_eof last).2
  | case2 c more _ _ _ ih =>
    rw [drain_of_token more]
    exact ih

theorem after_of_meetsEnd {c : Cursor} {way : Pull} (met : c.meetsEnd way = true) :
    (c.pull way).2.after = [] := by
  cases way with
  | next => exact (next_eof (by simpa [meetsEnd, Token.is] using met)).2
  | next? =>
    have last : c.next.1.kind = .eof := by
      apply Classical.byContradiction
      intro more
      simp [meetsEnd, next?_of_token more] at met
    simpa [pull, next?_of_eof last] using (next_eof last).2
  | take n => exact take_end (by simpa [meetsEnd] using met)
  | drain => exact c.drain_end

/-- Every way of pulling reports the end and leaves the cursor where it is. -/
structure Exhausted (c : Cursor) : Prop where
  next : c.next = (Token.eof, c)
  next? : c.next? = (none, c)
  take : ∀ n, c.take n = ([], c)
  drain : c.drain = ([], c)

theorem exhausted_of_bare {c : Cursor} (bare : c.after = []) : c.Exhausted := by
  have next : c.next = (Token.eof, c) := by
    have stays : c.skipBlanks = c := by simp [skipBlanks, bare, pass]
    rw [Cursor.next, stays, read]
    simp [bare]
  have last : c.next.1.kind = .eof := by rw [next]; rfl
  refine ⟨next, ?_, ?_, ?_⟩
  · rw [next?_of_eof last, next]
  · intro n
    cases n with
    | zero => rfl
    | succ n => rw [take_of_eof n last, next]
  · rw [drain_of_eof last, next]

theorem pull_of_exhausted {c : Cursor} (exhausted : c.Exhausted) (way : Pull) :
    c.pull way = ([], c) := by
  cases way with
  | next =>
    simp only [pull, exhausted.next]
    rfl
  | next? =>
    simp only [pull, exhausted.next?]
    rfl
  | take n => exact exhausted.take n
  | drain => exact exhausted.drain

def pulled (c : Cursor) : List Pull → Cursor
  | [] => c
  | way :: rest => pulled (c.pull way).2 rest

theorem pulled_eq_pulls (c : Cursor) (ways : List Pull) : ∃ n, c.pulled ways = c.pulls n := by
  induction ways generalizing c with
  | nil => exact ⟨0, rfl⟩
  | cons way rest ih =>
    obtain ⟨m, first, -⟩ := c.pull_yields way
    obtain ⟨n, later⟩ := ih (c.pull way).2
    exact ⟨m + n, by rw [pulled, later, first, pulls_add]⟩

end LetFrontEnd.Cursor
