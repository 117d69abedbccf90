import LetFrontEnd.Cursor.Pool
import LetFrontEnd.Proofs.Pulling
import Mathlib.Data.List.Forall2

/- A ledger beside a pool. It enters, from the answers alone, what each cursor has handed out since
   its input was bound and whether it has reported the end; a copy starts from the entries of its
   original. However the commands are mixed, what was handed out is the front of one stream. -/
namespace LetFrontEnd.Cursor

structure Account where
  input : List UInt8
  handed : List Token
  ended : Bool
  deriving DecidableEq, Repr

/-- The tokens of an answer. What a parser makes of a copy is none of them. -/
def Answer.handed : Answer → List Token
  | token t => if t.is .eof then [] else [t]
  | token? t => t.toList
  | tokens ts => ts
  | opened _ | dumped _ | parsed _ _ => []

def Command.reportsEnd : Command → Answer → Bool
  | next _, .token t => t.is .eof
  | next? _, .token? t => t.isNone
  | take _ n, .tokens ts => ts.length < n
  | drain _, .tokens _ => true
  | _, _ => false

def Account.hear (a : Account) (command : Command) (answer : Answer) : Account :=
  { a with
    handed := a.handed ++ answer.handed
    ended := a.ended || command.reportsEnd answer }

def enter (accounts : List Account) (command : Command) (answer : Answer) : List Account :=
  match command with
  | .start input => accounts ++ [⟨input, [], false⟩]
  | .copy i => accounts ++ accounts[i]?.toList
  | .next i | .next? i | .take i _ | .drain i | .dump i | .parse i =>
    accounts.modify i (·.hear command answer)

structure Ledger where
  pool : Pool
  accounts : List Account
  deriving DecidableEq, Repr

namespace Ledger

def opened : Ledger := ⟨[], []⟩

/-- A command that names no cursor of the pool leaves everything as it is. -/
def perform (l : Ledger) (command : Command) : Ledger :=
  match l.pool.perform command with
  | none => l
  | some outcome => ⟨outcome.pool, enter l.accounts command outcome.answer⟩

def performed (l : Ledger) (commands : List Command) : Ledger := commands.foldl perform l

end Ledger

def Command.pull? : Command → Option (Nat × Pull)
  | next i => some (i, .next)
  | next? i => some (i, .next?)
  | take i n => some (i, .take n)
  | drain i => some (i, .drain)
  | start _ | copy _ | dump _ | parse _ => none

def Command.pulling (i : Nat) : Pull → Command
  | .next => next i
  | .next? => next? i
  | .take n => take i n
  | .drain => drain i

theorem Command.eq_pulling {command : Command} {i : Nat} {way : Pull}
    (pulls : command.pull? = some (i, way)) : command = pulling i way := by
  cases command <;> simp only [pull?, Option.some.injEq, Prod.mk.injEq, reduceCtorEq] at pulls
  all_goals
    obtain ⟨rfl, rfl⟩ := pulls
    rfl

theorem perform_pull {pool : Pool} {command : Command} {i : Nat} {way : Pull} {c : Cursor}
    (pulls : command.pull? = some (i, way)) (found : pool[i]? = some c) :
    ∃ answer, pool.perform command = some (pool.put i (c.pull way).2 answer) ∧
      answer.handed = (c.pull way).1 ∧ command.reportsEnd answer = c.meetsEnd way := by
  obtain rfl := Command.eq_pulling pulls
  cases way with
  | next =>
    refine ⟨.token c.next.1, ?_, rfl, rfl⟩
    simp [Pool.perform, Command.pulling, found, pull]
  | next? =>
    refine ⟨.token? c.next?.1, ?_, rfl, rfl⟩
    simp [Pool.perform, Command.pulling, found, pull]
  | take n =>
    refine ⟨.tokens (c.take n).1, ?_, rfl, rfl⟩
    simp [Pool.perform, Command.pulling, found, pull]
  | drain =>
    refine ⟨.tokens c.drain.1, ?_, rfl, rfl⟩
    simp [Pool.perform, Command.pulling, found, pull]

def Command.cursor? : Command → Option Nat
  | start _ => none
  | copy i | next i | next? i | take i _ | drain i | dump i | parse i => some i

theorem Command.cursor?_pulling (i : Nat) (way : Pull) : (pulling i way).cursor? = some i := by
  cases way <;> rfl

/-- A command has an outcome just if the cursor that it names is there. -/
theorem perform_isSome_iff {pool : Pool} {command : Command} :
    (pool.perform command).isSome ↔ ∀ i ∈ command.cursor?, i < pool.length := by
  cases command <;> simp [Pool.perform, Command.cursor?]

theorem perform_absent {pool : Pool} {command : Command} {i : Nat}
    (names : command.cursor? = some i) (missing : pool[i]? = none) :
    pool.perform command = none := by
  have beyond : pool.length ≤ i := List.getElem?_eq_none_iff.mp missing
  rw [← Option.not_isSome_iff_eq_none, perform_isSome_iff]
  intro present
  exact absurd (present i names) (Nat.not_lt.mpr beyond)

namespace Ledger

theorem enter_pull {accounts : List Account} {command : Command} {i : Nat} {way : Pull}
    (pulls : command.pull? = some (i, way)) (answer : Answer) :
    enter accounts command answer = accounts.modify i (·.hear command answer) := by
  obtain rfl := Command.eq_pulling pulls
  cases way <;> rfl

theorem perform_of_none {l : Ledger} {command : Command} (refused : l.pool.perform command = none) :
    l.perform command = l := by
  simp [perform, refused]

theorem perform_of_pull {l : Ledger} {command : Command} {i : Nat} {way : Pull} {c : Cursor}
    (pulls : command.pull? = some (i, way)) (found : l.pool[i]? = some c) :
    l.perform command = ⟨l.pool.set i (c.pull way).2, l.accounts.modify i fun a =>
      { a with handed := a.handed ++ (c.pull way).1, ended := a.ended || c.meetsEnd way }⟩ := by
  obtain ⟨answer, outcome, handed, ends⟩ := perform_pull pulls found
  simp only [perform, outcome, Pool.put, enter_pull pulls, Account.hear, handed, ends]

theorem perform_of_look {l : Ledger} {command : Command} {i : Nat}
    (names : command.cursor? = some i)
    (looks : ∀ c, l.pool[i]? = some c → ∃ answer,
      l.pool.perform command = some (l.pool.put i c answer) ∧ answer.handed = [] ∧
        command.reportsEnd answer = false)
    (entry : ∀ answer, enter l.accounts command answer = l.accounts.modify i (·.hear command answer)) :
    l.perform command = l := by
  cases found : l.pool[i]? with
  | none => exact perform_of_none (perform_absent names found)
  | some c =>
    obtain ⟨answer, outcome, silent, going⟩ := looks c found
    have kept : l.pool.set i c = l.pool := by
      obtain ⟨inside, rfl⟩ := List.getElem?_eq_some_iff.mp found
      exact List.set_getElem_self inside
    have unchanged : (fun a : Account => a.hear command answer) = id := by
      funext a
      simp [Account.hear, silent, going]
    simp only [perform, outcome, entry, unchanged, List.modify_id, Pool.put, kept]

/-- All that a command can do: nothing to the ledger, open a cursor on an input, open a copy, or
pull. -/
inductive Step (l : Ledger) : Command → Ledger → Prop
  | idle {command : Command} (still : command.pull? = none) : Step l command l
  | absent {command : Command} {i : Nat} {way : Pull} (pulls : command.pull? = some (i, way))
      (missing : l.pool[i]? = none) : Step l command l
  | start (input : List UInt8) :
      Step l (.start input) ⟨l.pool ++ [ofBytes input], l.accounts ++ [⟨input, [], false⟩]⟩
  | copy {i : Nat} {c : Cursor} (found : l.pool[i]? = some c) :
      Step l (.copy i) ⟨l.pool ++ [c], l.accounts ++ l.accounts[i]?.toList⟩
  | pull {command : Command} {i : Nat} {way : Pull} {c : Cursor}
      (pulls : command.pull? = some (i, way)) (found : l.pool[i]? = some c) :
      Step l command ⟨l.pool.set i (c.pull way).2, l.accounts.modify i fun a =>
        { a with handed := a.handed ++ (c.pull way).1, ended := a.ended || c.meetsEnd way }⟩

theorem perform_step (l : Ledger) (command : Command) : Step l command (l.perform command) := by
  cases pulls : command.pull? with
  | some target =>
    obtain ⟨i, way⟩ := target
    cases found : l.pool[i]? with
    | none =>
      have names : command.cursor? = some i :=
        Command.eq_pulling pulls ▸ Command.cursor?_pulling i way
      rw [perform_of_none (perform_absent names found)]
      exact Step.absent pulls found
    | some c =>
      rw [perform_of_pull pulls found]
      exact Step.pull pulls found
  | none =>
    cases command <;> simp only [Command.pull?, reduceCtorEq] at pulls
    case start input => exact Step.start input
    case copy i =>
      cases found : l.pool[i]? with
      | none =>
        rw [perform_of_none (perform_absent rfl found)]
        exact Step.idle rfl
      | some c =>
        have opened := Step.copy (l := l) found
        simpa only [perform, Pool.perform, found, Option.map_some, Pool.add, enter] using opened
    case dump i =>
      have same : l.perform (.dump i) = l := by
        refine perform_of_look rfl ?_ fun _ => rfl
        intro c found
        exact ⟨.dumped c.dump, by simp [Pool.perform, found], rfl, rfl⟩
      rw [same]
      exact Step.idle rfl
    case parse i =>
      have same : l.perform (.parse i) = l := by
        refine perform_of_look rfl ?_ fun _ => rfl
        intro c found
        exact ⟨.parsed (LetFrontEnd.parse c).1 (LetFrontEnd.parse c).2,
          by simp [Pool.perform, found], rfl, rfl⟩
      rw [same]
      exact Step.idle rfl

/-- What an account says of its cursor: the cursor has been pulled so far from the start of the
input, and it is bare once the end was reported. -/
structure Vouches (a : Account) (c : Cursor) : Prop where
  yields : (ofBytes a.input).Yields a.handed c
  bare : a.ended = true → c.after = []

def Balanced (l : Ledger) : Prop := List.Forall₂ Vouches l.accounts l.pool

theorem vouches_pull {a : Account} {c : Cursor} (vouches : Vouches a c) (way : Pull) :
    Vouches { a with handed := a.handed ++ (c.pull way).1, ended := a.ended || c.meetsEnd way }
      (c.pull way).2 := by
  refine ⟨yields_trans vouches.yields (c.pull_yields way), ?_⟩
  intro ended
  rcases (Bool.or_eq_true _ _).mp ended with before | now
  · have bare := vouches.bare before
    rw [pull_of_exhausted (exhausted_of_bare bare) way]
    exact bare
  · exact after_of_meetsEnd now

theorem forall₂_change {α β : Type} {R : α → β → Prop} {as : List α} {bs : List β}
    (all : List.Forall₂ R as bs) {i : Nat} {b y : β} {f : α → α} (found : bs[i]? = some b)
    (changed : ∀ a, R a b → R (f a) y) : List.Forall₂ R (as.modify i f) (bs.set i y) := by
  induction all generalizing i with
  | nil => simp at found
  | cons here rest ih =>
    cases i with
    | zero =>
      obtain rfl := Option.some.inj found
      exact List.Forall₂.cons (changed _ here) rest
    | succ i => exact List.Forall₂.cons here (ih found)

theorem forall₂_found {α β : Type} {R : α → β → Prop} {as : List α} {bs : List β}
    (all : List.Forall₂ R as bs) {i : Nat} {b : β} (found : bs[i]? = some b) :
    ∃ a, as[i]? = some a ∧ R a b := by
  induction all generalizing i with
  | nil => simp at found
  | cons here rest ih =>
    cases i with
    | zero =>
      obtain rfl := Option.some.inj found
      exact ⟨_, rfl, here⟩
    | succ i => exact ih found

theorem step_balanced {l m : Ledger} {command : Command} (step : Step l command m)
    (balanced : l.Balanced) : m.Balanced := by
  cases step with
  | idle still => exact balanced
  | absent pulls missing => exact balanced
  | start input =>
    have fresh : Vouches ⟨input, [], false⟩ (ofBytes input) := ⟨yields_nothing _, by simp⟩
    exact List.rel_append balanced (List.Forall₂.cons fresh List.Forall₂.nil)
  | copy found =>
    obtain ⟨a, account, vouches⟩ := forall₂_found balanced found
    rw [account]
    exact List.rel_append balanced (List.Forall₂.cons vouches List.Forall₂.nil)
  | pull pulls found =>
    exact forall₂_change balanced found fun a vouches => vouches_pull vouches _

theorem performed_balanced {l : Ledger} (commands : List Command) (balanced : l.Balanced) :
    (l.performed commands).Balanced := by
  induction commands generalizing l with
  | nil => exact balanced
  | cons command rest ih => exact ih (step_balanced (l.perform_step command) balanced)

def moves? (command : Command) : Option Nat := command.pull?.map Prod.fst

theorem step_elsewhere {l m : Ledger} {command : Command} (step : Step l command m) {j : Nat}
    (inside : j < l.pool.length) (aligned : l.accounts.length = l.pool.length)
    (elsewhere : moves? command ≠ some j) :
    m.pool[j]? = l.pool[j]? ∧ m.accounts[j]? = l.accounts[j]? := by
  cases step with
  | idle still => exact ⟨rfl, rfl⟩
  | absent pulls missing => exact ⟨rfl, rfl⟩
  | start input =>
    exact ⟨List.getElem?_append_left inside, List.getElem?_append_left (by omega)⟩
  | copy found =>
    exact ⟨List.getElem?_append_left inside, List.getElem?_append_left (by omega)⟩
  | @pull _ i way c pulls found =>
    have apart : i ≠ j := by
      intro same
      exact elsewhere (by simp [moves?, pulls, same])
    exact ⟨List.getElem?_set_ne apart, List.getElem?_modify_ne _ _ apart⟩

theorem step_ended {l m : Ledger} {command : Command} (step : Step l command m)
    (balanced : l.Balanced) {i : Nat} {a : Account} (account : l.accounts[i]? = some a)
    (ended : a.ended = true) : m.accounts[i]? = some a ∧ m.pool[i]? = l.pool[i]? := by
  obtain ⟨c, here, vouches⟩ := forall₂_found balanced.flip account
  have inside : i < l.pool.length := (List.getElem?_eq_some_iff.mp here).1
  by_cases moved : moves? command = some i
  · cases step with
    | idle still => exact ⟨account, rfl⟩
    | absent pulls missing => exact ⟨account, rfl⟩
    | start input => cases moved
    | copy found => cases moved
    | @pull _ j way d pulls found =>
      obtain rfl : j = i := by simpa [moves?, pulls] using moved
      obtain rfl : c = d := Option.some.inj (here.symm.trans found)
      have still := pull_of_exhausted (exhausted_of_bare (vouches.bare ended)) way
      have unchanged : { a with handed := a.handed ++ [], ended := a.ended || c.meetsEnd way } = a := by
        obtain ⟨input, handed, flag⟩ := a
        obtain rfl : flag = true := ended
        simp
      refine ⟨?_, ?_⟩
      · simp only [still, List.getElem?_modify_eq, account, Option.map_eq_map, Option.map_some,
          unchanged]
      · rw [still, List.getElem?_set_self inside, here]
  · obtain ⟨pool, accounts⟩ := step_elsewhere step inside balanced.length_eq moved
    exact ⟨accounts.trans account, pool⟩

theorem performed_ended {l : Ledger} (balanced : l.Balanced) (commands : List Command) {i : Nat}
    {a : Account} (account : l.accounts[i]? = some a) (ended : a.ended = true) :
    (l.performed commands).accounts[i]? = some a ∧ (l.performed commands).pool[i]? = l.pool[i]? := by
  induction commands generalizing l with
  | nil => exact ⟨account, rfl⟩
  | cons command rest ih =>
    have step := l.perform_step command
    obtain ⟨accounts, pool⟩ := step_ended step balanced account ended
    obtain ⟨later, there⟩ := ih (step_balanced step balanced) accounts
    exact ⟨later, there.trans pool⟩

end Ledger

/-- However cursors of a pool are opened, copied, pulled from and looked at, each has handed out the
front of the one stream of its input and has the rest of it ahead, and no cursor moves but the
one that is pulled. Draining hands out all that was left. A cursor that has reported the end
reports it again at every pull and stays. The stream read to its end has one end, at its end. -/
theorem one_stream_however_pulled (commands : List Command) :
    let l := Ledger.opened.performed commands
    List.Forall₂ (fun a c => c.input = a.input ∧ a.handed <+: tokens a.input ∧
      a.handed ++ c.drain.1 = tokens a.input ∧ (a.ended = true → c.Exhausted))
      l.accounts l.pool ∧
    (∀ i a, l.accounts[i]? = some a →
      (l.perform (.drain i)).accounts[i]? = some ⟨a.input, tokens a.input, true⟩) ∧
    (∀ command j, j < l.pool.length → Ledger.moves? command ≠ some j →
      (l.perform command).pool[j]? = l.pool[j]? ∧
        (l.perform command).accounts[j]? = l.accounts[j]?) ∧
    (∀ more (i : Nat) (a : Account), l.accounts[i]? = some a → a.ended = true →
      (l.performed more).accounts[i]? = some a ∧ (l.performed more).pool[i]? = l.pool[i]?) ∧
    ∀ bs, tokensThroughEnd bs = tokens bs ++ [Token.eof] ∧ ∀ t ∈ tokens bs, t.kind ≠ .eof := by
  intro l
  have balanced : l.Balanced := Ledger.performed_balanced commands List.Forall₂.nil
  refine ⟨?_, ?_, ?_, ?_, ?_⟩
  · refine List.Forall₂.imp ?_ balanced
    intro a c vouches
    have whole : a.handed ++ c.drain.1 = tokens a.input := yields_drain vouches.yields
    refine ⟨?_, ⟨_, whole⟩, whole, ?_⟩
    · rw [yields_input vouches.yields, ofBytes_input]
    · intro ended
      exact exhausted_of_bare (vouches.bare ended)
  · intro i a account
    obtain ⟨c, found, vouches⟩ := Ledger.forall₂_found balanced.flip account
    have whole : a.handed ++ c.drain.1 = tokens a.input := yields_drain vouches.yields
    rw [Ledger.perform_of_pull rfl found]
    simp [account, pull, meetsEnd, whole]
  · intro command j inside elsewhere
    exact Ledger.step_elsewhere (l.perform_step command) inside balanced.length_eq elsewhere
  · intro more i a account ended
    exact Ledger.performed_ended balanced more account ended
  · intro bs
    exact ⟨drainThroughEnd_eq _, fun t member => drain_ne_eof member⟩

def mixedPulls : List Command :=
  [.start (Text.utf8 "let x = 5;"), .next 0, .copy 0, .take 1 2, .next? 0, .parse 1, .drain 0,
   .next 0]

/-- All these commands have an outcome. The cursor has come to its end and stays there whatever
follows; its copy is still on the way. -/
theorem one_stream_however_pulled_of_mixed_pulls :
    (Pool.performAll [] mixedPulls).length = mixedPulls.length ∧
    let l := Ledger.opened.performed mixedPulls
    ∃ a b, l.accounts = [a, b] ∧ a.ended = true ∧ a.handed <+: tokens a.input ∧
      b.handed = [⟨.letWord, "let"⟩, ⟨.ident, "x"⟩, ⟨.assign, "="⟩] ∧
      b.handed <+: tokens b.input ∧
      (l.performed [.next? 0, .take 0 3, .next 1]).accounts[0]? = some a := by
  have answered : (Pool.performAll [] mixedPulls).length = mixedPulls.length := by decide +kernel
  have accounts : (Ledger.opened.performed mixedPulls).accounts =
      [⟨Text.utf8 "let x = 5;", [⟨.letWord, "let"⟩, ⟨.ident, "x"⟩, ⟨.assign, "="⟩, ⟨.int, "5"⟩,
          ⟨.semicolon, ";"⟩], true⟩,
       ⟨Text.utf8 "let x = 5;", [⟨.letWord, "let"⟩, ⟨.ident, "x"⟩, ⟨.assign, "="⟩], false⟩] := by
    decide +kernel
  obtain ⟨stream, -, -, still, -⟩ := one_stream_however_pulled mixedPulls
  rw [accounts] at stream
  obtain ⟨_, _, ⟨-, whole, -⟩, others, -⟩ := List.forall₂_cons_left_iff.mp stream
  obtain ⟨_, _, ⟨-, front, -⟩, -, -⟩ := List.forall₂_cons_left_iff.mp others
  have stays := still [.next? 0, .take 0 3, .next 1] 0 _ (by rw [accounts]; rfl) rfl
  exact ⟨answered, _, _, accounts, rfl, whole, rfl, front, stays.1⟩

end LetFrontEnd.Cursor
