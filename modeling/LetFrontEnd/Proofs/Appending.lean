import LetFrontEnd.Proofs.Layout
import Mathlib.Data.List.TakeWhile

/- Input that grows at its end. All tokens but the last are settled by what has been read; the last
   one is settled as well unless nothing stands behind it and the first new byte can be added to
   it. Then it is read anew, with a longer literal. -/
namespace LetFrontEnd
open Byte

namespace Cursor

theorem pulls_congr {c d : Cursor} (same : c.after = d.after) (n : Nat) :
    (c.pulls n).after = (d.pulls n).after := by
  induction n generalizing c d with
  | zero => exact same
  | succ n ih => exact ih (next_congr same).2

end Cursor

/-- The last token of the input, where no byte is left behind it: the cursor that has pulled all
tokens is at the end. -/
structure EndsIn (a : List UInt8) (t : Token) : Prop where
  last : (tokens a).getLast? = some t
  place : ((Cursor.ofBytes a).pulls (tokens a).length).position = a.length

/-- The token is read on over the byte when it comes next. -/
def Token.TakesOn (t : Token) (b : UInt8) : Prop :=
  IsWord t.literal ∧ isLetter b = true ∨ t.kind = .int ∧ isDigit b = true ∨
    (t.kind = .assign ∨ t.kind = .bang) ∧ b = 0x3D

def GoesOn (a b : List UInt8) : Prop := ∃ t x, EndsIn a t ∧ b.head? = some x ∧ t.TakesOn x

def leftover (a : List UInt8) : List UInt8 := ((Cursor.ofBytes a).pulls (tokens a).length).after

theorem endsIn_iff {a : List UInt8} {t : Token} :
    EndsIn a t ↔ (tokens a).getLast? = some t ∧ leftover a = [] := by
  have whole := ((Cursor.ofBytes a).pulls (tokens a).length).input_length
  rw [Cursor.pulls_input, Cursor.ofBytes_input] at whole
  have place : ((Cursor.ofBytes a).pulls (tokens a).length).position = a.length ↔
      leftover a = [] := by
    rw [leftover, ← List.length_eq_zero_iff]
    omega
  constructor
  · intro ends
    exact ⟨ends.last, place.mp ends.place⟩
  · intro both
    exact ⟨both.1, place.mpr both.2⟩

theorem leftover_of_none {a : List UInt8} (empty : tokens a = []) : leftover a = a := by
  rw [leftover, empty]
  rfl

theorem leftover_of_longest {a p : List UInt8} (best : Longest p (a.dropWhile isBlank)) :
    leftover a = leftover ((a.dropWhile isBlank).drop p.length) := by
  let rest := (a.dropWhile isBlank).drop p.length
  have moved : (Cursor.ofBytes a).next.2.after = (Cursor.ofBytes rest).after :=
    (Cursor.next_of_longest (c := .ofBytes a) best).2
  rw [leftover, tokens_of_longest best, List.length_cons]
  exact Cursor.pulls_congr moved (tokens rest).length

namespace TokenKind

theorem ofWord_ne_int (s : String) : ofWord s ≠ int := by
  unfold ofWord
  cases found : reserved.lookup s with
  | none => decide
  | some k =>
    have table : ∀ entry ∈ reserved, entry.2 ≠ int := by decide
    exact table _ (mem_of_lookup found)

theorem ofText_eq_int_iff (s : String) : ofText s = int ↔ IsNumber s := by
  constructor
  · intro kind
    unfold ofText at kind
    split at kind
    · exact absurd kind (ofWord_ne_int s)
    · split at kind
      · assumption
      · cases found : punctuation.find? (·.label == s) with
        | none => simp [found] at kind
        | some k =>
          have listed := List.mem_of_find?_eq_some found
          rw [found] at kind
          obtain rfl : k = int := kind
          exact absurd listed (by decide)
  · intro number
    simp [ofText, number, not_word_of_number number]

end TokenKind

theorem takesOn_iff {p : List UInt8} {t : Token} (spelled : Spells p t) (x : UInt8) :
    t.TakesOn x ↔ Lexical (p ++ [x]) := by
  have literal : t.literal = text p := by rw [spelled.token, Token.ofBytes]
  have number : t.kind = .int ↔ IsNumber (text p) := by
    rw [spelled.token, Token.ofBytes, TokenKind.ofText_eq_int_iff]
  rw [Token.TakesOn, number, literal, spells_kind_iff spelled,
    lexical_snoc_iff (lexical_ne_nil spelled.lexical)]

theorem tokens_dropWhile (bs : List UInt8) : tokens (bs.dropWhile isBlank) = tokens bs := by
  have gap : ∀ b ∈ bs.takeWhile isBlank, isBlank b = true := fun b member =>
    List.all_eq_true.mp List.all_takeWhile b member
  have same := tokens_gap ⟨bs.takeWhile isBlank, gap⟩ (bs.dropWhile isBlank)
  rw [List.takeWhile_append_dropWhile] at same
  exact same.symm

theorem dropWhile_blank_append {a : List UInt8} (ink : a.dropWhile isBlank ≠ []) (b : List UInt8) :
    (a ++ b).dropWhile isBlank = a.dropWhile isBlank ++ b := by
  rw [List.dropWhile_append]
  simp [ink]

/-- The input ends in a token spelled by `p`. Whatever is added, the tokens `ts` before it stay, and
reading starts again from `p`. -/
structure Pending (a : List UInt8) (ts : List Token) (p : List UInt8) (t : Token) : Prop where
  spelled : Spells p t
  tokens : tokens a = ts ++ [t]
  bare : leftover a = []
  onward : ∀ b, LetFrontEnd.tokens (a ++ b) = ts ++ LetFrontEnd.tokens (p ++ b)

structure Settled (a : List UInt8) : Prop where
  apart : tokens a = [] ∨ leftover a ≠ []
  onward : ∀ b, tokens (a ++ b) = tokens a ++ tokens b

theorem spells_of_longest {a p : List UInt8} (best : Longest p (a.dropWhile isBlank)) :
    Spells p (Token.ofBytes p) := by
  refine ⟨rfl, best.lexical, ?_⟩
  intro b first
  have unblank := List.head?_dropWhile_not isBlank a
  obtain ⟨tail, shape⟩ := best.front
  rw [← shape, List.head?_append, first] at unblank
  simpa using unblank

theorem pending_here {a p : List UInt8} (best : Longest p (a.dropWhile isBlank))
    (whole : a.dropWhile isBlank = p) : Pending a [] p (Token.ofBytes p) := by
  have ink : a.dropWhile isBlank ≠ [] := whole ▸ lexical_ne_nil best.lexical
  have rest : (a.dropWhile isBlank).drop p.length = [] := by rw [whole, List.drop_length]
  have empty : tokens [] = [] := tokens_of_blank List.dropWhile_nil
  refine ⟨spells_of_longest best, ?_, ?_, ?_⟩
  · rw [tokens_of_longest best, rest, empty]
    rfl
  · rw [leftover_of_longest best, rest, leftover_of_none empty]
  · intro b
    rw [← tokens_dropWhile, dropWhile_blank_append ink, whole, List.nil_append]

theorem tokens_append_of_longest {a p : List UInt8} (best : Longest p (a.dropWhile isBlank))
    (more : (a.dropWhile isBlank).drop p.length ≠ []) (b : List UInt8) :
    tokens (a ++ b) = Token.ofBytes p :: tokens ((a.dropWhile isBlank).drop p.length ++ b) := by
  obtain ⟨rest, shape⟩ := best.front
  have behind : (a.dropWhile isBlank).drop p.length = rest := by rw [← shape, List.drop_left]
  have ink : a.dropWhile isBlank ≠ [] := by
    intro blank
    exact more (by rw [blank, List.drop_nil])
  rw [behind] at more ⊢
  have joined : (a ++ b).dropWhile isBlank = p ++ (rest ++ b) := by
    rw [dropWhile_blank_append ink, ← shape, List.append_assoc]
  have longest : Longest p (p ++ (rest ++ b)) := by
    obtain ⟨lexical, stuck⟩ := longest_append_iff.mp (shape ▸ best)
    refine longest_append_iff.mpr ⟨lexical, ?_⟩
    intro x next
    rw [List.head?_append_of_ne_nil _ more] at next
    exact stuck x next
  rw [tokens_of_longest (joined ▸ longest), joined, List.drop_left]

theorem pending_or_settled (a : List UInt8) : (∃ ts p t, Pending a ts p t) ∨ Settled a := by
  have scan := tokens_scans a
  generalize tokens a = all at scan
  induction scan with
  | @done a blank =>
    have empty := tokens_of_blank blank
    refine Or.inr ⟨Or.inl empty, ?_⟩
    intro b
    rw [empty, List.nil_append]
    exact tokens_gap ⟨a, List.dropWhile_eq_nil_iff.mp blank⟩ b
  | @token a p ts best _ ih =>
    by_cases more : (a.dropWhile isBlank).drop p.length = []
    · have whole : a.dropWhile isBlank = p := by
        obtain ⟨rest, shape⟩ := best.front
        rw [← shape, List.drop_left] at more
        rw [← shape, more, List.append_nil]
      exact Or.inl ⟨_, _, _, pending_here best whole⟩
    · -- bytes stand behind the token, so whatever is added comes after them
      have grown := tokens_append_of_longest best more
      have first := tokens_of_longest best
      have left := leftover_of_longest best
      rcases ih with ⟨us, q, t, pending⟩ | settled
      · refine Or.inl ⟨Token.ofBytes p :: us, q, t, pending.spelled, ?_, ?_, ?_⟩
        · rw [first, pending.tokens, List.cons_append]
        · rw [left, pending.bare]
        · intro b
          rw [grown, pending.onward, List.cons_append]
      · refine Or.inr ⟨Or.inr ?_, ?_⟩
        · rw [left]
          rcases settled.apart with empty | behind
          · rw [leftover_of_none empty]
            exact more
          · exact behind
        · intro b
          rw [grown, settled.onward, first, List.cons_append]

section
variable {a b : List UInt8}

theorem not_goesOn_of_settled (settled : Settled a) : ¬ GoesOn a b := by
  rintro ⟨t, x, ends, -, -⟩
  obtain ⟨last, bare⟩ := endsIn_iff.mp ends
  rcases settled.apart with empty | left
  · simp [empty] at last
  · exact left bare

theorem goesOn_iff_of_pending {ts : List Token} {p : List UInt8} {t : Token}
    (pending : Pending a ts p t) : GoesOn a b ↔ ∃ x, b.head? = some x ∧ Lexical (p ++ [x]) := by
  have last : (tokens a).getLast? = some t := by rw [pending.tokens, List.getLast?_concat]
  constructor
  · rintro ⟨u, x, ends, first, takes⟩
    obtain rfl : t = u := Option.some.inj (last.symm.trans ends.last)
    exact ⟨x, first, (takesOn_iff pending.spelled x).mp takes⟩
  · rintro ⟨x, first, more⟩
    exact ⟨t, x, endsIn_iff.mpr ⟨last, pending.bare⟩, first, (takesOn_iff pending.spelled x).mpr more⟩

theorem tokens_append_iff_apart : tokens (a ++ b) = tokens a ++ tokens b ↔ ¬ GoesOn a b := by
  rcases pending_or_settled a with ⟨ts, p, t, pending⟩ | settled
  · rw [pending.onward, pending.tokens, List.append_assoc, List.append_cancel_left_eq,
      goesOn_iff_of_pending pending, List.singleton_append, tokens_spelled_iff pending.spelled]
    simp
  · simp [settled.onward, not_goesOn_of_settled settled]

theorem tokens_of_extended {p : List UInt8} {t : Token} {x : UInt8} (spelled : Spells p t)
    (first : b.head? = some x) (more : Lexical (p ++ [x])) :
    ∃ u rest extra, tokens (p ++ b) = u :: rest ∧ extra ≠ "" ∧ u.literal = t.literal ++ extra := by
  obtain ⟨tail, rfl⟩ := List.head?_eq_some_iff.mp first
  have here := spells_dropWhile spelled (x :: tail)
  -- the longest stretch there goes beyond `p`, as `p` and the next byte are lexical
  obtain ⟨q, best⟩ : ∃ q, Longest q (p ++ x :: tail) := by
    cases shape : p ++ x :: tail with
    | nil => simp at shape
    | cons c others => exact ⟨_, Lexeme.first_longest c others⟩
  have longer := best.longest _ more ⟨tail, by simp⟩
  rw [List.length_append, List.length_singleton] at longer
  obtain ⟨extra, rfl⟩ : p <+: q :=
    List.prefix_of_prefix_length_le (List.prefix_append p _) best.front (by omega)
  refine ⟨_, _, text extra, tokens_of_longest (here.symm ▸ best), ?_, ?_⟩
  · rw [Ne, text_eq_empty_iff]
    rintro rfl
    rw [List.append_nil] at longer
    omega
  · rw [spelled.token]
    exact text_append p extra

end

/-- The tokens of two inputs in a row are those of the one and those of the other, unless the second
goes on with the token that the first ends in. Even then that token alone is read anew, and its
literal becomes longer. -/
theorem appended_input_changes_last_token (a b : List UInt8) :
    (tokens (a ++ b) = tokens a ++ tokens b ↔ ¬ GoesOn a b) ∧
    (GoesOn a b → ∃ ts t u rest extra, tokens a = ts ++ [t] ∧ tokens (a ++ b) = ts ++ u :: rest ∧
      extra ≠ "" ∧ u.literal = t.literal ++ extra) := by
  refine ⟨tokens_append_iff_apart, ?_⟩
  intro goes
  rcases pending_or_settled a with ⟨ts, p, t, pending⟩ | settled
  · obtain ⟨x, first, more⟩ := (goesOn_iff_of_pending pending).mp goes
    obtain ⟨u, rest, extra, read, longer, literal⟩ := tokens_of_extended pending.spelled first more
    exact ⟨ts, t, u, rest, extra, pending.tokens, by rw [pending.onward, read], longer, literal⟩
  · exact absurd goes (not_goesOn_of_settled settled)

/-- Equals signs pair from the left, so the third of them is still open and the next one joins it. -/
theorem third_equals_goes_on :
    GoesOn (ofText "===") (ofText "= 1") ∧
    ∃ ts t u rest extra, tokens (ofText "===") = ts ++ [t] ∧
      tokens (ofText "===" ++ ofText "= 1") = ts ++ u :: rest ∧
      extra ≠ "" ∧ u.literal = t.literal ++ extra := by
  have paired : tokens (ofText "===") = [⟨.eq, "=="⟩, ⟨.assign, "="⟩] := by
    have three : (ofText "===").dropWhile isBlank = [0x3D, 0x3D, 0x3D] := by decide
    have one : [0x3D].dropWhile isBlank = [0x3D] := by decide
    calc tokens (ofText "===")
        = ⟨.eq, "=="⟩ :: tokens [0x3D] := tokens_of_byte three
      _ = ⟨.eq, "=="⟩ :: ⟨.assign, "="⟩ :: tokens [] := by rw [tokens_of_byte one]; rfl
      _ = [⟨.eq, "=="⟩, ⟨.assign, "="⟩] := by rw [tokens_of_blank List.dropWhile_nil]
  have ends : EndsIn (ofText "===") ⟨.assign, "="⟩ := by
    refine ⟨?_, ?_⟩ <;> rw [paired] <;> decide
  have goes : GoesOn (ofText "===") (ofText "= 1") :=
    ⟨_, 0x3D, ends, rfl, Or.inr (Or.inr ⟨Or.inl rfl, rfl⟩)⟩
  exact ⟨goes, (appended_input_changes_last_token _ _).2 goes⟩

end LetFrontEnd
