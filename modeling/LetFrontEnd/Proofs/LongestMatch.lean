import LetFrontEnd.Proofs.Stream
import LetFrontEnd.Proofs.Vocabulary

/- Longest match. The lexer looks at one byte and at most one more, yet each token it makes is
   spelled by the longest lexical stretch that stands there, and that alone fixes the tokens of
   an input. -/
namespace LetFrontEnd
open Byte

/-- `p` is the longest lexical stretch that `r` starts with. -/
structure Longest (p r : List UInt8) : Prop where
  front : p <+: r
  lexical : Lexical p
  longest : ∀ q, Lexical q → q <+: r → q.length ≤ p.length

theorem longest_unique {p q r : List UInt8} (first : Longest p r) (second : Longest q r) :
    p = q := by
  have shorter := second.longest p first.lexical first.front
  have longer := first.longest q second.lexical second.front
  exact (List.prefix_of_prefix_length_le first.front second.front shorter).eq_of_length_le longer

/-- A stretch is the longest one exactly when the next byte cannot be added to it. -/
theorem longest_append_iff {p rest : List UInt8} :
    Longest p (p ++ rest) ↔ Lexical p ∧ ∀ b, rest.head? = some b → ¬ Lexical (p ++ [b]) := by
  constructor
  · intro best
    refine ⟨best.lexical, ?_⟩
    intro b next more
    obtain ⟨tail, rfl⟩ := List.head?_eq_some_iff.mp next
    have bound := best.longest _ more ⟨tail, by simp⟩
    simp only [List.length_append, List.length_cons, List.length_nil] at bound
    omega
  · intro both
    obtain ⟨lexical, stuck⟩ := both
    refine ⟨List.prefix_append p rest, lexical, ?_⟩
    intro q other front
    apply Nat.le_of_not_lt
    intro longer
    have inside : p <+: q :=
      List.prefix_of_prefix_length_le (List.prefix_append p rest) front (by omega)
    obtain ⟨extra, rfl⟩ := inside
    cases extra with
    | nil => simp at longer
    | cons b extra =>
      have next : rest.head? = some b := by
        obtain ⟨tail, shape⟩ := front
        simp only [List.append_assoc, List.append_cancel_left_eq] at shape
        simp [← shape]
      exact stuck b next (lexical_cut (lexical_ne_nil lexical) other)

theorem run_length_le {p : UInt8 → Bool} {q r : List UInt8} (all : ∀ b ∈ q, p b = true)
    (front : q <+: r) : q.length ≤ (r.takeWhile p).length := by
  obtain ⟨tail, rfl⟩ := front
  rw [List.takeWhile_append_of_pos all]
  simp

namespace TokenKind

theorem ofSymbol?_eq_assign {b : UInt8} (found : ofSymbol? b = some assign) : b = 0x3D := by
  have table : ∀ entry ∈ symbols, entry.2 = assign → entry.1 = '=' := by decide
  exact ofUInt8_inj.mp (table _ (mem_of_lookup found) rfl)

theorem ofSymbol?_eq_bang {b : UInt8} (found : ofSymbol? b = some bang) : b = 0x21 := by
  have table : ∀ entry ∈ symbols, entry.2 = bang → entry.1 = '!' := by decide
  exact ofUInt8_inj.mp (table _ (mem_of_lookup found) rfl)

end TokenKind

namespace Lexeme

def Paired (b : UInt8) (rest : List UInt8) : Prop :=
  (b = 0x3D ∨ b = 0x21) ∧ rest.head? = some 0x3D

instance (b : UInt8) (rest : List UInt8) : Decidable (Paired b rest) :=
  inferInstanceAs (Decidable (_ ∧ _))

theorem symbol_of_paired {b : UInt8} {rest : List UInt8} (paired : Paired b rest) :
    symbol b rest = ⟨.ofText (text [b, 0x3D]), [b, 0x3D]⟩ := by
  obtain ⟨joins, next⟩ := paired
  obtain ⟨tail, rfl⟩ := List.head?_eq_some_iff.mp next
  have double : TokenKind.ofText (text [0x3D, 0x3D]) = .eq := by decide
  have unequal : TokenKind.ofText (text [0x21, 0x3D]) = .notEq := by decide
  rcases joins with rfl | rfl
  · rw [double]
    rfl
  · rw [unequal]
    rfl

theorem symbol_of_unpaired {b : UInt8} {rest : List UInt8} (apart : ¬ Paired b rest) :
    symbol b rest = ⟨(TokenKind.ofSymbol? b).getD .illegal, [b]⟩ := by
  unfold symbol
  split
  case h_1 unknown => rw [unknown]; rfl
  case h_2 single found =>
    split
    case h_1 k tail joined =>
      cases single <;> simp only [TokenKind.withEquals?, reduceCtorEq] at joined
      case assign => exact absurd ⟨Or.inl (TokenKind.ofSymbol?_eq_assign found), rfl⟩ apart
      case bang => exact absurd ⟨Or.inr (TokenKind.ofSymbol?_eq_bang found), rfl⟩ apart
    case h_2 => rw [found]; rfl

theorem symbol_front (b : UInt8) (rest : List UInt8) : (symbol b rest).bytes <+: b :: rest := by
  by_cases paired : Paired b rest
  · obtain ⟨tail, shape⟩ := List.head?_eq_some_iff.mp paired.2
    rw [symbol_of_paired paired, shape]
    exact ⟨tail, rfl⟩
  · rw [symbol_of_unpaired paired]
    exact ⟨rest, rfl⟩

theorem symbol_lexical (b : UInt8) (rest : List UInt8) : Lexical (symbol b rest).bytes := by
  by_cases paired : Paired b rest
  · rw [symbol_of_paired paired]
    rcases paired.1 with rfl | rfl
    · exact Or.inr (Or.inr (Or.inl rfl))
    · exact Or.inr (Or.inr (Or.inr (Or.inl rfl)))
  · rw [symbol_of_unpaired paired]
    exact Or.inr (Or.inr (Or.inr (Or.inr rfl)))

theorem symbol_kind {b : UInt8} (rest : List UInt8) (unlettered : isLetter b = false)
    (undigit : isDigit b = false) :
    (symbol b rest).kind = .ofText (text (symbol b rest).bytes) := by
  by_cases paired : Paired b rest
  · rw [symbol_of_paired paired]
  · rw [symbol_of_unpaired paired]
    cases found : TokenKind.ofSymbol? b with
    | none => exact (TokenKind.ofText_of_stray unlettered undigit found).symm
    | some k => exact (TokenKind.ofText_of_symbol found).symm

theorem first_of_letter {b : UInt8} (rest : List UInt8) (letter : isLetter b = true) :
    first b rest = word ((b :: rest).takeWhile isLetter) := by
  simp [first, letter]

theorem first_of_digit {b : UInt8} (rest : List UInt8) (digit : isDigit b = true) :
    first b rest = number ((b :: rest).takeWhile isDigit) := by
  simp [first, digit, isLetter_of_isDigit digit]

theorem first_of_other {b : UInt8} (rest : List UInt8) (unlettered : isLetter b = false)
    (undigit : isDigit b = false) : first b rest = symbol b rest := by
  simp [first, unlettered, undigit]

theorem letters_of_letter {b : UInt8} (rest : List UInt8) (letter : isLetter b = true) :
    IsWord (text ((b :: rest).takeWhile isLetter)) := by
  rw [isWord_text_iff]
  exact ⟨by simp [letter], fun _ member => List.all_eq_true.mp List.all_takeWhile _ member⟩

theorem digits_of_digit {b : UInt8} (rest : List UInt8) (digit : isDigit b = true) :
    IsNumber (text ((b :: rest).takeWhile isDigit)) := by
  rw [isNumber_text_iff]
  exact ⟨by simp [digit], fun _ member => List.all_eq_true.mp List.all_takeWhile _ member⟩

theorem first_front (b : UInt8) (rest : List UInt8) : (first b rest).bytes <+: b :: rest := by
  rcases class_cases b with letter | digit | ⟨unlettered, undigit⟩
  · rw [first_of_letter rest letter]
    exact List.takeWhile_prefix _
  · rw [first_of_digit rest digit]
    exact List.takeWhile_prefix _
  · rw [first_of_other rest unlettered undigit]
    exact symbol_front b rest

theorem first_lexical (b : UInt8) (rest : List UInt8) : Lexical (first b rest).bytes := by
  rcases class_cases b with letter | digit | ⟨unlettered, undigit⟩
  · rw [first_of_letter rest letter]
    exact Or.inl (letters_of_letter rest letter)
  · rw [first_of_digit rest digit]
    exact Or.inr (Or.inl (digits_of_digit rest digit))
  · rw [first_of_other rest unlettered undigit]
    exact symbol_lexical b rest

theorem first_pair_length {b : UInt8} {rest : List UInt8} (joins : b = 0x3D ∨ b = 0x21)
    (front : [b, 0x3D] <+: b :: rest) : (first b rest).bytes.length = 2 := by
  obtain ⟨tail, shape⟩ := front
  have next : rest = 0x3D :: tail := (List.cons.inj shape).2.symm
  have paired : Paired b rest := ⟨joins, by rw [next]; rfl⟩
  have stray : isLetter b = false ∧ isDigit b = false := by
    rcases joins with rfl | rfl <;> decide
  rw [first_of_other rest stray.1 stray.2, symbol_of_paired paired]
  rfl

theorem first_longest (b : UInt8) (rest : List UInt8) : Longest (first b rest).bytes (b :: rest) := by
  refine ⟨first_front b rest, first_lexical b rest, ?_⟩
  intro q lexical front
  obtain ⟨tail, rfl, -⟩ := (List.prefix_cons_iff.mp front).resolve_left (lexical_ne_nil lexical)
  -- each kind of stretch is met by the branch that its first byte selects
  rcases lexical with word | number | pair | pair | single
  · have letters := ((isWord_text_iff _).mp word).2
    rw [first_of_letter rest (letters b (by simp))]
    exact run_length_le letters front
  · have digits := ((isNumber_text_iff _).mp number).2
    rw [first_of_digit rest (digits b (by simp))]
    exact run_length_le digits front
  · obtain ⟨rfl, rfl⟩ := List.cons.inj ((text_eq_double_equals_iff _).mp pair)
    exact Nat.le_of_eq (first_pair_length (Or.inl rfl) front).symm
  · obtain ⟨rfl, rfl⟩ := List.cons.inj ((text_eq_bang_equals_iff _).mp pair)
    exact Nat.le_of_eq (first_pair_length (Or.inr rfl) front).symm
  · rw [single]
    exact first_bytes_positive b rest

theorem first_kind (b : UInt8) (rest : List UInt8) :
    (first b rest).kind = .ofText (text (first b rest).bytes) := by
  rcases class_cases b with letter | digit | ⟨unlettered, undigit⟩
  · rw [first_of_letter rest letter]
    simp [word, TokenKind.ofText, letters_of_letter rest letter]
  · have shape := digits_of_digit rest digit
    rw [first_of_digit rest digit]
    simp [number, TokenKind.ofText, shape, not_word_of_number shape]
  · rw [first_of_other rest unlettered undigit]
    exact symbol_kind rest unlettered undigit

theorem token_first (b : UInt8) (rest : List UInt8) :
    (first b rest).token = Token.ofBytes (first b rest).bytes := by
  rw [token, first_kind]
  rfl

end Lexeme

theorem first_of_longest {p r : List UInt8} (best : Longest p r) :
    ∃ b rest, r = b :: rest ∧ p = (Lexeme.first b rest).bytes := by
  cases r with
  | nil => exact absurd (List.prefix_nil.mp best.front) (lexical_ne_nil best.lexical)
  | cons b rest => exact ⟨b, rest, rfl, longest_unique best (Lexeme.first_longest b rest)⟩

namespace Cursor

theorem next_of_longest {c : Cursor} {p : List UInt8}
    (best : Longest p (c.after.dropWhile isBlank)) :
    c.next.1 = Token.ofBytes p ∧
      c.next.2.after = (c.after.dropWhile isBlank).drop p.length := by
  obtain ⟨b, rest, shape, rfl⟩ := first_of_longest best
  obtain ⟨token, after⟩ := next_of_byte shape
  exact ⟨token.trans (Lexeme.token_first b rest), shape ▸ after⟩

theorem next_position_of_longest {c : Cursor} {p : List UInt8}
    (best : Longest p (c.after.dropWhile isBlank)) :
    c.next.2.position = c.input.length - (c.after.dropWhile isBlank).length + p.length := by
  have before := c.input_length
  have behind := c.next.2.input_length
  have skipped := (List.dropWhile_suffix (l := c.after) isBlank).length_le
  have taken := best.front.length_le
  rw [next_input, (next_of_longest best).2, List.length_drop] at behind
  omega

end Cursor

/-- The tokens of an input by longest match: skip the blanks, cut off the longest lexical stretch,
go on behind it. -/
inductive Scans : List UInt8 → List Token → Prop
  | done {bs : List UInt8} (blank : bs.dropWhile isBlank = []) : Scans bs []
  | token {bs p : List UInt8} {ts : List Token} (best : Longest p (bs.dropWhile isBlank))
      (rest : Scans ((bs.dropWhile isBlank).drop p.length) ts) : Scans bs (Token.ofBytes p :: ts)

theorem tokens_of_longest {bs p : List UInt8} (best : Longest p (bs.dropWhile isBlank)) :
    tokens bs = Token.ofBytes p :: tokens ((bs.dropWhile isBlank).drop p.length) := by
  obtain ⟨b, rest, shape, rfl⟩ := first_of_longest best
  rw [tokens_of_byte shape, Lexeme.token_first, shape]

theorem tokens_scans (bs : List UInt8) : Scans bs (tokens bs) := by
  induction size : bs.length using Nat.strongRecOn generalizing bs with
  | ind n ih =>
    cases shape : bs.dropWhile isBlank with
    | nil =>
      rw [tokens_of_blank shape]
      exact Scans.done shape
    | cons b rest =>
      have best : Longest (Lexeme.first b rest).bytes (bs.dropWhile isBlank) :=
        shape ▸ Lexeme.first_longest b rest
      rw [tokens_of_longest best]
      refine Scans.token best (ih _ ?_ _ rfl)
      have taken := Lexeme.first_bytes_positive b rest
      have skipped := (List.dropWhile_suffix (l := bs) isBlank).length_le
      rw [shape] at skipped ⊢
      simp only [List.length_drop, List.length_cons] at skipped ⊢
      omega

theorem scans_eq_tokens {bs : List UInt8} {ts : List Token} (scan : Scans bs ts) :
    tokens bs = ts := by
  induction scan with
  | done blank => exact tokens_of_blank blank
  | token best rest ih => rw [tokens_of_longest best, ih]

/-- After any number of pulls, the next one answers the longest lexical stretch behind the blanks
and stops right after it, or answers the end when there is none. So longest match fixes the
tokens of an input. -/
theorem longest_match (bs : List UInt8) :
    (∀ n, let c := (Cursor.ofBytes bs).pulls n
      let r := (bs.drop c.position).dropWhile isBlank
      c.next.2.input = bs ∧
      (r = [] ∧ c.next.1 = ⟨.eof, ""⟩ ∧ c.next.2.position = bs.length ∨
        ∃ p, Longest p r ∧ c.next.1 = Token.ofBytes p ∧
          c.next.2.position = bs.length - r.length + p.length)) ∧
    (∀ ts, tokens bs = ts ↔ Scans bs ts) ∧
    tokensThroughEnd bs = tokens bs ++ [⟨.eof, ""⟩] := by
  refine ⟨?_, ?_, ?_⟩
  · intro n c r
    have kept : c.input = bs := by simp [c]
    have unread : c.after.dropWhile isBlank = r := by rw [c.after_eq_drop, kept]
    have moved : c.next.2.input = bs := by rw [Cursor.next_input, kept]
    refine ⟨moved, ?_⟩
    cases shape : r with
    | nil =>
      obtain ⟨token, after⟩ := Cursor.next_of_blank (unread.trans shape)
      have place := c.next.2.input_length
      rw [moved, after] at place
      exact Or.inl ⟨rfl, token, place.symm⟩
    | cons b rest =>
      have best : Longest (Lexeme.first b rest).bytes (c.after.dropWhile isBlank) := by
        rw [unread, shape]
        exact Lexeme.first_longest b rest
      have place := Cursor.next_position_of_longest best
      rw [kept, unread, shape] at place
      exact Or.inr ⟨_, Lexeme.first_longest b rest, (Cursor.next_of_longest best).1, place⟩
  · intro ts
    constructor
    · intro read
      rw [← read]
      exact tokens_scans bs
    · exact scans_eq_tokens
  · exact Cursor.drainThroughEnd_eq _

end LetFrontEnd
