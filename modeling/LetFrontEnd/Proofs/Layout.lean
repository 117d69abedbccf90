import LetFrontEnd.Proofs.LongestMatch
import Mathlib.Data.List.Chain

/- Layouts: tokens written out with blanks around them. Reading a layout gives back its tokens
   exactly when blanks stand wherever two neighbours would otherwise be read as one. -/
namespace LetFrontEnd
open Byte

def Byte.ofText (s : String) : List UInt8 := s.toList.map Char.toUInt8

/-- The tokens that can be written: a word or number with its kind, an operator or delimiter, or a
character of one byte that starts none of these and is no blank. -/
inductive Token.Valid : Token → Prop
  | word {s : String} (shape : IsWord s) : Valid ⟨.ofWord s, s⟩
  | number {s : String} (shape : IsNumber s) : Valid ⟨.int, s⟩
  | mark {k : TokenKind} (listed : k ∈ TokenKind.punctuation) : Valid ⟨k, k.label⟩
  | stray {c : Char} (latin : c.toNat ≤ 0xFF) (unblank : isBlank c.toUInt8 = false)
      (unlettered : ¬ (c.isAlpha = true ∨ c = '_')) (undigit : ¬ c.isDigit = true)
      (unmarked : ∀ k ∈ TokenKind.punctuation, k.label.toList.head? ≠ some c) :
      Valid ⟨.illegal, String.ofList [c]⟩

/-- Two tokens that are not read back as such when nothing stands between them. -/
def Token.Fuses (t u : Token) : Prop :=
  IsWord t.literal ∧ IsWord u.literal ∨ IsNumber t.literal ∧ IsNumber u.literal ∨
    (t.kind = .assign ∨ t.kind = .bang) ∧ u.literal.toList.head? = some '='

instance (t u : Token) : Decidable (t.Fuses u) := inferInstanceAs (Decidable (_ ∨ _))

structure Gap where
  bytes : List UInt8
  blank : ∀ b ∈ bytes, isBlank b = true

structure Part where
  token : Token
  valid : token.Valid
  gap : Gap

def Part.bytes (part : Part) : List UInt8 := ofText part.token.literal ++ part.gap.bytes

namespace Byte

theorem ofUInt8_toUInt8 {c : Char} (latin : c.toNat ≤ 0xFF) : Char.ofUInt8 c.toUInt8 = c := by
  apply Char.toNat_inj.mp
  have low : c.toUInt8.toNat = c.toNat % 256 := UInt32.toNat_toUInt8 c.val
  rw [ofUInt8_toNat, low]
  omega

theorem text_ofText {s : String} (latin : ∀ c ∈ s.toList, c.toNat ≤ 0xFF) :
    text (ofText s) = s := by
  have chars : (s.toList.map Char.toUInt8).map Char.ofUInt8 = s.toList := by
    calc (s.toList.map Char.toUInt8).map Char.ofUInt8
        = s.toList.map (Char.ofUInt8 ∘ Char.toUInt8) := List.map_map
      _ = s.toList.map id :=
          List.map_congr_left fun c member => ofUInt8_toUInt8 (latin c member)
      _ = s.toList := List.map_id _
  rw [text, ofText, chars, String.ofList_toList]

theorem latin_of_letter {c : Char} (letter : c.isAlpha = true ∨ c = '_') : c.toNat ≤ 0xFF := by
  rcases letter with alpha | same
  · rw [isAlpha_iff_toNat] at alpha
    omega
  · rw [same]
    decide

theorem latin_of_digit {c : Char} (digit : c.isDigit = true) : c.toNat ≤ 0xFF := by
  rw [isDigit_iff_toNat] at digit
  omega

end Byte

/-- What a stretch of bytes has to be in order to be read back as the token it spells. -/
structure Spells (p : List UInt8) (t : Token) : Prop where
  token : t = Token.ofBytes p
  lexical : Lexical p
  unblank : ∀ b, p.head? = some b → isBlank b = false

theorem word_spells {s : String} (shape : IsWord s) : Spells (ofText s) ⟨.ofWord s, s⟩ := by
  have same : text (ofText s) = s := text_ofText fun c member => latin_of_letter (shape.2 c member)
  have word : IsWord (text (ofText s)) := by rwa [same]
  refine ⟨?_, Or.inl word, ?_⟩
  · simp [Token.ofBytes, same, TokenKind.ofText, shape]
  · intro b first
    apply isBlank_of_isLetter
    exact ((isWord_text_iff _).mp word).2 b (List.mem_of_head? first)

theorem number_spells {s : String} (shape : IsNumber s) : Spells (ofText s) ⟨.int, s⟩ := by
  have same : text (ofText s) = s := text_ofText fun c member => latin_of_digit (shape.2 c member)
  have number : IsNumber (text (ofText s)) := by rwa [same]
  refine ⟨?_, Or.inr (Or.inl number), ?_⟩
  · simp [Token.ofBytes, same, TokenKind.ofText, shape, not_word_of_number shape]
  · intro b first
    apply isBlank_of_isDigit
    exact ((isNumber_text_iff _).mp number).2 b (List.mem_of_head? first)

theorem mark_spells {k : TokenKind} (listed : k ∈ TokenKind.punctuation) :
    Spells (ofText k.label) ⟨k, k.label⟩ := by
  have tokens : ∀ k ∈ TokenKind.punctuation, (⟨k, k.label⟩ : Token) = .ofBytes (ofText k.label) := by
    decide
  have stretches : ∀ k ∈ TokenKind.punctuation, Lexical (ofText k.label) := by decide
  have starts : ∀ k ∈ TokenKind.punctuation,
      (ofText k.label).head?.any isBlank = false := by decide
  refine ⟨tokens k listed, stretches k listed, ?_⟩
  intro b first
  simpa [first] using starts k listed

theorem lookup_of_unmarked {c : Char}
    (unmarked : ∀ k ∈ TokenKind.punctuation, k.label.toList.head? ≠ some c) :
    TokenKind.symbols.lookup c = none := by
  have marks : ∀ entry ∈ TokenKind.symbols,
      entry.2 ∈ TokenKind.punctuation ∧ entry.2.label.toList.head? = some entry.1 := by decide
  rw [List.lookup_eq_none_iff]
  intro entry listed
  obtain ⟨mark, first⟩ := marks entry listed
  have different := unmarked _ mark
  rw [first] at different
  have apart : c ≠ entry.1 := by
    intro same
    exact different (by rw [same])
  simpa using apart

theorem stray_spells {c : Char} (latin : c.toNat ≤ 0xFF) (unblank : isBlank c.toUInt8 = false)
    (unlettered : ¬ (c.isAlpha = true ∨ c = '_')) (undigit : ¬ c.isDigit = true)
    (unmarked : ∀ k ∈ TokenKind.punctuation, k.label.toList.head? ≠ some c) :
    Spells (ofText (String.ofList [c])) ⟨.illegal, String.ofList [c]⟩ := by
  have char := ofUInt8_toUInt8 latin
  have byte : ofText (String.ofList [c]) = [c.toUInt8] := by simp [ofText]
  have literal : text [c.toUInt8] = String.ofList [c] := by simp [text, char]
  have letter : isLetter c.toUInt8 = false := by
    rw [← Bool.not_eq_true, isLetter_iff, char]
    exact unlettered
  have digit : isDigit c.toUInt8 = false := by
    rw [← Bool.not_eq_true, isDigit_iff, char]
    exact undigit
  have unknown : TokenKind.ofSymbol? c.toUInt8 = none := by
    rw [TokenKind.ofSymbol?, char]
    exact lookup_of_unmarked unmarked
  rw [byte]
  refine ⟨?_, Or.inr (Or.inr (Or.inr (Or.inr rfl))), ?_⟩
  · rw [Token.ofBytes, TokenKind.ofText_of_stray letter digit unknown, literal]
  · intro b first
    rw [← Option.some.inj first]
    exact unblank

theorem valid_spells {t : Token} (valid : t.Valid) : Spells (ofText t.literal) t := by
  cases valid with
  | word shape => exact word_spells shape
  | number shape => exact number_spells shape
  | mark listed => exact mark_spells listed
  | stray latin unblank unlettered undigit unmarked =>
    exact stray_spells latin unblank unlettered undigit unmarked

theorem spells_kind_iff {p : List UInt8} {t : Token} (spelled : Spells p t) :
    (t.kind = .assign ∨ t.kind = .bang) ↔ text p = "=" ∨ text p = "!" := by
  have kind : t.kind = .ofText (text p) := by rw [spelled.token, Token.ofBytes]
  rw [kind, TokenKind.ofText_eq_mark_iff (by decide), TokenKind.ofText_eq_mark_iff (by decide)]
  rfl

/-- Two tokens fuse exactly when the first byte of one can be added to the other. -/
theorem fuses_iff {p q : List UInt8} {t u : Token} {b : UInt8} (left : Spells p t)
    (right : Spells q u) (first : q.head? = some b) : t.Fuses u ↔ Lexical (p ++ [b]) := by
  have literal_left : t.literal = text p := by rw [left.token, Token.ofBytes]
  have literal_right : u.literal = text q := by rw [right.token, Token.ofBytes]
  have equals : u.literal.toList.head? = some '=' ↔ b = 0x3D := by
    rw [literal_right, text_toList, List.head?_map, first, Option.map_some, Option.some_inj]
    exact @ofUInt8_inj b 0x3D
  rw [Token.Fuses, equals, spells_kind_iff left, literal_left, literal_right,
    lexical_word_iff right.lexical first, lexical_number_iff right.lexical first,
    lexical_snoc_iff (lexical_ne_nil left.lexical)]

theorem blank_not_joined {p : List UInt8} {b : UInt8} (lexical : Lexical p)
    (blank : isBlank b = true) : ¬ Lexical (p ++ [b]) := by
  rw [lexical_snoc_iff (lexical_ne_nil lexical)]
  intro joins
  rcases joins with ⟨-, letter⟩ | ⟨-, digit⟩ | ⟨-, equals⟩
  · simp [isBlank_of_isLetter letter] at blank
  · simp [isBlank_of_isDigit digit] at blank
  · rw [equals] at blank
    exact absurd blank (by decide)

theorem tokens_gap (gap : Gap) (bs : List UInt8) : tokens (gap.bytes ++ bs) = tokens bs := by
  have skipped : (gap.bytes ++ bs).dropWhile isBlank = bs.dropWhile isBlank :=
    List.dropWhile_append_of_pos gap.blank
  cases shape : bs.dropWhile isBlank with
  | nil => rw [tokens_of_blank shape, tokens_of_blank (skipped.trans shape)]
  | cons b rest => rw [tokens_of_byte shape, tokens_of_byte (skipped.trans shape)]

theorem spells_dropWhile {p : List UInt8} {t : Token} (spelled : Spells p t) (rest : List UInt8) :
    (p ++ rest).dropWhile isBlank = p ++ rest := by
  cases p with
  | nil => exact absurd rfl (lexical_ne_nil spelled.lexical)
  | cons b tail => simp [spelled.unblank b rfl]

theorem tokens_spelled_iff {p rest : List UInt8} {t : Token} {ts : List Token}
    (spelled : Spells p t) :
    tokens (p ++ rest) = t :: ts ↔
      (∀ b, rest.head? = some b → ¬ Lexical (p ++ [b])) ∧ tokens rest = ts := by
  have here := spells_dropWhile spelled rest
  constructor
  · intro read
    -- some stretch is the longest one, and its text is that of `p`
    obtain ⟨q, best⟩ : ∃ q, Longest q (p ++ rest) := by
      cases shape : p ++ rest with
      | nil => exact absurd (List.append_eq_nil_iff.mp shape).1 (lexical_ne_nil spelled.lexical)
      | cons b tail => exact ⟨_, Lexeme.first_longest b tail⟩
    rw [tokens_of_longest (here.symm ▸ best), spelled.token] at read
    obtain ⟨same, later⟩ := List.cons.inj read
    obtain rfl : q = p := text_inj.mp (congrArg Token.literal same)
    rw [here, List.drop_left] at later
    exact ⟨(longest_append_iff.mp best).2, later⟩
  · intro both
    obtain ⟨stuck, later⟩ := both
    have best : Longest p (p ++ rest) := longest_append_iff.mpr ⟨spelled.lexical, stuck⟩
    rw [tokens_of_longest (here.symm ▸ best), here, List.drop_left, later, spelled.token]

theorem boundary_iff (part : Part) (parts : List Part) :
    (∀ b, (part.gap.bytes ++ parts.flatMap Part.bytes).head? = some b →
        ¬ Lexical (ofText part.token.literal ++ [b])) ↔
      ∀ next ∈ parts.head?, part.token.Fuses next.token → part.gap.bytes ≠ [] := by
  have left := valid_spells part.valid
  cases gap : part.gap.bytes with
  | cons x others =>
    have blank : isBlank x = true := part.gap.blank x (by simp [gap])
    constructor
    · intro _ next _ _
      simp
    · intro _ b first
      rw [← Option.some.inj first]
      exact blank_not_joined left.lexical blank
  | nil =>
    cases parts with
    | nil => simp
    | cons next others =>
      have right := valid_spells next.valid
      obtain ⟨b, tail, shape⟩ := List.exists_cons_of_ne_nil (lexical_ne_nil right.lexical)
      have first : (ofText next.token.literal).head? = some b := by rw [shape]; rfl
      have fuses := fuses_iff left right first
      simp [Part.bytes, shape, fuses]

def render (lead : Gap) (parts : List Part) : List UInt8 :=
  lead.bytes ++ parts.flatMap Part.bytes

/-- A layout is read back as its tokens if and only if blanks stand between any two neighbours that
fuse. -/
theorem tokens_render_iff (lead : Gap) (parts : List Part) :
    tokens (render lead parts) = parts.map Part.token ↔
      parts.IsChain fun part next => part.token.Fuses next.token → part.gap.bytes ≠ [] := by
  induction parts generalizing lead with
  | nil =>
    have blank := tokens_gap lead []
    rw [tokens_of_blank List.dropWhile_nil, List.append_nil] at blank
    simp [render, blank]
  | cons part parts ih =>
    have later := ih part.gap
    rw [render] at later
    rw [render, tokens_gap, List.flatMap_cons, Part.bytes, List.append_assoc, List.map_cons,
      tokens_spelled_iff (valid_spells part.valid), boundary_iff, later, List.isChain_cons]

-- the order of two neighbours counts
example : Token.Fuses ⟨.assign, "="⟩ ⟨.eq, "=="⟩ ∧ ¬ Token.Fuses ⟨.eq, "=="⟩ ⟨.assign, "="⟩ := by
  decide

end LetFrontEnd
