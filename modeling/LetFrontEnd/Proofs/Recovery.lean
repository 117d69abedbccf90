import LetFrontEnd.Proofs.Prompts
import LetFrontEnd.Proofs.Scanning

/- Getting an input back from its tokens. Every byte that is no blank stands in one literal, in its
   place, so nothing but blanks is lost. In the encoding of a text no byte of a longer character
   looks like a blank, a letter, a digit or a mark; such a character comes out as one illegal
   token for each of its bytes, and the text around it is read apart. -/
namespace LetFrontEnd
open Byte

def Token.bytes (t : Token) : List UInt8 := ofText t.literal

def Token.stray (b : UInt8) : Token := ⟨.illegal, text [b]⟩

/-- The text without spaces, tabs, line feeds and carriage returns. -/
def Text.unspaced (s : String) : String := String.ofList (s.toList.filter fun c => !c.isWhitespace)

namespace Byte

theorem toUInt8_ofUInt8 (b : UInt8) : (Char.ofUInt8 b).toUInt8 = b := by
  apply ofUInt8_inj.mp
  apply ofUInt8_toUInt8
  rw [ofUInt8_toNat]
  exact Nat.le_of_lt_succ b.toNat_lt

theorem ofText_text (bs : List UInt8) : ofText (text bs) = bs := by
  rw [ofText, text_toList, List.map_map]
  calc bs.map (Char.toUInt8 ∘ Char.ofUInt8)
      = bs.map id := List.map_congr_left fun b _ => toUInt8_ofUInt8 b
    _ = bs := List.map_id bs

theorem isBlank_iff (b : UInt8) : isBlank b = (Char.ofUInt8 b).isWhitespace := by
  have space : Char.ofUInt8 b = ' ' ↔ b = 0x20 := @ofUInt8_inj b 0x20
  have tab : Char.ofUInt8 b = '\t' ↔ b = 0x09 := @ofUInt8_inj b 0x09
  have feed : Char.ofUInt8 b = '\n' ↔ b = 0x0A := @ofUInt8_inj b 0x0A
  have back : Char.ofUInt8 b = '\r' ↔ b = 0x0D := @ofUInt8_inj b 0x0D
  rw [Bool.eq_iff_iff]
  simp only [isBlank, Char.isWhitespace, Bool.or_eq_true, beq_iff_eq, decide_eq_true_eq, space, tab,
    feed, back]
  exact or_right_comm

theorem inked_dropWhile (bs : List UInt8) :
    (bs.dropWhile isBlank).filter (fun b => !isBlank b) = bs.filter fun b => !isBlank b := by
  induction bs with
  | nil => rfl
  | cons b rest ih =>
    cases blank : isBlank b with
    | true => simpa [blank] using ih
    | false => simp [blank]

theorem high_class {b : UInt8} (high : 0x80 ≤ b.toNat) :
    isBlank b = false ∧ isLetter b = false ∧ isDigit b = false ∧ TokenKind.ofSymbol? b = none := by
  refine ⟨?_, ?_, ?_, ?_⟩
  · rw [← Bool.not_eq_true, blank_iff_toNat]
    omega
  · rw [← Bool.not_eq_true, letter_iff_toNat]
    omega
  · rw [← Bool.not_eq_true, digit_iff_toNat]
    omega
  · rw [Option.eq_none_iff_forall_ne_some]
    intro k found
    have ascii : b.toNat < 0x80 := UInt8.lt_iff_toNat_lt.mp (Scanner.ascii_of_symbol found)
    omega

theorem breaks_of_high {b : UInt8} (high : 0x80 ≤ b.toNat) : Breaks b := by
  obtain ⟨-, letter, digit, -⟩ := high_class high
  refine ⟨letter, digit, ?_⟩
  rintro rfl
  exact absurd high (by decide)

end Byte

theorem spells_bytes {p : List UInt8} {t : Token} (spelled : Spells p t) : t.bytes = p := by
  rw [Token.bytes, spelled.token]
  exact ofText_text p

theorem latin_of_tokens {bs : List UInt8} {t : Token} (member : t ∈ tokens bs) :
    ∀ c ∈ t.literal.toList, c.toNat ≤ 0xFF := by
  intro c inside
  obtain ⟨p, -, spelled⟩ := tokens_spelled member
  obtain ⟨b, -, rfl⟩ := spells_char spelled inside
  rw [ofUInt8_toNat]
  exact Nat.le_of_lt_succ b.toNat_lt

theorem tokens_bytes (bs : List UInt8) :
    (tokens bs).flatMap Token.bytes = bs.filter fun b => !isBlank b := by
  have scan := tokens_scans bs
  generalize tokens bs = ts at scan
  induction scan with
  | @done bs blank =>
    rw [← inked_dropWhile, blank]
    rfl
  | @token bs p ts best _ ih =>
    have spelled := spells_of_longest best
    have inked : p.filter (fun b => !isBlank b) = p := by
      rw [List.filter_eq_self]
      intro b member
      simp [spells_unblank spelled member]
    obtain ⟨rest, shape⟩ := best.front
    rw [← shape, List.drop_left] at ih
    rw [List.flatMap_cons, spells_bytes spelled, ih, ← inked_dropWhile bs, ← shape,
      List.filter_append, inked]

theorem tokens_high {b : UInt8} (high : 0x80 ≤ b.toNat) (rest : List UInt8) :
    tokens (b :: rest) = Token.stray b :: tokens rest := by
  obtain ⟨blank, letter, digit, unknown⟩ := high_class high
  have shape : (b :: rest).dropWhile isBlank = b :: rest := by simp [blank]
  have lone : Lexeme.first b rest = ⟨.illegal, [b]⟩ := by
    rw [Lexeme.first_of_other rest letter digit]
    simp [Lexeme.symbol, unknown]
  rw [tokens_of_byte shape, lone]
  rfl

theorem tokens_strays {bs : List UInt8} (high : ∀ b ∈ bs, 0x80 ≤ b.toNat) (rest : List UInt8) :
    tokens (bs ++ rest) = bs.map Token.stray ++ tokens rest := by
  induction bs with
  | nil => rfl
  | cons b bs ih =>
    obtain ⟨first, others⟩ := List.forall_mem_cons.mp high
    rw [List.cons_append, tokens_high first, ih others]
    rfl

namespace Text

theorem high_of_mem_utf8EncodeChar {c : Char} {b : UInt8} (beyond : 0x80 ≤ c.toNat)
    (member : b ∈ String.utf8EncodeChar c) : 0x80 ≤ b.toNat := by
  apply Nat.le_of_not_lt
  intro ascii
  rw [char_of_mem_utf8EncodeChar ascii member, ofUInt8_toNat] at beyond
  omega

theorem not_whitespace_of_beyond {c : Char} (beyond : 0x80 ≤ c.toNat) : c.isWhitespace = false := by
  rw [← Bool.not_eq_true]
  simp only [Char.isWhitespace, Bool.or_eq_true, decide_eq_true_eq]
  rintro (((rfl | rfl) | rfl) | rfl) <;> exact absurd beyond (by decide)

theorem inked_utf8EncodeChar (c : Char) :
    (String.utf8EncodeChar c).filter (fun b => !Byte.isBlank b) =
      if c.isWhitespace then [] else String.utf8EncodeChar c := by
  by_cases ascii : c.toNat < 0x80
  · obtain ⟨b, low, rfl⟩ : ∃ b : UInt8, b < 0x80 ∧ Char.ofUInt8 b = c := by
      refine ⟨c.toUInt8, ?_, ofUInt8_toUInt8 (by omega)⟩
      have code := congrArg Char.toNat (ofUInt8_toUInt8 (c := c) (by omega))
      rw [ofUInt8_toNat] at code
      exact UInt8.lt_iff_toNat_lt.mpr (code ▸ ascii)
    rw [utf8EncodeChar_ascii low, ← isBlank_iff]
    cases blank : Byte.isBlank b <;> simp [blank]
  · have beyond : 0x80 ≤ c.toNat := by omega
    have kept : (String.utf8EncodeChar c).filter (fun b => !Byte.isBlank b) =
        String.utf8EncodeChar c := by
      rw [List.filter_eq_self]
      intro b member
      simp [(high_class (high_of_mem_utf8EncodeChar beyond member)).1]
    rw [kept, not_whitespace_of_beyond beyond]
    rfl

theorem inked_utf8 (s : String) :
    (utf8 s).filter (fun b => !Byte.isBlank b) = utf8 (unspaced s) := by
  rw [utf8, utf8, unspaced, String.toList_ofList]
  induction s.toList with
  | nil => rfl
  | cons c cs ih =>
    rw [List.flatMap_cons, List.filter_append, inked_utf8EncodeChar, ih]
    cases space : c.isWhitespace with
    | true => simp [space]
    | false => simp [space]

theorem fromUTF8?_utf8 (s : String) : String.fromUTF8? (utf8 s).toByteArray = some s := by
  have bytes : (utf8 s).toByteArray = s.toByteArray := by
    conv => rhs; rw [← String.ofList_toList (s := s)]
    rfl
  rw [bytes, String.fromUTF8?, dif_pos s.isValidUTF8]
  rfl

end Text

/-- A character beyond ASCII is read as its bytes, one illegal token for each, and what stands before
and behind it as if it were alone. -/
theorem tokens_beyond_ascii {c : Char} (beyond : 0x80 ≤ c.toNat) (l r : String) :
    tokens (Text.utf8 (l ++ String.singleton c ++ r)) =
      tokens (Text.utf8 l) ++ (String.utf8EncodeChar c).map Token.stray ++ tokens (Text.utf8 r) := by
  have high : ∀ b ∈ String.utf8EncodeChar c, 0x80 ≤ b.toNat := fun b member =>
    Text.high_of_mem_utf8EncodeChar beyond member
  have written : Text.utf8 (l ++ String.singleton c ++ r) =
      Text.utf8 l ++ (String.utf8EncodeChar c ++ Text.utf8 r) := by
    simp [Text.utf8]
  rw [written, List.append_assoc, ← tokens_strays high]
  obtain ⟨b, tail, shape⟩ := List.exists_cons_of_ne_nil (String.utf8EncodeChar_ne_nil (c := c))
  rw [shape, List.cons_append]
  exact tokens_append_break _ _ (breaks_of_high (high b (by simp [shape])))

/-- The literals of an input in a row, a byte for each character, are the input without its blanks.
For a text these bytes encode the text without its blanks, and each of its characters beyond ASCII
makes as many illegal tokens as it has bytes, in their order and in one place. -/
theorem input_recovered_from_tokens :
    (∀ bs : List UInt8,
      (∀ t ∈ tokens bs, ∀ c ∈ t.literal.toList, c.toNat ≤ 0xFF) ∧
      (tokens bs).flatMap Token.bytes = bs.filter fun b => !isBlank b) ∧
    (∀ s : String,
      String.fromUTF8? ((tokens (Text.utf8 s)).flatMap Token.bytes).toByteArray =
        some (Text.unspaced s)) ∧
    ∀ (l r : String) (c : Char), 0x80 ≤ c.toNat →
      tokens (Text.utf8 (l ++ String.singleton c ++ r)) =
        tokens (Text.utf8 l) ++ (String.utf8EncodeChar c).map Token.stray
          ++ tokens (Text.utf8 r) ∧
      ((String.utf8EncodeChar c).map Token.stray).length = c.utf8Size := by
  refine ⟨?_, ?_, ?_⟩
  · intro bs
    exact ⟨fun t member => latin_of_tokens member, tokens_bytes bs⟩
  · intro s
    rw [tokens_bytes, Text.inked_utf8, Text.fromUTF8?_utf8]
  · intro l r c beyond
    refine ⟨tokens_beyond_ascii beyond l r, ?_⟩
    rw [List.length_map, String.length_utf8EncodeChar]

/-- Three bytes in the middle of a word cut it in two. -/
theorem euro_sign_cuts_word :
    0x80 ≤ '€'.toNat ∧
    tokens (Text.utf8 ("le" ++ String.singleton '€' ++ "t")) =
      tokens (Text.utf8 "le") ++ (String.utf8EncodeChar '€').map Token.stray
        ++ tokens (Text.utf8 "t") ∧
    ((String.utf8EncodeChar '€').map Token.stray).length = '€'.utf8Size := by
  have beyond : 0x80 ≤ '€'.toNat := by decide
  exact ⟨beyond, input_recovered_from_tokens.2.2 "le" "t" '€' beyond⟩

end LetFrontEnd
