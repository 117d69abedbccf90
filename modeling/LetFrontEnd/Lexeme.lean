import LetFrontEnd.Token

/- Bytes and lexemes. Blanks separate lexemes. A lexeme is the stretch of bytes that makes one
   token: a word or a number runs as far as its class goes, an equals sign joins a symbol that pairs
   with it, and any other byte is a lexeme of its own, illegal when it is no symbol. -/
namespace LetFrontEnd

namespace Byte

def isBlank (b : UInt8) : Bool := b == 0x20 || b == 0x09 || b == 0x0A || b == 0x0D

def isLetter (b : UInt8) : Bool :=
  (0x41 ≤ b && b ≤ 0x5A) || (0x61 ≤ b && b ≤ 0x7A) || b == 0x5F

def isDigit (b : UInt8) : Bool := 0x30 ≤ b && b ≤ 0x39

/-- One character per byte, of that code point. A byte beyond ASCII is not decoded with its
neighbours, so a malformed sequence still has a text. -/
def text (bs : List UInt8) : String := String.ofList (bs.map Char.ofUInt8)

@[simp] theorem text_length (bs : List UInt8) : (text bs).length = bs.length := by
  simp [text]

theorem text_append (as bs : List UInt8) : text (as ++ bs) = text as ++ text bs := by
  simp [text]

end Byte

structure Lexeme where
  kind : TokenKind
  bytes : List UInt8
  deriving DecidableEq, Repr

namespace Lexeme
open Byte

def word (bs : List UInt8) : Lexeme := ⟨.ofWord (text bs), bs⟩

def number (bs : List UInt8) : Lexeme := ⟨.int, bs⟩

def symbol (b : UInt8) (rest : List UInt8) : Lexeme :=
  match TokenKind.ofSymbol? b with
  | none => ⟨.illegal, [b]⟩
  | some single =>
    match single.withEquals?, rest with
    | some paired, 0x3D :: _ => ⟨paired, [b, 0x3D]⟩
    | _, _ => ⟨single, [b]⟩

/-- The lexeme at the front of `b :: rest`, where `b` is no blank. -/
def first (b : UInt8) (rest : List UInt8) : Lexeme :=
  if isLetter b then word (b :: rest.takeWhile isLetter)
  else if isDigit b then number (b :: rest.takeWhile isDigit)
  else symbol b rest

def token (l : Lexeme) : Token := ⟨l.kind, text l.bytes⟩

theorem symbol_kind_ne_eof (b : UInt8) (rest : List UInt8) : (symbol b rest).kind ≠ .eof := by
  unfold symbol
  split
  case h_1 => simp
  case h_2 single found =>
    split
    case h_1 joined => exact TokenKind.withEquals?_ne_eof joined
    case h_2 => exact TokenKind.ofSymbol?_ne_eof found

theorem first_kind_ne_eof (b : UInt8) (rest : List UInt8) : (first b rest).kind ≠ .eof := by
  unfold first
  split
  · exact TokenKind.ofWord_ne_eof _
  · split
    · simp [number]
    · exact symbol_kind_ne_eof b rest

theorem symbol_bytes_positive (b : UInt8) (rest : List UInt8) :
    0 < (symbol b rest).bytes.length := by
  unfold symbol
  split
  · simp
  · split <;> simp

theorem first_bytes_positive (b : UInt8) (rest : List UInt8) :
    0 < (first b rest).bytes.length := by
  unfold first
  split
  · simp [word]
  · split
    · simp [number]
    · exact symbol_bytes_positive b rest

end Lexeme

end LetFrontEnd
