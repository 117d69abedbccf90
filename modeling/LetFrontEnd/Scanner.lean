import LetFrontEnd.Lexeme
import LetFrontEnd.Text

/- The lexer in registers. A scanner keeps its input whole beside two places in it and the byte at
   the first of them; it moves by single reads, loops on that byte, and cuts a literal out of the
   input by its two ends. Nothing in the registers keeps them consistent or a cut in range. -/
namespace LetFrontEnd

structure Scanner where
  input : List UInt8
  position : Nat
  readPosition : Nat
  byte : Option UInt8
  deriving DecidableEq, Repr

structure Scan where
  token : Token
  cut : Option (Nat × Nat)
  scanner : Scanner
  deriving DecidableEq, Repr

namespace Scanner
open Byte

/-- At the end the place to read next stays put, so that another read changes nothing. -/
def readByte (s : Scanner) : Scanner :=
  { s with
    byte := s.input[s.readPosition]?
    position := s.readPosition
    readPosition := if s.readPosition < s.input.length then s.readPosition + 1 else s.readPosition }

def ofBytes (bs : List UInt8) : Scanner := (Scanner.mk bs 0 0 none).readByte

def peek (s : Scanner) : Option UInt8 := s.input[s.readPosition]?

def unread (s : Scanner) : Nat := 2 * (s.input.length - s.readPosition) + s.byte.toList.length

theorem readByte_unread {s : Scanner} {p : UInt8 → Bool} (going : s.byte.any p = true) :
    s.readByte.unread < s.unread := by
  cases here : s.byte with
  | none => simp [here] at going
  | some b =>
    by_cases more : s.readPosition < s.input.length
    · simp only [unread, readByte, here, if_pos more, Option.toList_some, List.length_singleton,
        List.getElem?_eq_getElem more]
      omega
    · simp [unread, readByte, here, more]

def readWhile (p : UInt8 → Bool) (s : Scanner) : Scanner :=
  if _going : s.byte.any p = true then s.readByte.readWhile p else s
termination_by s.unread
decreasing_by exact readByte_unread _going

/-- The bytes between two places. There is no answer unless the places are in order and in the
input. -/
def slice? (s : Scanner) (start stop : Nat) : Option (List UInt8) :=
  if start ≤ stop ∧ stop ≤ s.input.length then some ((s.input.take stop).drop start) else none

def cutTo (s t : Scanner) (kindOf : String → TokenKind) : Option Scan :=
  (t.slice? s.position t.position).map fun bytes =>
    ⟨⟨kindOf (Text.lossy bytes), Text.lossy bytes⟩, some (s.position, t.position), t⟩

def singleOrPaired (s : Scanner) (single : TokenKind) (paired : Option TokenKind) : Option Scan :=
  match paired with
  | some kind =>
    if s.peek = some 0x3D then s.cutTo s.readByte.readByte fun _ => kind
    else s.cutTo s.readByte fun _ => single
  | none => s.cutTo s.readByte fun _ => single

def scanHere (s : Scanner) : Option Scan :=
  match s.byte with
  | none => some ⟨Token.eof, none, s⟩
  | some b =>
    match TokenKind.ofSymbol? b with
    | some single => s.singleOrPaired single single.withEquals?
    | none =>
      if isLetter b then s.cutTo (s.readWhile isLetter) TokenKind.ofWord
      else if isDigit b then s.cutTo (s.readWhile isDigit) fun _ => .int
      else some ⟨⟨.illegal, String.ofList [Char.ofUInt8 b]⟩, none, s.readByte⟩

/-- Pulls a token. There is no answer when a cut would leave the input. -/
def scan (s : Scanner) : Option Scan := (s.readWhile isBlank).scanHere

def run : Nat → Scanner → Option (List Token × Scanner)
  | 0, s => some ([], s)
  | n + 1, s => s.scan.bind fun first =>
    (first.scanner.run n).map fun (ts, t) => (first.token :: ts, t)

end Scanner

end LetFrontEnd
