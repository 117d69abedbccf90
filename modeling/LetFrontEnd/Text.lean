import LetFrontEnd.Text.Inkless

/- Texts and their bytes. A text has one encoding; bytes that encode none are read with
   replacements. Messages and dumps quote a text: double quotes around it, a backslash before what
   would be misread, and a number for a character without ink. -/
namespace LetFrontEnd.Text

def utf8 (s : String) : List UInt8 := s.toList.flatMap String.utf8EncodeChar

@[simp] theorem utf8_empty : utf8 "" = [] := rfl

@[simp] theorem utf8_append (s t : String) : utf8 (s ++ t) = utf8 s ++ utf8 t := by
  simp [utf8]

/-- What the first byte of an encoded character asks for: the range of the second byte, and how many
bytes follow in all. -/
structure Lead where
  low : UInt8
  high : UInt8
  count : Nat
  deriving DecidableEq, Repr

def lead? (b : UInt8) : Option Lead :=
  if 0xC2 ≤ b ∧ b ≤ 0xDF then some ⟨0x80, 0xBF, 1⟩
  else if b = 0xE0 then some ⟨0xA0, 0xBF, 2⟩
  else if b = 0xED then some ⟨0x80, 0x9F, 2⟩
  else if 0xE1 ≤ b ∧ b ≤ 0xEF then some ⟨0x80, 0xBF, 2⟩
  else if b = 0xF0 then some ⟨0x90, 0xBF, 3⟩
  else if 0xF1 ≤ b ∧ b ≤ 0xF3 then some ⟨0x80, 0xBF, 3⟩
  else if b = 0xF4 then some ⟨0x80, 0x8F, 3⟩
  else none

def Lead.trail (l : Lead) : List UInt8 → List UInt8
  | [] => []
  | b :: rest =>
    if l.low ≤ b ∧ b ≤ l.high then
      b :: (rest.take (l.count - 1)).takeWhile fun b => 0x80 ≤ b ∧ b ≤ 0xBF
    else []

/-- The character of a complete sequence. One that breaks off is replaced as a whole. -/
def Lead.char (l : Lead) (b : UInt8) (trail : List UInt8) : Char :=
  if trail.length = l.count then
    Char.ofNat (trail.foldl (fun n b => 64 * n + b.toNat % 64) (b.toNat % (64 >>> l.count)))
  else '\ufffd'

def lossyChars : List UInt8 → List Char
  | [] => []
  | b :: rest =>
    if b < 0x80 then Char.ofUInt8 b :: lossyChars rest
    else
      match lead? b with
      | none => '\ufffd' :: lossyChars rest
      | some l => l.char b (l.trail rest) :: lossyChars (rest.drop (l.trail rest).length)
termination_by bs => bs.length

/-- The text of bytes that need not encode any, with a replacement for each sequence that is no
character. -/
def lossy (bs : List UInt8) : String := String.ofList (lossyChars bs)

/- White space in the wide sense: every character with the Unicode property of that name. -/

def isBlank (c : Char) : Bool :=
  (0x09 ≤ c.val && c.val ≤ 0x0D) || c.val == 0x20 || c.val == 0x85 || c.val == 0xA0
    || c.val == 0x1680 || (0x2000 ≤ c.val && c.val ≤ 0x200A) || c.val == 0x2028
    || c.val == 0x2029 || c.val == 0x202F || c.val == 0x205F || c.val == 0x3000

def allBlank (s : String) : Bool := s.toList.all isBlank

def trim (s : String) : String :=
  String.ofList ((s.toList.dropWhile isBlank).reverse.dropWhile isBlank).reverse

def lowerAscii (s : String) : String := String.ofList (s.toList.map Char.toLower)

def join (separator : String) : List String → String
  | [] => ""
  | [s] => s
  | s :: t :: rest => s ++ separator ++ join separator (t :: rest)

def spellCode (c : Char) : List Char :=
  ['\\', 'u', '\x7b'] ++ Nat.toDigits 16 c.toNat ++ ['\x7d']

def escape (c : Char) : List Char :=
  match c with
  | '\x00' => ['\\', '0']
  | '\t' => ['\\', 't']
  | '\r' => ['\\', 'r']
  | '\n' => ['\\', 'n']
  | '"' => ['\\', '"']
  | '\\' => ['\\', '\\']
  | c => if isInkless c then spellCode c else [c]

def quote (s : String) : String := String.ofList ('"' :: (s.toList.flatMap escape ++ ['"']))

end LetFrontEnd.Text
