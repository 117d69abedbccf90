/- Tokens of the language: a kind, and the text it was read from. -/
namespace LetFrontEnd

inductive TokenKind
  | illegal | eof | ident | int
  | assign | plus | minus | bang | asterisk | slash | lt | gt | eq | notEq
  | comma | semicolon | lParen | rParen | lBrace | rBrace
  | fnWord | letWord | trueWord | falseWord | ifWord | elseWord | returnWord
  deriving DecidableEq, Repr

namespace TokenKind

def all : List TokenKind :=
  [illegal, eof, ident, int, assign, plus, minus, bang, asterisk, slash, lt, gt, eq, notEq,
   comma, semicolon, lParen, rParen, lBrace, rBrace,
   fnWord, letWord, trueWord, falseWord, ifWord, elseWord, returnWord]

theorem mem_all (k : TokenKind) : k ∈ all := by cases k <;> decide

/-- How messages and listings speak of a kind. A symbol is its own label. -/
def label : TokenKind → String
  | illegal => "ILLEGAL"
  | eof => "EOF"
  | ident => "IDENT"
  | int => "INT"
  | assign => "="
  | plus => "+"
  | minus => "-"
  | bang => "!"
  | asterisk => "*"
  | slash => "/"
  | lt => "<"
  | gt => ">"
  | eq => "=="
  | notEq => "!="
  | comma => ","
  | semicolon => ";"
  | lParen => "("
  | rParen => ")"
  | lBrace => "\x7b"
  | rBrace => "\x7d"
  | fnWord => "FUNCTION"
  | letWord => "LET"
  | trueWord => "TRUE"
  | falseWord => "FALSE"
  | ifWord => "IF"
  | elseWord => "ELSE"
  | returnWord => "RETURN"

def name : TokenKind → String
  | illegal => "Illegal"
  | eof => "Eof"
  | ident => "Ident"
  | int => "Int"
  | assign => "Assign"
  | plus => "Plus"
  | minus => "Minus"
  | bang => "Bang"
  | asterisk => "Asterisk"
  | slash => "Slash"
  | lt => "Lt"
  | gt => "Gt"
  | eq => "Eq"
  | notEq => "NotEq"
  | comma => "Comma"
  | semicolon => "Semicolon"
  | lParen => "LParen"
  | rParen => "RParen"
  | lBrace => "LBrace"
  | rBrace => "RBrace"
  | fnWord => "Function"
  | letWord => "Let"
  | trueWord => "True"
  | falseWord => "False"
  | ifWord => "If"
  | elseWord => "Else"
  | returnWord => "Return"

def ofName? (s : String) : Option TokenKind := all.find? (·.name == s)

def reserved : List (String × TokenKind) :=
  [("else", elseWord), ("false", falseWord), ("fn", fnWord), ("if", ifWord),
   ("let", letWord), ("return", returnWord), ("true", trueWord)]

/-- The kind of a word: its own if it is reserved, an identifier otherwise. Case counts. -/
def ofWord (word : String) : TokenKind := (reserved.lookup word).getD ident

def symbols : List (Char × TokenKind) :=
  [('=', assign), ('+', plus), ('-', minus), ('!', bang), ('*', asterisk), ('/', slash),
   ('<', lt), ('>', gt), (',', comma), (';', semicolon), ('(', lParen), (')', rParen),
   ('\x7b', lBrace), ('\x7d', rBrace)]

def ofSymbol? (b : UInt8) : Option TokenKind := symbols.lookup (Char.ofUInt8 b)

/-- The kind a symbol changes to when an equals sign follows it directly. -/
def withEquals? : TokenKind → Option TokenKind
  | assign => some eq
  | bang => some notEq
  | _ => none

theorem mem_of_lookup {α β : Type} [BEq α] [LawfulBEq α] {table : List (α × β)} {key : α} {v : β}
    (found : table.lookup key = some v) : (key, v) ∈ table := by
  obtain ⟨before, after, rfl, _⟩ := List.lookup_eq_some_iff.mp found
  simp

theorem ofWord_ne_eof (word : String) : ofWord word ≠ eof := by
  unfold ofWord
  cases found : reserved.lookup word with
  | none => decide
  | some k =>
    have named : ∀ entry ∈ reserved, entry.2 ≠ eof := by decide
    exact named _ (mem_of_lookup found)

theorem ofSymbol?_ne_eof {b : UInt8} {k : TokenKind} (h : ofSymbol? b = some k) : k ≠ eof := by
  have named : ∀ entry ∈ symbols, entry.2 ≠ eof := by decide
  exact named _ (mem_of_lookup h)

theorem withEquals?_ne_eof {k paired : TokenKind} (h : k.withEquals? = some paired) :
    paired ≠ eof := by
  cases k <;> cases h <;> decide

end TokenKind

structure Token where
  kind : TokenKind
  literal : String
  deriving DecidableEq, Repr

namespace Token

def eof : Token := ⟨.eof, ""⟩

def is (t : Token) (k : TokenKind) : Bool := t.kind = k

def display (t : Token) : String :=
  "\x7bkind: " ++ t.kind.label ++ ", literal: " ++ t.literal ++ "\x7d"

end Token

end LetFrontEnd
