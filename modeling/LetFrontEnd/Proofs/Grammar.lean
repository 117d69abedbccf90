import LetFrontEnd.Proofs.Findings

/- The grammar that the parser accepts. A program is a row of phrases: a token that does not open a
   binding, or a binding with a value that runs to the first semicolon or to the end of the input.
   The value is not looked into, so it may hold anything but a semicolon. -/
namespace LetFrontEnd

inductive Phrase
  | other (t : Token)
  | binding (word name equals : Token) (value : List Token) (stop : Option Token)
  deriving DecidableEq, Repr

def Phrase.statement? : Phrase → Option Binding
  | other _ => none
  | binding word name _ _ _ => some ⟨word, .ofToken name, none⟩

section
variable {value ts : List Token} {stop : Token}

theorem semicolon_free (inside : ∀ t ∈ value, t.kind ≠ .semicolon) :
    ∀ t ∈ value, (!t.is .semicolon) = true := by
  intro t member
  simpa [Token.is] using inside t member

theorem dropWhile_closed (inside : ∀ t ∈ value, t.kind ≠ .semicolon)
    (closes : stop.kind = .semicolon) :
    (value ++ stop :: ts).dropWhile (fun t => !t.is .semicolon) = stop :: ts := by
  rw [List.dropWhile_append_of_pos (semicolon_free inside)]
  simp [Token.is, closes]

end

theorem look_shape {ts : List Token} {k : TokenKind} (met : (look ts).is k = true)
    (inner : k ≠ .eof) : ∃ t rest, ts = t :: rest ∧ t.kind = k := by
  have kind : (look ts).kind = k := by simpa [Token.is] using met
  cases ts with
  | nil => exact absurd kind.symm inner
  | cons t rest => exact ⟨t, rest, rfl, kind⟩

end LetFrontEnd
