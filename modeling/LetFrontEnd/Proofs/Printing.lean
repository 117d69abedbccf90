import LetFrontEnd.Proofs.Grammar
import LetFrontEnd.Proofs.Scanning
import LetFrontEnd.Proofs.Wording

/- Programs written out as text. A binding may be written with any bytes for its value in which no
   semicolon stands; it is read back with its name, and the next one is read apart from it. What
   the parser makes of an input has names that can be written so, and can be read once more. -/
namespace LetFrontEnd
open Byte

/-- A word that can be bound: one the language does not keep for itself. -/
def IsName (s : String) : Prop := IsWord s ∧ s ∉ TokenKind.reserved.map Prod.fst

instance (s : String) : Decidable (IsName s) := inferInstanceAs (Decidable (_ ∧ _))

def Binding.ofName (name : String) : Binding := ⟨⟨.letWord, "let"⟩, ⟨⟨.ident, name⟩, name⟩, none⟩

/-- A binding in writing: its name, and the bytes of its value. -/
structure Clause where
  name : String
  value : List UInt8
  named : IsName name
  inside : 0x3B ∉ value

namespace Clause

def bytes (c : Clause) : List UInt8 :=
  Text.utf8 ("let " ++ c.name ++ " = ") ++ c.value ++ Text.utf8 ";"

end Clause

/-- One clause for each statement. The values are not known to the program and are left out. -/
def Program.print (p : Program) : List UInt8 :=
  p.statements.flatMap fun s => Text.utf8 ("let " ++ s.name.value ++ " = ;")

namespace TokenKind

theorem lookup_reserved_none_iff (s : String) :
    reserved.lookup s = none ↔ s ∉ reserved.map Prod.fst := by
  rw [List.lookup_eq_none_iff, List.mem_map]
  constructor
  · rintro absent ⟨entry, listed, rfl⟩
    simpa using absent entry listed
  · intro absent entry listed
    have other : s ≠ entry.1 := fun same => absent ⟨entry, listed, same.symm⟩
    simpa using other

theorem ofWord_eq_ident_iff (s : String) : ofWord s = ident ↔ s ∉ reserved.map Prod.fst := by
  rw [← lookup_reserved_none_iff]
  unfold ofWord
  cases found : reserved.lookup s with
  | none => simp
  | some k =>
    have table : ∀ entry ∈ reserved, entry.2 ≠ ident := by decide
    simpa using table _ (mem_of_lookup found)

theorem eq_let_of_ofWord {s : String} (kind : ofWord s = letWord) : s = "let" := by
  unfold ofWord at kind
  cases found : reserved.lookup s with
  | none => simp [found] at kind
  | some k =>
    have table : ∀ entry ∈ reserved, entry.2 = letWord → entry.1 = "let" := by decide
    rw [found] at kind
    exact table _ (mem_of_lookup found) kind

theorem ofText_of_word_kind {s : String} {k : TokenKind} (kind : ofText s = k)
    (other : k ≠ int ∧ k ≠ illegal ∧ k ∉ punctuation) : IsWord s ∧ ofWord s = k := by
  unfold ofText at kind
  split at kind
  · rename_i word
    exact ⟨word, kind⟩
  · split at kind
    · exact absurd kind.symm other.1
    · cases found : punctuation.find? (·.label == s) with
      | none =>
        rw [found] at kind
        exact absurd kind.symm other.2.1
      | some mark =>
        rw [found] at kind
        exact absurd (kind ▸ List.mem_of_find?_eq_some found) other.2.2

end TokenKind

section
variable {bs : List UInt8} {t : Token}

theorem let_of_tokens (member : t ∈ tokens bs) (kind : t.kind = .letWord) :
    t = ⟨.letWord, "let"⟩ := by
  obtain ⟨p, -, spelled⟩ := tokens_spelled member
  rw [spelled.token, Token.ofBytes] at kind ⊢
  obtain ⟨-, word⟩ := TokenKind.ofText_of_word_kind kind (by decide)
  rw [TokenKind.eq_let_of_ofWord word]
  rfl

theorem name_of_tokens (member : t ∈ tokens bs) (kind : t.kind = .ident) : IsName t.literal := by
  obtain ⟨p, -, spelled⟩ := tokens_spelled member
  rw [spelled.token, Token.ofBytes] at kind ⊢
  obtain ⟨word, free⟩ := TokenKind.ofText_of_word_kind kind (by decide)
  exact ⟨word, (TokenKind.ofWord_eq_ident_iff _).mp free⟩

theorem semicolon_of_tokens (member : t ∈ tokens bs) (kind : t.kind = .semicolon) : 0x3B ∈ bs := by
  obtain ⟨p, inside, spelled⟩ := tokens_spelled member
  rw [spelled.token, Token.ofBytes] at kind
  have mark : text p = ";" := (TokenKind.ofText_eq_mark_iff (by decide)).mp kind
  have byte : p = [0x3B] := (@text_inj p [0x3B]).mp mark
  exact inside.subset (by simp [byte])

end

section
variable {p rest : List UInt8} {t : Token}

theorem tokens_spelled_gap (spelled : Spells p t) (rest : List UInt8) :
    tokens (p ++ 0x20 :: rest) = t :: tokens rest := by
  apply (tokens_spelled_iff spelled).mpr
  constructor
  · intro b first
    rw [← Option.some.inj first]
    exact blank_not_joined spelled.lexical (by decide)
  · exact tokens_gap ⟨[0x20], List.forall_mem_singleton.mpr (by decide)⟩ rest

theorem utf8_word {s : String} (word : IsWord s) : Text.utf8 s = ofText s := by
  have same : text (ofText s) = s := text_ofText fun c member => latin_of_letter (word.2 c member)
  have letters : ∀ b ∈ ofText s, isLetter b = true := ((isWord_text_iff _).mp (same.symm ▸ word)).2
  have ascii := Text.utf8_text_ascii fun b member => Scanner.ascii_of_letter (letters b member)
  rwa [same] at ascii

theorem tokens_clause (c : Clause) (rest : List UInt8) :
    tokens (c.bytes ++ rest) =
      ⟨.letWord, "let"⟩ :: ⟨.ident, c.name⟩ :: ⟨.assign, "="⟩ ::
        (tokens c.value ++ ⟨.semicolon, ";"⟩ :: tokens rest) := by
  obtain ⟨word, free⟩ := c.named
  have ident : Spells (ofText c.name) ⟨.ident, c.name⟩ := by
    have spelled := word_spells word
    rwa [(TokenKind.ofWord_eq_ident_iff _).mpr free] at spelled
  have opening : Spells (ofText "let") ⟨.letWord, "let"⟩ := word_spells (by decide)
  have equals : Spells (ofText "=") ⟨.assign, "="⟩ := mark_spells (k := .assign) (by decide)
  have written : c.bytes ++ rest = ofText "let" ++ 0x20 :: (ofText c.name ++ 0x20 ::
      (ofText "=" ++ 0x20 :: (c.value ++ 0x3B :: rest))) := by
    have semicolon : Text.utf8 ";" = [0x3B] := by decide
    have lead : Text.utf8 "let " = ofText "let" ++ [0x20] := by decide
    have middle : Text.utf8 " = " = 0x20 :: (ofText "=" ++ [0x20]) := by decide
    simp [Clause.bytes, utf8_word word, semicolon, lead, middle]
  -- a blank ends each of the first three tokens, and the semicolon whatever the value ends with
  rw [written, tokens_spelled_gap opening, tokens_spelled_gap ident, tokens_spelled_gap equals,
    tokens_append_break c.value rest (by decide), tokens_semicolon]

end

theorem findings_clause (c : Clause) (rest : List UInt8) :
    findings (tokens (c.bytes ++ rest)) =
      (findings (tokens rest)).withStatement (.ofName c.name) := by
  have inside : ∀ t ∈ tokens c.value, t.kind ≠ .semicolon := by
    intro t member kind
    exact c.inside (semicolon_of_tokens member kind)
  have left :
      afterSemicolon (tokens c.value ++ ⟨.semicolon, ";"⟩ :: tokens rest) = tokens rest := by
    rw [afterSemicolon, dropWhile_closed inside rfl, List.tail_cons]
  rw [tokens_clause, findings_of_assigned rfl rfl rfl]
  simp only [List.tail_cons, left]
  rfl

theorem findings_clauses (cs : List Clause) :
    findings (tokens (cs.flatMap Clause.bytes)) = ⟨cs.map fun c => .ofName c.name, []⟩ := by
  induction cs with
  | nil => rw [List.flatMap_nil, tokens_of_blank List.dropWhile_nil, findings_nil, List.map_nil]
  | cons c cs ih =>
    rw [List.flatMap_cons, findings_clause, ih]
    rfl

theorem parse_clauses (cs : List Clause) :
    parse (.ofBytes (cs.flatMap Clause.bytes)) = (⟨cs.map fun c => .ofName c.name⟩, []) := by
  obtain ⟨statements, errors⟩ := parse_findings (.ofBytes (cs.flatMap Clause.bytes))
  have found := findings_clauses cs
  unfold tokens at found
  rw [found] at statements errors
  exact Prod.ext (congrArg Program.mk statements) errors

def Binding.MadeOf (s : Binding) (ts : List Token) : Prop :=
  ∃ t u, t ∈ ts ∧ u ∈ ts ∧ t.kind = .letWord ∧ u.kind = .ident ∧ s = ⟨t, .ofToken u, none⟩

theorem madeOf_suffix {left ts : List Token} {s : Binding} (suffix : left <:+ ts)
    (made : s.MadeOf left) : s.MadeOf ts := by
  obtain ⟨t, u, first, second, shape⟩ := made
  exact ⟨t, u, suffix.subset first, suffix.subset second, shape⟩

theorem findings_madeOf {ts : List Token} {s : Binding} (found : s ∈ (findings ts).statements) :
    s.MadeOf ts := by
  fun_induction findings ts with
  | case1 => simp at found
  | case2 t rest other ih => exact madeOf_suffix (List.suffix_cons t rest) (ih found)
  | case3 t rest word unnamed ih => exact madeOf_suffix (List.suffix_cons t rest) (ih found)
  | case4 t rest word named unassigned ih =>
    exact madeOf_suffix ((List.tail_suffix rest).trans (List.suffix_cons t rest)) (ih found)
  | case5 t rest word named assigned ih =>
    rcases List.mem_cons.mp found with rfl | later
    · obtain ⟨u, others, rfl, kind⟩ := look_shape (by simpa using named) (by decide)
      refine ⟨t, u, by simp, by simp, by simpa [Token.is] using word, kind, rfl⟩
    · have value := (List.tail_suffix rest.tail).trans (List.tail_suffix rest)
      have inside := (afterSemicolon_suffix _).trans (value.trans (List.suffix_cons t rest))
      exact madeOf_suffix inside (ih later)

theorem parse_statement {bs : List UInt8} {s : Binding}
    (found : s ∈ (parse (.ofBytes bs)).1.statements) :
    IsName s.name.value ∧ s = .ofName s.name.value := by
  rw [(parse_findings (.ofBytes bs)).1] at found
  obtain ⟨t, u, opens, names, word, kind, rfl⟩ := findings_madeOf found
  refine ⟨name_of_tokens names kind, ?_⟩
  rw [let_of_tokens opens word]
  obtain ⟨k, literal⟩ := u
  cases kind
  rfl

theorem print_clauses {p : Program}
    (named : ∀ s ∈ p.statements, IsName s.name.value ∧ s = .ofName s.name.value) :
    ∃ cs : List Clause, p.print = cs.flatMap Clause.bytes ∧
      p.statements = cs.map fun c => .ofName c.name := by
  obtain ⟨statements⟩ := p
  induction statements with
  | nil => exact ⟨[], rfl, rfl⟩
  | cons s rest ih =>
    obtain ⟨⟨name, same⟩, others⟩ := List.forall_mem_cons.mp named
    obtain ⟨cs, printed, read⟩ := ih others
    refine ⟨⟨s.name.value, [], name, by simp⟩ :: cs, ?_, ?_⟩
    · have ending : Text.utf8 " = ;" = Text.utf8 " = " ++ Text.utf8 ";" := by decide
      unfold Program.print at printed ⊢
      rw [List.flatMap_cons, printed, List.flatMap_cons]
      simp [Clause.bytes, ending]
    · rw [List.map_cons, ← read, ← same]

/-- Bindings that are written out with any values are read back with their names, in order and
without an error. So a program that was read from anything at all can be printed and read again. -/
theorem written_programs_read_back :
    (∀ cs : List Clause, parse (.ofBytes (cs.flatMap Clause.bytes)) =
      (⟨cs.map fun c => .ofName c.name⟩, [])) ∧
    ∀ bs : List UInt8, parse (.ofBytes (parse (.ofBytes bs)).1.print) =
      ((parse (.ofBytes bs)).1, []) := by
  constructor
  · exact parse_clauses
  · intro bs
    obtain ⟨cs, printed, read⟩ := print_clauses fun s => parse_statement
    rw [printed, parse_clauses, ← read]

-- a value may look like the start of another binding
example : IsName "letter" ∧ ¬ IsName "let" ∧ 0x3B ∉ Byte.ofText "= let x = \n!= \xff" := by decide

end LetFrontEnd
