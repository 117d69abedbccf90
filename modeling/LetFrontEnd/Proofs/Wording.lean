import LetFrontEnd.Proofs.Transcript

/- Which characters can stand in what a session writes. User bytes reach the output as literals of
   tokens and, quoted, in messages; a literal holds no blank, and of most marks it holds one alone.
   So no line feed and no second angle bracket comes from there. -/
namespace LetFrontEnd
open Byte

namespace Text

theorem mem_toDigits {n : Nat} {x : Char} (member : x ∈ Nat.toDigits 16 n) :
    x ∈ "0123456789abcdef".toList := by
  have digit : ∀ d < 16, Nat.digitChar d ∈ "0123456789abcdef".toList := by decide
  induction n using Nat.strongRecOn with
  | ind n ih =>
    rw [Nat.toDigits_eq_if (by decide)] at member
    split at member
    · rename_i small
      rw [List.mem_singleton.mp member]
      exact digit n small
    · rcases List.mem_append.mp member with higher | lowest
      · exact ih (n / 16) (by omega) higher
      · rw [List.mem_singleton.mp lowest]
        exact digit _ (by omega)

/-- What a quoted character is spelled with, when it does not stand for itself. -/
def spelling : List Char := "\\\"trnu\x7b\x7d0123456789abcdef".toList

theorem mem_escape {x c : Char} (member : x ∈ escape c) :
    x ∈ spelling ∨ x = c ∧ isInkless c = false := by
  have known : ∀ ys : List Char, ys.all (spelling.contains ·) = true → x ∈ ys → x ∈ spelling := by
    intro ys spelled inside
    simpa using List.all_eq_true.mp spelled x inside
  unfold escape at member
  split at member
  case h_7 =>
    split at member
    · rename_i inkless
      left
      simp only [spellCode, List.mem_append] at member
      rcases member with (opening | digit) | closing
      · exact known _ (by decide) opening
      · exact known _ (by decide) (mem_toDigits digit)
      · exact known _ (by decide) closing
    · rename_i inked
      exact Or.inr ⟨List.mem_singleton.mp member, by simpa using inked⟩
  all_goals exact Or.inl (known _ (by decide) member)

theorem mem_quote {x : Char} {s : String} (member : x ∈ (quote s).toList) :
    x ∈ spelling ∨ x ∈ s.toList ∧ isInkless x = false := by
  have mark : '"' ∈ spelling := by decide
  simp only [quote, String.toList_ofList, List.mem_cons, List.mem_append, List.mem_flatMap,
    List.not_mem_nil, or_false] at member
  rcases member with rfl | ⟨c, inside, escaped⟩ | rfl
  · exact Or.inl mark
  · rcases mem_escape escaped with spelled | ⟨rfl, inked⟩
    · exact Or.inl spelled
    · exact Or.inr ⟨inside, inked⟩
  · exact Or.inl mark

theorem feed_not_mem_quote (s : String) : '\n' ∉ (quote s).toList := by
  intro member
  rcases mem_quote member with spelled | ⟨-, inked⟩
  · exact absurd spelled (by decide)
  · exact absurd inked (by decide)

end Text

theorem tokens_spelled {bs : List UInt8} {t : Token} (member : t ∈ tokens bs) :
    ∃ p, p <:+: bs ∧ Spells p t := by
  have scan := tokens_scans bs
  generalize tokens bs = ts at scan member
  induction scan with
  | done blank => simp at member
  | @token bs p ts best rest ih =>
    have behind : bs.dropWhile isBlank <:+: bs := (List.dropWhile_suffix isBlank).isInfix
    rcases List.mem_cons.mp member with rfl | later
    · exact ⟨p, best.front.isInfix.trans behind, spells_of_longest best⟩
    · obtain ⟨q, inside, spelled⟩ := ih later
      exact ⟨q, inside.trans ((List.drop_suffix _ _).isInfix.trans behind), spelled⟩

section
variable {p : List UInt8} {t : Token} {b : UInt8}

theorem spells_byte (spelled : Spells p t) (member : b ∈ p) :
    isLetter b = true ∨ isDigit b = true ∨ b = 0x3D ∨ b = 0x21 ∨ p = [b] := by
  rcases spelled.lexical with word | number | pair | pair | single
  · exact Or.inl (((isWord_text_iff p).mp word).2 b member)
  · exact Or.inr (Or.inl (((isNumber_text_iff p).mp number).2 b member))
  · rw [(text_eq_double_equals_iff p).mp pair] at member
    have equals : b = 0x3D := by simpa using member
    exact Or.inr (Or.inr (Or.inl equals))
  · rw [(text_eq_bang_equals_iff p).mp pair] at member
    have bang : b = 0x21 ∨ b = 0x3D := by simpa using member
    rcases bang with rfl | rfl <;> simp
  · obtain ⟨x, rfl⟩ := List.length_eq_one_iff.mp single
    obtain rfl := List.mem_singleton.mp member
    simp

theorem spells_unblank (spelled : Spells p t) (member : b ∈ p) : isBlank b = false := by
  rcases spells_byte spelled member with letter | digit | rfl | rfl | rfl
  · exact isBlank_of_isLetter letter
  · exact isBlank_of_isDigit digit
  · decide
  · decide
  · exact spelled.unblank b rfl

theorem spells_char {c : Char} (spelled : Spells p t) (member : c ∈ t.literal.toList) :
    ∃ b ∈ p, Char.ofUInt8 b = c := by
  have literal : t.literal = text p := by rw [spelled.token, Token.ofBytes]
  rw [literal, text_toList] at member
  exact List.mem_map.mp member

theorem blank_not_mem_literal (spelled : Spells p t) (blank : isBlank b = true) :
    Char.ofUInt8 b ∉ t.literal.toList := by
  intro member
  obtain ⟨x, inside, same⟩ := spells_char spelled member
  have unblank := spells_unblank spelled (ofUInt8_inj.mp same ▸ inside)
  exact absurd (blank.symm.trans unblank) (by decide)

end

/-- The literal stays on its line, and an angle bracket in it stands alone. -/
structure Token.Legible (t : Token) : Prop where
  line : '\n' ∉ t.literal.toList
  lone : '>' ∈ t.literal.toList → t.literal = ">"

theorem tokens_legible {bs : List UInt8} {t : Token} (member : t ∈ tokens bs) : t.Legible := by
  obtain ⟨p, -, spelled⟩ := tokens_spelled member
  refine ⟨?_, ?_⟩
  · exact blank_not_mem_literal (b := 0x0A) spelled (by decide)
  · intro angle
    obtain ⟨b, inside, same⟩ := spells_char spelled angle
    obtain rfl : b = 0x3E := (@ofUInt8_inj b 0x3E).mp same
    rcases spells_byte spelled inside with letter | digit | equals | bang | alone
    · exact absurd letter (by decide)
    · exact absurd digit (by decide)
    · exact absurd equals (by decide)
    · exact absurd bang (by decide)
    · rw [spelled.token, alone]
      rfl

theorem eof_legible : Token.eof.Legible := ⟨by decide, by decide⟩

namespace Session

theorem listed_first (t : Token) : (listed t).toList.head? = some '\x7b' := by
  simp [listed, Token.display]

theorem report_first (e : ParseError) : e.report.toList.head? = some 'E' := by
  obtain ⟨cause, token⟩ := e
  cases cause with
  | unrecognised text => simp [ParseError.report, ParseError.tip?]
  | unexpected expected received => simp [ParseError.report, ParseError.tip?]

end Session

namespace ParseError
variable {k : TokenKind} {t : Token}

theorem report_of_illegal (illegal : t.is .illegal = true) :
    (about k t).report =
      "Error: UnrecognisedToken" ++ "\n-> " ++ ("unrecognised token: " ++ Text.quote t.literal)
        ++ "\n" := by
  rw [about, if_pos illegal]
  rfl

theorem report_of_legal (legal : t.is .illegal = false) :
    (about k t).report =
      "Error: " ++ "UnexpectedToken" ++ " (" ++ ("Expected `" ++ k.label ++ "`, found `"
        ++ t.kind.label ++ "` (`" ++ t.literal ++ "`)") ++ ")" ++ "\n-> "
        ++ ("unexpected token: expected " ++ k.label ++ ", received " ++ t.kind.label)
        ++ "\n" := by
  rw [about, if_neg (by simp [legal])]
  rfl

end ParseError

def ParseError.Concerns (e : ParseError) (ts : List Token) : Prop :=
  ∃ k t, (t ∈ ts ∨ t = Token.eof) ∧ e = .about k t

section
variable {left ts : List Token} {e : ParseError}

theorem concerns_suffix (suffix : left <:+ ts) (concerns : e.Concerns left) : e.Concerns ts := by
  obtain ⟨k, t, seen, about⟩ := concerns
  refine ⟨k, t, ?_, about⟩
  rcases seen with member | ending
  · exact Or.inl (suffix.subset member)
  · exact Or.inr ending

theorem about_look_concerns (suffix : left <:+ ts) (k : TokenKind) :
    (ParseError.about k (look left)).Concerns ts := by
  apply concerns_suffix suffix
  cases left with
  | nil => exact ⟨k, _, Or.inr rfl, rfl⟩
  | cons t rest => exact ⟨k, t, Or.inl (List.mem_cons_self ..), rfl⟩

theorem findings_concern (found : e ∈ (findings ts).errors) : e.Concerns ts := by
  fun_induction findings ts with
  | case1 => simp at found
  | case2 t rest other ih => exact concerns_suffix (List.suffix_cons t rest) (ih found)
  | case3 t rest word unnamed ih =>
    have inside := List.suffix_cons t rest
    rcases List.mem_cons.mp found with rfl | later
    · exact about_look_concerns inside .ident
    · exact concerns_suffix inside (ih later)
  | case4 t rest word named unassigned ih =>
    have inside := (List.tail_suffix rest).trans (List.suffix_cons t rest)
    rcases List.mem_cons.mp found with rfl | later
    · exact about_look_concerns inside .assign
    · exact concerns_suffix inside (ih later)
  | case5 t rest word named assigned ih =>
    have value := (List.tail_suffix rest.tail).trans (List.tail_suffix rest)
    have inside := (value.trans (List.suffix_cons t rest))
    exact concerns_suffix ((afterSemicolon_suffix _).trans inside) (ih found)

end

/-- Nothing in the exchange breaks a line or looks like a prompt. -/
structure Session.Exchange.Legible (e : Session.Exchange) : Prop where
  tokens : ∀ t ∈ e.tokens, t.Legible
  errors : ∀ x ∈ e.errors, ∃ k t, t.Legible ∧ x = .about k t

theorem ofLine_legible (line : List UInt8) : (Session.Exchange.ofLine line).Legible := by
  refine ⟨fun t member => tokens_legible member, ?_⟩
  intro x member
  have found : x ∈ (findings (tokens line)).errors := (parse_findings (.ofBytes line)).2 ▸ member
  obtain ⟨k, t, seen, about⟩ := findings_concern found
  refine ⟨k, t, ?_, about⟩
  rcases seen with read | rfl
  · exact tokens_legible read
  · exact eof_legible

theorem exchanges_legible (input : List UInt8) :
    ∀ e ∈ Session.exchanges input, e.Legible := by
  intro e member
  obtain ⟨line, -, rfl⟩ := List.mem_map.mp member
  exact ofLine_legible line

end LetFrontEnd
