import LetFrontEnd.Proofs.Appending
import LetFrontEnd.Proofs.Findings

/- Places where an input comes apart. Some bytes are never added to what stands before them, so the
   lexer reads the two sides as if each were alone. Of these the semicolon also brings the parser
   back to the start of a statement, in whatever state the left side has left it. -/
namespace LetFrontEnd
open Byte

/-- A byte that extends nothing: no letter, no digit and no equals sign. -/
def Byte.Breaks (b : UInt8) : Prop := isLetter b = false ∧ isDigit b = false ∧ b ≠ 0x3D

instance (b : UInt8) : Decidable (Breaks b) := inferInstanceAs (Decidable (_ ∧ _))

theorem Byte.breaks_of_blank {b : UInt8} (blank : isBlank b = true) : Breaks b := by
  refine ⟨?_, ?_, ?_⟩
  · rw [← Bool.not_eq_true]
    intro letter
    simp [isBlank_of_isLetter letter] at blank
  · rw [← Bool.not_eq_true]
    intro digit
    simp [isBlank_of_isDigit digit] at blank
  · rintro rfl
    exact absurd blank (by decide)

theorem not_takesOn_of_breaks {x : UInt8} (breaks : Breaks x) (t : Token) : ¬ t.TakesOn x := by
  obtain ⟨unlettered, undigit, unequal⟩ := breaks
  rintro (⟨-, letter⟩ | ⟨-, digit⟩ | ⟨-, equals⟩)
  · simp [unlettered] at letter
  · simp [undigit] at digit
  · exact unequal equals

theorem tokens_append_break (a b : List UInt8) {x : UInt8} (breaks : Breaks x) :
    tokens (a ++ x :: b) = tokens a ++ tokens (x :: b) := by
  apply tokens_append_iff_apart.mpr
  rintro ⟨t, y, -, first, takes⟩
  obtain rfl : x = y := Option.some.inj first
  exact not_takesOn_of_breaks breaks t takes

theorem tokens_semicolon (b : List UInt8) :
    tokens (0x3B :: b) = ⟨.semicolon, ";"⟩ :: tokens b := by
  have lone : Lexeme.first 0x3B b = ⟨.semicolon, [0x3B]⟩ := by
    have apart : ¬ Lexeme.Paired 0x3B b := by
      intro paired
      exact absurd paired.1 (by decide)
    rw [Lexeme.first_of_other b (by decide) (by decide), Lexeme.symbol_of_unpaired apart]
    rfl
  have shape : (0x3B :: b).dropWhile isBlank = 0x3B :: b := rfl
  rw [tokens_of_byte shape, lone]
  rfl

def Closed (ts : List Token) : Prop := ∀ t ∈ ts.getLast?, t.kind = .semicolon

instance (ts : List Token) : Decidable (Closed ts) :=
  inferInstanceAs (Decidable (∀ t ∈ ts.getLast?, _))

section
variable {ts : List Token} {k : TokenKind}

theorem closed_suffix {rest : List Token} (closed : Closed ts) (suffix : rest <:+ ts) :
    Closed rest := by
  obtain ⟨front, rfl⟩ := suffix
  intro t last
  apply closed t
  rw [List.getLast?_append, last]
  rfl

theorem closed_tail (closed : Closed ts) : Closed ts.tail :=
  closed_suffix closed (List.tail_suffix ts)

theorem closed_snoc {t : Token} (kind : t.kind = .semicolon) (ts : List Token) :
    Closed (ts ++ [t]) := by
  intro u last
  rw [List.getLast?_concat] at last
  rw [← Option.some.inj last]
  exact kind

theorem tokens_snoc_semicolon (a : List UInt8) :
    tokens (a ++ [0x3B]) = tokens a ++ [⟨.semicolon, ";"⟩] := by
  rw [tokens_append_break a [] (by decide), tokens_semicolon, tokens_of_blank List.dropWhile_nil]

theorem closed_semicolon (a : List UInt8) : Closed (tokens (a ++ [0x3B])) :=
  tokens_snoc_semicolon a ▸ closed_snoc rfl (tokens a)

theorem closed_more (closed : Closed ts) (met : (look ts).is k = true) (inner : k ≠ .eof)
    (going : k ≠ .semicolon) : ts.tail ≠ [] := by
  have kind : (look ts).kind = k := by simpa [Token.is] using met
  intro ended
  cases ts with
  | nil => exact inner kind.symm
  | cons t rest =>
    obtain rfl : rest = [] := ended
    have last : t.kind = .semicolon := closed t rfl
    exact going (kind.symm.trans last)

theorem look_append (some : ts ≠ []) (later : List Token) : look (ts ++ later) = look ts := by
  obtain ⟨t, rest, rfl⟩ := List.exists_cons_of_ne_nil some
  rfl

theorem afterSemicolon_append (closed : Closed ts) (some : ts ≠ []) (later : List Token) :
    afterSemicolon (ts ++ later) = afterSemicolon ts ++ later := by
  have stops : ts.dropWhile (fun t => !t.is .semicolon) ≠ [] := by
    rw [Ne, List.dropWhile_eq_nil_iff]
    intro passed
    have last : (ts.getLast some).kind = .semicolon :=
      closed _ (List.getLast?_eq_some_getLast some)
    have going := passed _ (List.getLast_mem some)
    simp [Token.is, last] at going
  obtain ⟨stop, rest, shape⟩ := List.exists_cons_of_ne_nil stops
  simp [afterSemicolon, List.dropWhile_append, shape]

theorem afterSemicolon_suffix (ts : List Token) : afterSemicolon ts <:+ ts :=
  (List.tail_suffix _).trans (List.dropWhile_suffix _)

end

instance : Append Findings := ⟨fun f g => ⟨f.statements ++ g.statements, f.errors ++ g.errors⟩⟩

/-- What is found behind closed tokens does not depend on them. -/
theorem findings_append {ts : List Token} (closed : Closed ts) (later : List Token) :
    findings (ts ++ later) = findings ts ++ findings later := by
  -- closed tokens never break off inside a binding, so what is looked at is their own
  fun_induction findings ts with
  | case1 => rfl
  | case2 t rest other ih =>
    rw [List.cons_append, findings_of_other other, ih (closed_tail closed)]
  | case3 t rest word unnamed ih =>
    have opens : t.is .letWord = true := by simpa using word
    have some : rest ≠ [] := closed_more closed opens (by decide) (by decide)
    have look_rest := look_append some later
    rw [List.cons_append, findings_of_unnamed opens (look_rest ▸ unnamed), look_rest,
      ih (closed_tail closed)]
    rfl
  | case4 t rest word named unassigned ih =>
    have opens : t.is .letWord = true := by simpa using word
    have name : (look rest).is .ident = true := by simpa using named
    have kept : Closed rest := closed_tail closed
    have some : rest ≠ [] := closed_more closed opens (by decide) (by decide)
    have more : rest.tail ≠ [] := closed_more kept name (by decide) (by decide)
    have tail_rest : (rest ++ later).tail = rest.tail ++ later := List.tail_append_of_ne_nil some
    have look_tail : look (rest ++ later).tail = look rest.tail := by
      rw [tail_rest, look_append more]
    rw [List.cons_append, findings_of_unassigned opens (look_append some later ▸ name)
      (look_tail ▸ unassigned), look_tail, tail_rest, ih (closed_tail kept)]
    rfl
  | case5 t rest word named assigned ih =>
    have opens : t.is .letWord = true := by simpa using word
    have name : (look rest).is .ident = true := by simpa using named
    have equals : (look rest.tail).is .assign = true := by simpa using assigned
    have kept : Closed rest := closed_tail closed
    have some : rest ≠ [] := closed_more closed opens (by decide) (by decide)
    have more : rest.tail ≠ [] := closed_more kept name (by decide) (by decide)
    have value : rest.tail.tail ≠ [] :=
      closed_more (closed_tail kept) equals (by decide) (by decide)
    have tail_rest : (rest ++ later).tail = rest.tail ++ later := List.tail_append_of_ne_nil some
    have look_tail : look (rest ++ later).tail = look rest.tail := by
      rw [tail_rest, look_append more]
    have behind : afterSemicolon (rest ++ later).tail.tail =
        afterSemicolon rest.tail.tail ++ later := by
      rw [tail_rest, List.tail_append_of_ne_nil more,
        afterSemicolon_append (closed_tail (closed_tail kept)) value]
    have left : Closed (afterSemicolon rest.tail.tail) :=
      closed_suffix (closed_tail (closed_tail kept)) (afterSemicolon_suffix _)
    rw [List.cons_append, findings_of_assigned opens (look_append some later ▸ name)
      (look_tail ▸ equals), behind, look_append some, ih left]
    rfl

/-- A semicolon cuts an input in two that are read apart: what stands before it, however it breaks
off, neither hides nor changes nor adds anything behind it. -/
theorem parse_append_semicolon (a b : List UInt8) :
    (parse (.ofBytes (a ++ [0x3B] ++ b))).1.statements =
        (parse (.ofBytes (a ++ [0x3B]))).1.statements ++ (parse (.ofBytes b)).1.statements ∧
      (parse (.ofBytes (a ++ [0x3B] ++ b))).2 =
        (parse (.ofBytes (a ++ [0x3B]))).2 ++ (parse (.ofBytes b)).2 := by
  have all : tokens (a ++ [0x3B] ++ b) = tokens (a ++ [0x3B]) ++ tokens b := by
    rw [tokens_snoc_semicolon, List.append_assoc, List.singleton_append,
      tokens_append_break a b (by decide), tokens_semicolon, List.append_assoc,
      List.singleton_append]
  have parts := findings_append (closed_semicolon a) (tokens b)
  rw [← all] at parts
  obtain ⟨whole_statements, whole_errors⟩ := parse_findings (.ofBytes (a ++ [0x3B] ++ b))
  obtain ⟨left_statements, left_errors⟩ := parse_findings (.ofBytes (a ++ [0x3B]))
  obtain ⟨right_statements, right_errors⟩ := parse_findings (.ofBytes b)
  constructor
  · rw [whole_statements, left_statements, right_statements]
    exact congrArg Findings.statements parts
  · rw [whole_errors, left_errors, right_errors]
    exact congrArg Findings.errors parts

end LetFrontEnd
