import LetFrontEnd.Proofs.Wording

/- Reading dumps back. A dump is put together from quoted texts and names of kinds by records, lists,
   options and wrappers. Each of these ways to put dumps together keeps one property: what is
   written can be told apart from anything else, whatever is written behind it. -/
namespace LetFrontEnd

namespace Text

/-- What `f` writes fixes what it was written for, and where it ends. -/
def Readable {α : Type} (f : α → String) : Prop :=
  ∀ ⦃a b : α⦄ ⦃r s : List Char⦄, (f a).toList ++ r = (f b).toList ++ s → a = b ∧ r = s

section
variable {α : Type} {f : α → String}

theorem readable_injective (readable : Readable f) : Function.Injective f := by
  intro a b same
  have chars : (f a).toList ++ [] = (f b).toList ++ [] := by rw [same]
  exact (readable chars).1

theorem readable_of_prefix_free (free : ∀ a b, (f a).toList <+: (f b).toList → a = b) :
    Readable f := by
  intro a b r s same
  have here : a = b := by
    rcases List.prefix_or_prefix_of_prefix (List.prefix_append (f a).toList r)
      (same ▸ List.prefix_append (f b).toList s) with shorter | longer
    · exact free a b shorter
    · exact (free b a longer).symm
  subst here
  exact ⟨rfl, List.append_cancel_left same⟩

end

/- Characters of a quoted text. -/

def hexDigit (c : Char) : Nat := "0123456789abcdef".toList.idxOf c

def hexValue (digits : List Char) : Nat := digits.foldl (fun n d => 16 * n + hexDigit d) 0

theorem hexValue_append (digits : List Char) (d : Char) :
    hexValue (digits ++ [d]) = 16 * hexValue digits + hexDigit d := by
  simp [hexValue]

theorem hexValue_toDigits (n : Nat) : hexValue (Nat.toDigits 16 n) = n := by
  have value : ∀ d < 16, hexDigit (Nat.digitChar d) = d := by decide
  induction n using Nat.strongRecOn with
  | ind n ih =>
    rw [Nat.toDigits_eq_if (by decide)]
    split
    · rename_i small
      simpa [hexValue] using value n small
    · rw [hexValue_append, ih (n / 16) (by omega), value (n % 16) (by omega)]
      omega

def shorthands : List (Char × Char) :=
  [('0', '\x00'), ('t', '\t'), ('r', '\r'), ('n', '\n'), ('"', '"'), ('\\', '\\')]

/-- Reads one character of a quoted text, as it stands or as it is spelled. -/
def readChar : List Char → Option (Char × List Char)
  | '\\' :: 'u' :: '\x7b' :: rest =>
    let digits := rest.takeWhile (· != '\x7d')
    some (Char.ofNat (hexValue digits), rest.drop (digits.length + 1))
  | '\\' :: letter :: rest => (shorthands.lookup letter).map (·, rest)
  | c :: rest => some (c, rest)
  | [] => none

theorem readChar_spellCode (c : Char) (rest : List Char) :
    readChar (spellCode c ++ rest) = some (c, rest) := by
  have digits : ∀ d ∈ Nat.toDigits 16 c.toNat, (d != '\x7d') = true := by
    intro d member
    have hex := mem_toDigits member
    have absent : '\x7d' ∉ "0123456789abcdef".toList := by decide
    exact bne_iff_ne.mpr fun same => absent (same ▸ hex)
  have cut : (Nat.toDigits 16 c.toNat ++ '\x7d' :: rest).takeWhile (· != '\x7d') =
      Nat.toDigits 16 c.toNat := by
    rw [List.takeWhile_append_of_pos digits]
    simp
  have shape : spellCode c ++ rest =
      '\\' :: 'u' :: '\x7b' :: (Nat.toDigits 16 c.toNat ++ '\x7d' :: rest) := by
    simp [spellCode]
  rw [shape, readChar, cut, hexValue_toDigits]
  simp

theorem readChar_escape (c : Char) (rest : List Char) :
    readChar (escape c ++ rest) = some (c, rest) := by
  unfold escape
  split
  case h_7 =>
    rename_i zero tab back feed mark slash
    split
    · exact readChar_spellCode c rest
    · rw [List.singleton_append, readChar]
      · intro more same
        exact absurd same slash
      · intro letter more same
        exact absurd same slash
  all_goals rfl

theorem escape_unquoted (c : Char) : ∃ d ds, escape c = d :: ds ∧ d ≠ '"' := by
  unfold escape
  split
  case h_7 =>
    rename_i zero tab back feed mark slash
    split
    · exact ⟨_, _, rfl, by decide⟩
    · exact ⟨_, _, rfl, mark⟩
  all_goals exact ⟨_, _, rfl, by decide⟩

theorem escaped_readable {cs ds r s : List Char}
    (same : cs.flatMap escape ++ '"' :: r = ds.flatMap escape ++ '"' :: s) : cs = ds ∧ r = s := by
  induction cs generalizing ds with
  | nil =>
    cases ds with
    | nil => exact ⟨rfl, (List.cons.inj same).2⟩
    | cons d ds =>
      obtain ⟨x, xs, shape, other⟩ := escape_unquoted d
      rw [List.flatMap_cons, shape] at same
      exact absurd (List.cons.inj same).1.symm other
  | cons c cs ih =>
    cases ds with
    | nil =>
      obtain ⟨x, xs, shape, other⟩ := escape_unquoted c
      rw [List.flatMap_cons, shape] at same
      exact absurd (List.cons.inj same).1 other
    | cons d ds =>
      rw [List.flatMap_cons, List.flatMap_cons, List.append_assoc, List.append_assoc] at same
      have read := congrArg readChar same
      rw [readChar_escape, readChar_escape] at read
      obtain ⟨rfl, rest⟩ := Prod.mk.inj (Option.some.inj read)
      obtain ⟨rfl, later⟩ := ih rest
      exact ⟨rfl, later⟩

theorem quote_readable : Readable quote := by
  intro a b r s same
  simp only [quote, String.toList_ofList, List.cons_append, List.append_assoc, List.nil_append,
    List.cons.injEq, true_and] at same
  obtain ⟨chars, rest⟩ := escaped_readable same
  exact ⟨String.toList_injective chars, rest⟩

theorem join_cons (separator s : String) (rest : List String) :
    (join separator (s :: rest)).toList =
      s.toList ++ rest.flatMap fun t => separator.toList ++ t.toList := by
  induction rest generalizing s with
  | nil => simp [join]
  | cons t rest ih => simp [join, ih]

end Text

namespace Dump
open Text

section
variable {α : Type} {f : α → String} {name : String}

theorem wrap_readable (name : String) (readable : Readable f) :
    Readable fun a => wrap name (f a) := by
  intro a b r s same
  simp only [wrap, String.toList_append, List.append_assoc] at same
  obtain ⟨here, rest⟩ := readable (List.append_cancel_left (List.append_cancel_left same))
  exact ⟨here, List.append_cancel_left rest⟩

theorem option_readable (readable : Readable f) : Readable fun o : Option α => option (o.map f) := by
  intro o p r s same
  cases o with
  | none =>
    cases p with
    | none => exact ⟨rfl, List.append_cancel_left same⟩
    | some b => simp [option, wrap] at same
  | some a =>
    cases p with
    | none => simp [option, wrap] at same
    | some b =>
      obtain ⟨rfl, rest⟩ := wrap_readable "Some" readable same
      exact ⟨rfl, rest⟩

theorem items_readable (readable : Readable f) {as bs : List α} {r s : List Char}
    (same : (as.map f).flatMap (fun t => ", ".toList ++ t.toList) ++ ']' :: r =
      (bs.map f).flatMap (fun t => ", ".toList ++ t.toList) ++ ']' :: s) : as = bs ∧ r = s := by
  induction as generalizing bs with
  | nil =>
    cases bs with
    | nil => exact ⟨rfl, (List.cons.inj same).2⟩
    | cons b bs => simp at same
  | cons a as ih =>
    cases bs with
    | nil => simp at same
    | cons b bs =>
      simp only [List.map_cons, List.flatMap_cons, List.append_assoc] at same
      obtain ⟨rfl, rest⟩ := readable (List.append_cancel_left same)
      obtain ⟨rfl, later⟩ := ih rest
      exact ⟨rfl, later⟩

/-- An item that looks unlike the closing bracket cannot be taken for it. -/
theorem item_unclosed {a : α} (opening : ∃ c, (f a).toList.head? = some c ∧ c ≠ ']')
    (as : List α) (r s : List Char) : (join ", " ((a :: as).map f)).toList ++ r ≠ ']' :: s := by
  obtain ⟨c, first, other⟩ := opening
  obtain ⟨cs, shape⟩ := List.head?_eq_some_iff.mp first
  rw [List.map_cons, join_cons, shape]
  intro same
  exact other (List.cons.inj same).1

theorem list_readable (readable : Readable f)
    (opening : ∀ a, ∃ c, (f a).toList.head? = some c ∧ c ≠ ']') :
    Readable fun as : List α => list (as.map f) := by
  intro as bs r s same
  simp only [list, String.toList_append, List.append_assoc] at same
  have inner := List.append_cancel_left same
  cases as with
  | nil =>
    cases bs with
    | nil => exact ⟨rfl, List.append_cancel_left inner⟩
    | cons b bs => exact absurd inner.symm (item_unclosed (opening b) bs _ _)
  | cons a as =>
    cases bs with
    | nil => exact absurd inner (item_unclosed (opening a) as _ _)
    | cons b bs =>
      rw [List.map_cons, List.map_cons, join_cons, join_cons, List.append_assoc,
        List.append_assoc] at inner
      obtain ⟨rfl, rest⟩ := readable inner
      obtain ⟨rfl, later⟩ := items_readable readable rest
      exact ⟨rfl, later⟩

end

/-- A field of a record: its name, the part of the value that it shows, and how it shows that part. -/
structure Column (α : Type) where
  key : String
  {β : Type}
  part : α → β
  write : β → String
  readable : Readable write

def Column.entry {α : Type} (column : Column α) (a : α) : String × String :=
  (column.key, column.write (column.part a))

section
variable {α : Type} {columns : List (Column α)} {a b : α} {r s : List Char}

theorem column_readable (column : Column α)
    (same : (field (column.entry a)).toList ++ r = (field (column.entry b)).toList ++ s) :
    column.part a = column.part b ∧ r = s := by
  simp only [field, Column.entry, String.toList_append, List.append_assoc] at same
  exact column.readable (List.append_cancel_left (List.append_cancel_left same))

theorem columns_readable
    (same : (columns.map fun column => field (column.entry a)).flatMap
        (fun t => ", ".toList ++ t.toList) ++ r =
      (columns.map fun column => field (column.entry b)).flatMap
        (fun t => ", ".toList ++ t.toList) ++ s) :
    (∀ column ∈ columns, column.part a = column.part b) ∧ r = s := by
  induction columns with
  | nil => exact ⟨by simp, same⟩
  | cons column columns ih =>
    rw [List.map_cons, List.map_cons, List.flatMap_cons, List.flatMap_cons, List.append_assoc,
      List.append_assoc, List.append_assoc, List.append_assoc] at same
    obtain ⟨here, rest⟩ := column_readable column (List.append_cancel_left same)
    obtain ⟨there, later⟩ := ih rest
    exact ⟨List.forall_mem_cons.mpr ⟨here, there⟩, later⟩

/-- A record is readable if its fields show all parts of a value. -/
theorem record_readable (name : String) (columns : List (Column α))
    (fixed : ∀ a b, (∀ column ∈ columns, column.part a = column.part b) → a = b) :
    Readable fun a => record name (columns.map fun column => column.entry a) := by
  intro a b r s same
  simp only [record, String.toList_append, List.append_assoc] at same
  rw [List.map_map, List.map_map] at same
  have inner := List.append_cancel_left (List.append_cancel_left same)
  cases columns with
  | nil => exact ⟨fixed a b (by simp), List.append_cancel_left inner⟩
  | cons column columns =>
    rw [List.map_cons, List.map_cons, join_cons, join_cons, List.append_assoc,
      List.append_assoc] at inner
    obtain ⟨here, rest⟩ := column_readable column inner
    obtain ⟨there, later⟩ := columns_readable rest
    exact ⟨fixed a b (List.forall_mem_cons.mpr ⟨here, there⟩), List.append_cancel_left later⟩

end

end Dump

open Dump Text

theorem TokenKind.name_readable : Readable TokenKind.name := by
  have table : ∀ k ∈ all, ∀ j ∈ all, k.name.toList <+: j.name.toList → k = j := by decide
  apply readable_of_prefix_free
  intro k j front
  exact table k (mem_all k) j (mem_all j) front

def Token.columns : List (Column Token) :=
  [⟨"kind", Token.kind, TokenKind.name, TokenKind.name_readable⟩,
   ⟨"literal", Token.literal, quote, quote_readable⟩]

theorem Token.dump_readable : Readable Token.dump := by
  refine record_readable "Token" Token.columns ?_
  rintro ⟨kind, literal⟩ ⟨other, text⟩ same
  simpa [Token.columns] using same

def Identifier.columns : List (Column Identifier) :=
  [⟨"token", Identifier.token, Token.dump, Token.dump_readable⟩,
   ⟨"value", Identifier.value, quote, quote_readable⟩]

theorem Identifier.dump_readable : Readable Identifier.dump := by
  refine record_readable "Identifier" Identifier.columns ?_
  rintro ⟨token, value⟩ ⟨other, text⟩ same
  simpa [Identifier.columns] using same

theorem value_readable :
    Readable fun o : Option Identifier => option (o.map fun i => wrap "ExprWrapper" i.dump) :=
  option_readable (wrap_readable "ExprWrapper" Identifier.dump_readable)

def Binding.columns : List (Column Binding) :=
  [⟨"token", Binding.token, Token.dump, Token.dump_readable⟩,
   ⟨"name", Binding.name, Identifier.dump, Identifier.dump_readable⟩,
   ⟨"value", Binding.value, _, value_readable⟩]

theorem Binding.dump_readable : Readable Binding.dump := by
  refine record_readable "LetStmt" Binding.columns ?_
  rintro ⟨token, name, value⟩ ⟨other, label, content⟩ same
  simpa [Binding.columns] using same

theorem statements_readable :
    Readable fun ss : List Binding => list (ss.map fun s => wrap "StmtWrapper" s.dump) := by
  refine list_readable (wrap_readable "StmtWrapper" Binding.dump_readable) ?_
  intro s
  exact ⟨'S', by simp [wrap], by decide⟩

def Program.columns : List (Column Program) :=
  [⟨"statements", Program.statements, _, statements_readable⟩]

theorem Program.dump_readable : Readable Program.dump := by
  refine record_readable "Program" Program.columns ?_
  rintro ⟨statements⟩ ⟨others⟩ same
  simpa [Program.columns] using same

namespace ParseError

theorem unrecognised_readable :
    Readable fun text => record "UnrecognisedToken" [("token", quote text)] := by
  refine record_readable "UnrecognisedToken" [⟨"token", id, quote, quote_readable⟩] ?_
  intro text other same
  simpa using same

theorem unexpected_readable : Readable fun kinds : TokenKind × TokenKind =>
    record "UnexpectedToken" [("expected", kinds.1.name), ("received", kinds.2.name)] := by
  refine record_readable "UnexpectedToken"
    [⟨"expected", Prod.fst, TokenKind.name, TokenKind.name_readable⟩,
     ⟨"received", Prod.snd, TokenKind.name, TokenKind.name_readable⟩] ?_
  rintro ⟨expected, received⟩ ⟨wanted, found⟩ same
  simpa using same

theorem Cause.dump_readable : Readable Cause.dump := by
  intro a b r s same
  cases a with
  | unrecognised text =>
    cases b with
    | unrecognised other =>
      obtain ⟨rfl, rest⟩ := unrecognised_readable same
      exact ⟨rfl, rest⟩
    | unexpected wanted found => simp [Cause.dump, record] at same
  | unexpected expected received =>
    cases b with
    | unrecognised other => simp [Cause.dump, record] at same
    | unexpected wanted found =>
      obtain ⟨kinds, rest⟩ :=
        unexpected_readable (a := (expected, received)) (b := (wanted, found)) same
      obtain ⟨rfl, rfl⟩ := Prod.mk.inj kinds
      exact ⟨rfl, rest⟩

def columns : List (Column ParseError) :=
  [⟨"internal_error", ParseError.cause, Cause.dump, Cause.dump_readable⟩,
   ⟨"token", ParseError.token, Token.dump, Token.dump_readable⟩]

theorem dump_readable : Readable ParseError.dump := by
  refine record_readable "Error" columns ?_
  rintro ⟨cause, token⟩ ⟨other, place⟩ same
  simpa [columns] using same

theorem dumpAll_readable : Readable ParseError.dumpAll := by
  refine list_readable dump_readable ?_
  intro e
  exact ⟨'E', by simp [ParseError.dump, record], by decide⟩

end ParseError

/-- A dump identifies what it shows: two programs with the same dump are the same, statement by
statement and field by field, and so are two lists of errors. -/
theorem dumps_identify :
    Function.Injective Program.dump ∧ Function.Injective ParseError.dumpAll :=
  ⟨readable_injective Program.dump_readable, readable_injective ParseError.dumpAll_readable⟩

end LetFrontEnd
