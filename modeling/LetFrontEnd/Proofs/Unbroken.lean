import LetFrontEnd.Log
import LetFrontEnd.Proofs.Chronicle
import LetFrontEnd.Proofs.Prompts

/- Texts that stay on their line. No token has a line feed or a carriage return in its literal, as
   both are blanks, and a message quotes what it repeats. So nothing that is told of a run breaks a
   line, wherever the bytes of the input get into it. -/
namespace LetFrontEnd

namespace Text

/-- Neither a line feed nor a carriage return stands in the text. -/
def Unbroken (s : String) : Prop := '\n' ∉ s.toList ∧ '\r' ∉ s.toList

instance (s : String) : Decidable (Unbroken s) := inferInstanceAs (Decidable (_ ∧ _))

section
variable {s t : String}

@[simp] theorem unbroken_append : Unbroken (s ++ t) ↔ Unbroken s ∧ Unbroken t := by
  simp only [Unbroken, String.toList_append, List.mem_append, not_or]
  exact and_and_and_comm

theorem unbroken_join {ss : List String} (between : Unbroken s) (each : ∀ t ∈ ss, Unbroken t) :
    Unbroken (join s ss) := by
  fun_induction join s ss with
  | case1 => decide
  | case2 t => exact each t (List.mem_singleton_self t)
  | case3 t u rest ih =>
    obtain ⟨first, others⟩ := List.forall_mem_cons.mp each
    simp [first, between, ih others]

@[simp] theorem quote_unbroken (s : String) : Unbroken (quote s) := by
  refine ⟨feed_not_mem_quote s, ?_⟩
  intro member
  rcases mem_quote member with spelled | ⟨-, inked⟩
  · exact absurd spelled (by decide)
  · exact absurd inked (by decide)

@[simp] theorem repr_unbroken (n : Nat) : Unbroken n.repr := by
  have digits : ∀ c ∈ n.repr.toList, c.isDigit = true := by
    intro c member
    rw [Nat.repr_eq_ofList_toDigits, String.toList_ofList] at member
    exact Nat.isDigit_of_mem_toDigits (by decide) (by decide) member
  exact ⟨fun feed => absurd (digits _ feed) (by decide),
    fun back => absurd (digits _ back) (by decide)⟩

theorem feed_not_mem_utf8 (unbroken : Unbroken s) : 0x0A ∉ utf8 s := by
  intro member
  exact unbroken.1 (char_of_mem_utf8 (by decide) member)

end

end Text

open Text

@[simp] theorem TokenKind.label_unbroken (k : TokenKind) : Unbroken k.label := by
  cases k <;> decide

theorem tokens_unbroken {bs : List UInt8} {t : Token} (member : t ∈ tokens bs) :
    Unbroken t.literal := by
  obtain ⟨p, -, spelled⟩ := tokens_spelled member
  constructor
  · exact blank_not_mem_literal (b := 0x0A) spelled (by decide)
  · exact blank_not_mem_literal (b := 0x0D) spelled (by decide)

theorem tokenAt_unbroken (bs : List UInt8) (i : Nat) : Unbroken (tokenAt (tokens bs) i).literal := by
  by_cases inside : i < (tokens bs).length
  · have here : tokenAt (tokens bs) i = (tokens bs)[i] := by simp [tokenAt, inside]
    rw [here]
    exact tokens_unbroken (List.getElem_mem inside)
  · rw [tokenAt_beyond (Nat.le_of_not_lt inside)]
    decide

theorem display_unbroken {t : Token} (unbroken : Unbroken t.literal) : Unbroken t.display := by
  simp only [Token.display, unbroken_append, TokenKind.label_unbroken, unbroken, and_true]
  decide

namespace ParseError

theorem message_unbroken (e : ParseError) : Unbroken e.message := by
  obtain ⟨cause, token⟩ := e
  cases cause with
  | unrecognised text =>
    change Unbroken ("unrecognised token: " ++ quote text)
    exact unbroken_append.mpr ⟨by decide, quote_unbroken text⟩
  | unexpected expected received =>
    change Unbroken
      ("unexpected token: expected " ++ expected.label ++ ", received " ++ received.label)
    simp only [unbroken_append, TokenKind.label_unbroken, and_true]
    decide

def heading (e : ParseError) : String :=
  match e.tip? with
  | none => "Error: " ++ e.name
  | some tip => "Error: " ++ e.name ++ " (" ++ tip ++ ")"

def detail (e : ParseError) : String := "-> " ++ e.message

theorem report_eq (e : ParseError) : e.report = e.heading ++ "\n" ++ (e.detail ++ "\n") := by
  have report : e.report = e.heading ++ "\n-> " ++ e.message ++ "\n" := rfl
  have broken : "\n-> " = "\n" ++ "-> " := by decide
  rw [report, broken, detail]
  simp only [String.append_assoc]

theorem heading_unbroken {e : ParseError} (unbroken : Unbroken e.token.literal) :
    Unbroken e.heading := by
  obtain ⟨cause, token⟩ := e
  cases cause with
  | unrecognised text =>
    change Unbroken ("Error: " ++ "UnrecognisedToken")
    decide
  | unexpected expected received =>
    simp only [heading, tip?, name, Cause.name, unbroken_append, TokenKind.label_unbroken, unbroken,
      and_true]
    decide

theorem detail_unbroken (e : ParseError) : Unbroken e.detail :=
  unbroken_append.mpr ⟨by decide, e.message_unbroken⟩

end ParseError

/- Events, and the lines of the log that tell of them. -/

/-- Whatever the event carries stays on its line when it is written out. -/
def Event.Unbroken (e : Event) : Prop :=
  ∀ field ∈ e.fields, Text.Unbroken (Log.Format.plainValue field.2)

namespace Event

theorem token_unbroken {t : Token} (unbroken : Text.Unbroken t.literal) : (token t).Unbroken :=
  List.forall_mem_cons.mpr ⟨t.kind.label_unbroken, List.forall_mem_singleton.mpr unbroken⟩

theorem parseError_unbroken (e : ParseError) : (parseError e).Unbroken :=
  List.forall_mem_singleton.mpr e.message_unbroken

theorem binding_unbroken {name : String} (unbroken : Text.Unbroken name) :
    (binding name).Unbroken :=
  List.forall_mem_singleton.mpr unbroken

theorem parsedProgram_unbroken (n m : Nat) : (parsedProgram n m).Unbroken :=
  List.forall_mem_cons.mpr ⟨repr_unbroken n, List.forall_mem_singleton.mpr (repr_unbroken m)⟩

/-- The names of the fields are fixed, as are the other words of a line. -/
theorem keys_unbroken (e : Event) : ∀ key ∈ e.fields.map Prod.fst, Text.Unbroken key := by
  cases e with
  | token t => exact (by decide : ∀ key ∈ ["kind", "literal"], Text.Unbroken key)
  | parseError e => exact (by decide : ∀ key ∈ ["error"], Text.Unbroken key)
  | binding name => exact (by decide : ∀ key ∈ ["name"], Text.Unbroken key)
  | parsedProgram n m => exact (by decide : ∀ key ∈ ["statements", "errors"], Text.Unbroken key)
  | sessionStarted => decide
  | inputExhausted => decide

theorem heading_unbroken (e : Event) : Text.Unbroken e.message ∧ Text.Unbroken e.target := by
  cases e with
  | token t => exact (by decide : Text.Unbroken "token" ∧ Text.Unbroken "monkey::lexer::lexer")
  | parseError e =>
    exact (by decide : Text.Unbroken "parse error" ∧ Text.Unbroken "monkey::parser::parser")
  | binding name =>
    exact (by decide : Text.Unbroken "let statement" ∧ Text.Unbroken "monkey::parser::stmt")
  | parsedProgram n m =>
    exact (by decide : Text.Unbroken "parsed program" ∧ Text.Unbroken "monkey::parser::parser")
  | sessionStarted => decide
  | inputExhausted => decide

end Event

theorem Log.Format.plainLine_unbroken {e : Event} (unbroken : e.Unbroken) :
    Text.Unbroken (plainLine e) := by
  obtain ⟨message, target⟩ := e.heading_unbroken
  have level : Text.Unbroken (levelColumn e.level) := by
    cases e.level <;> decide
  have parts : ∀ s ∈ e.message :: e.fields.map plainField, Text.Unbroken s := by
    rw [List.forall_mem_cons, List.forall_mem_map]
    refine ⟨message, ?_⟩
    intro field member
    have key := e.keys_unbroken field.1 (List.mem_map_of_mem member)
    simp only [plainField, unbroken_append, key, unbroken field member, and_true, true_and]
    decide
  have fields : Text.Unbroken (Text.join " " (e.message :: e.fields.map plainField)) :=
    unbroken_join (by decide) parts
  simp only [plainLine, unbroken_append, level, target, fields, and_true, true_and]
  decide

theorem mem_log_cases {log : List Event} {e : Event} (member : e ∈ log) :
    (∃ t ∈ pulled log, e = .token t) ∨ ∃ m ∈ marks 0 log, m.event = e := by
  cases shape : e.token? with
  | some t =>
    exact Or.inl ⟨t, List.mem_filterMap.mpr ⟨e, member, shape⟩, Event.token?_eq_some shape⟩
  | none =>
    obtain ⟨front, back, rfl⟩ := List.append_of_mem member
    rw [marks_split shape]
    exact Or.inr ⟨_, List.mem_append_right _ (List.mem_cons_self ..), rfl⟩

theorem markAt_unbroken (bs : List UInt8) (i : Nat) : (markAt (tokens bs) i).event.Unbroken := by
  by_cases complete : Completes (tokens bs) i
  · simp only [markAt, recordAt_complete complete]
    exact Event.binding_unbroken (tokenAt_unbroken bs (i + 1))
  · obtain ⟨expected, position, record, -⟩ := recordAt_incomplete complete
    simp only [markAt, record]
    exact Event.parseError_unbroken _

theorem parse_unbroken (c : Cursor) :
    ∀ e ∈ (Parser.ofCursor c).parseProgram.2.log, e.Unbroken := by
  intro e member
  obtain ⟨told, marked, -⟩ := parse_chronicle c
  rw [c.drain_eq_tokens] at told marked
  rcases mem_log_cases member with ⟨t, inside, rfl⟩ | ⟨m, inside, rfl⟩
  · rw [told] at inside
    rcases List.mem_append.mp inside with read | ending
    · exact Event.token_unbroken (tokens_unbroken read)
    · rw [List.eq_of_mem_replicate ending]
      exact Event.token_unbroken (by decide)
  · rw [marked] at inside
    rcases List.mem_append.mp inside with live | last
    · obtain ⟨i, -, rfl⟩ := List.mem_map.mp live
      exact markAt_unbroken c.after i
    · rw [List.mem_singleton.mp last]
      exact Event.parsedProgram_unbroken _ _

end LetFrontEnd
