import LetFrontEnd.Proofs.Printing
import LetFrontEnd.Proofs.Pulling

/- The trees that a parser builds. A statement keeps two tokens of the stream, the word that opens it
   and the name behind, and the statements keep them in the order of the stream. So a name is
   always a whole word of the input, and never one that the language keeps for itself. -/
namespace LetFrontEnd

def Binding.kept (s : Binding) : List Token := [s.token, s.name.token]

/-- What a statement has to look like: the word that opens a binding, a name that can be bound and
reads like its token, and no value. -/
structure Binding.WellFormed (s : Binding) : Prop where
  opening : s.token = ⟨.letWord, "let"⟩
  kind : s.name.token.kind = .ident
  spelled : s.name.value = s.name.token.literal
  word : IsWord s.name.value
  free : s.name.value ∉ TokenKind.reserved.map Prod.fst
  bare : s.value = none

theorem wellFormed_of_madeOf {bs : List UInt8} {s : Binding} (made : s.MadeOf (tokens bs)) :
    s.WellFormed := by
  obtain ⟨t, u, opens, names, word, kind, rfl⟩ := made
  obtain ⟨letters, free⟩ := name_of_tokens names kind
  exact ⟨let_of_tokens opens word, kind, rfl, letters, free, rfl⟩

theorem findings_kept (ts : List Token) :
    ((findings ts).statements.flatMap Binding.kept).Sublist ts := by
  fun_induction findings ts with
  | case1 => simp
  | case2 t rest other ih => exact ih.cons t
  | case3 t rest word unnamed ih => exact ih.cons t
  | case4 t rest word named unassigned ih =>
    exact (ih.trans (List.tail_sublist rest)).cons t
  | case5 t rest word named assigned ih =>
    obtain ⟨u, others, rfl, -⟩ := look_shape (by simpa using named) (by decide)
    -- the binding keeps two tokens, and what comes later is found behind its value
    have value := (afterSemicolon_suffix others.tail).trans (List.tail_suffix others)
    have later := ih.trans value.sublist
    exact (later.cons_cons u).cons_cons t

theorem names_of_kept {ss : List Binding} (formed : ∀ s ∈ ss, s.WellFormed) :
    (ss.flatMap Binding.kept).filter (·.is .ident) = ss.map fun s => s.name.token := by
  induction ss with
  | nil => rfl
  | cons s rest ih =>
    obtain ⟨first, others⟩ := List.forall_mem_cons.mp formed
    have opening : s.token.is .ident = false := by
      rw [first.opening]
      rfl
    have name : s.name.token.is .ident = true := by simp [Token.is, first.kind]
    simp [Binding.kept, opening, name, ih others]

theorem literal_of_wellFormed {p : Program} (formed : ∀ s ∈ p.statements, s.WellFormed) :
    p.literal = if p.isEmpty then "" else "let" := by
  obtain ⟨statements⟩ := p
  cases statements with
  | nil => rfl
  | cons s rest =>
    have first := (formed s (by simp)).opening
    simp [Program.literal, Program.isEmpty, Binding.literal, first]

theorem upcoming_suffix (c : Cursor) (commands : List Parser.Command) :
    ((Parser.ofCursor c).performed commands).upcoming <:+ c.drain.1 := by
  obtain ⟨n, shows⟩ := Parser.performed_shows c commands
  rw [Parser.upcoming_of_shows shows, Cursor.drain_pulls]
  exact List.drop_suffix n _

/-- Whatever was done with a parser before, every statement of the program that it reads then is well
formed, the names stand in the input in that order, each as a token of its own, and the literal of
the program tells whether it has any statements. -/
theorem parsed_trees_well_formed (bs : List UInt8) (commands : List Parser.Command) :
    let program := ((Parser.ofCursor (.ofBytes bs)).performed commands).parseProgram.1
    (∀ s ∈ program.statements, s.WellFormed) ∧
    (program.statements.map fun s => s.name.token).Sublist ((tokens bs).filter (·.is .ident)) ∧
    (program.literal = "let" ↔ program.isEmpty = false) ∧
    (program.literal = "" ↔ program.isEmpty = true) := by
  intro program
  have suffix := upcoming_suffix (.ofBytes bs) commands
  generalize upcoming : ((Parser.ofCursor (.ofBytes bs)).performed commands).upcoming = ts at suffix
  have found : program.statements = (findings ts).statements := by
    rw [← upcoming]
    exact (Parser.parseStatements_findings (Parser.performed_reads (.ofBytes bs) commands)).1
  have formed : ∀ s ∈ program.statements, s.WellFormed := by
    intro s member
    exact wellFormed_of_madeOf (madeOf_suffix suffix (findings_madeOf (found ▸ member)))
  have kept : (program.statements.flatMap Binding.kept).Sublist (tokens bs) := by
    rw [found]
    exact (findings_kept ts).trans suffix.sublist
  refine ⟨formed, ?_, ?_, ?_⟩
  · rw [← names_of_kept formed]
    exact kept.filter _
  · rw [literal_of_wellFormed formed]
    cases program.isEmpty <;> simp
  · rw [literal_of_wellFormed formed]
    cases program.isEmpty <;> simp

end LetFrontEnd
