import LetFrontEnd.Proofs.Juncture
import LetFrontEnd.Session

/- Reading an input line by line. A line feed extends no token and is a blank, so the tokens of the
   lines in a row are those of the input. Errors agree as well when no line breaks off inside a
   statement. -/
namespace LetFrontEnd
open Byte

namespace Session

/-- The input comes in pieces that end in their only line feed, and then, if anything is left, in a
last one without any. -/
inductive Cuts : List UInt8 → List (List UInt8) → Prop
  | nil : Cuts [] []
  | line {body rest : List UInt8} {ps : List (List UInt8)} (inside : 0x0A ∉ body)
      (later : Cuts rest ps) : Cuts (body ++ 0x0A :: rest) ((body ++ [0x0A]) :: ps)
  | last {body : List UInt8} (inside : 0x0A ∉ body) (some : body ≠ []) : Cuts body [body]

theorem pieces_cuts (bs : List UInt8) : Cuts bs (pieces bs) := by
  induction bs with
  | nil => exact Cuts.nil
  | cons b rest ih =>
    by_cases feed : b = 0x0A
    · subst feed
      have first : Cuts ([] ++ 0x0A :: rest) (([] ++ [0x0A]) :: pieces rest) :=
        Cuts.line (by simp) ih
      simpa [pieces] using first
    · rw [pieces, if_neg feed]
      generalize pieces rest = ps at ih
      cases ih with
      | nil => exact Cuts.last (by simpa using Ne.symm feed) (by simp)
      | @line body later ps inside cut =>
        have longer : (0x0A : UInt8) ∉ b :: body := by
          simp [inside, Ne.symm feed]
        exact Cuts.line longer cut
      | last inside some => exact Cuts.last (by simp [inside, Ne.symm feed]) (by simp)

theorem pieces_line {body : List UInt8} (inside : 0x0A ∉ body) (rest : List UInt8) :
    pieces (body ++ 0x0A :: rest) = (body ++ [0x0A]) :: pieces rest := by
  induction body with
  | nil => simp [pieces]
  | cons b body ih =>
    have other : b ≠ 0x0A := (List.ne_of_not_mem_cons inside).symm
    rw [List.cons_append, pieces, if_neg other, ih (List.not_mem_of_not_mem_cons inside)]
    rfl

def lines (input : List UInt8) : List (List UInt8) := (pieces input).map lineOf

end Session

open Session

theorem tokens_snoc_blank (bs : List UInt8) {x : UInt8} (blank : isBlank x = true) :
    tokens (bs ++ [x]) = tokens bs := by
  have gap : tokens [x] = [] := tokens_of_blank (by simp [blank])
  rw [tokens_append_break bs [] (breaks_of_blank blank), gap, List.append_nil]

theorem tokens_dropFinal (bs : List UInt8) {x : UInt8} (blank : isBlank x = true) :
    tokens (dropFinal x bs) = tokens bs := by
  unfold dropFinal
  split
  · rename_i last
    obtain ⟨front, rfl⟩ := List.getLast?_eq_some_iff.mp last
    rw [List.dropLast_concat, tokens_snoc_blank front blank]
  · rfl

/-- A line ending is made of blanks, so nothing is lost with it. -/
theorem tokens_lineOf (piece : List UInt8) : tokens (lineOf piece) = tokens piece := by
  rw [lineOf, tokens_dropFinal _ (by decide), tokens_dropFinal _ (by decide)]

theorem tokens_feed (rest : List UInt8) : tokens (0x0A :: rest) = tokens rest :=
  tokens_gap ⟨[0x0A], List.forall_mem_singleton.mpr (by decide)⟩ rest

theorem tokens_pieces {bs : List UInt8} {ps : List (List UInt8)} (cut : Cuts bs ps) :
    ps.flatMap tokens = tokens bs := by
  induction cut with
  | nil => exact (tokens_of_blank List.dropWhile_nil).symm
  | @line body rest ps inside later ih =>
    rw [List.flatMap_cons, ih, tokens_snoc_blank body (by decide),
      tokens_append_break body rest (by decide), tokens_feed]
  | last inside some => simp

theorem tokens_lines (input : List UInt8) : (lines input).flatMap tokens = tokens input := by
  rw [lines, List.flatMap_map]
  simp only [tokens_lineOf]
  exact tokens_pieces (pieces_cuts input)

theorem findings_flatten {tss : List (List Token)} (closed : ∀ ts ∈ tss.dropLast, Closed ts) :
    (findings tss.flatten).errors = tss.flatMap fun ts => (findings ts).errors := by
  induction tss with
  | nil => simp
  | cons ts later ih =>
    cases later with
    | nil => simp
    | cons us others =>
      rw [List.dropLast_cons_cons, List.forall_mem_cons] at closed
      rw [List.flatten_cons, findings_append closed.1, List.flatMap_cons, ← ih closed.2]
      rfl

end LetFrontEnd
