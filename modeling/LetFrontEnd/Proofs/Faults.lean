import LetFrontEnd.Proofs.Prompts
import Mathlib.Data.List.DropRight

/- Sessions that are cut short by one limit. Where a session stops can be told from its input and
   its full output: after so many bytes, after so many prompts, or before the first line that is
   not granted. -/
namespace LetFrontEnd.Session

theorem output_prefix (limits : Limits) (steps : List Step) :
    (perform limits steps).view.output <+: steps.flatMap Step.bytes := by
  induction steps generalizing limits with
  | nil => simp
  | cons step rest ih =>
    rw [List.flatMap_cons]
    cases paid : limits.charge step with
    | none =>
      rw [view_refused paid]
      exact (List.take_prefix _ _).trans (List.prefix_append _ _)
    | some left =>
      rw [view_granted paid]
      exact (List.prefix_append_right_inj _).mpr (ih left)

theorem charge_write (n : Nat) (step : Step) :
    Limits.charge ⟨none, some n, none⟩ step =
      if step.bytes.length ≤ n then some ⟨none, some (n - step.bytes.length), none⟩ else none := by
  cases step with
  | write text =>
    by_cases room : (Text.utf8 text).length ≤ n <;> simp [Limits.charge, Step.bytes, room]
  | note e => rfl
  | flush => rfl
  | read piece => rfl

theorem fault_of_bytes {step : Step} (more : 0 < step.bytes.length) :
    step.fault? = some .write := by
  cases step <;> simp_all [Step.bytes, Step.fault?]

theorem view_write_limit (n : Nat) (steps : List Step) :
    (perform ⟨none, some n, none⟩ steps).view =
      ⟨(steps.flatMap Step.bytes).take n,
        if n < (steps.flatMap Step.bytes).length then some .write else none⟩ := by
  induction steps generalizing n with
  | nil => simp
  | cons step rest ih =>
    have paid := charge_write n step
    rw [List.flatMap_cons, List.take_append, List.length_append]
    by_cases room : step.bytes.length ≤ n
    · have beyond : n < step.bytes.length + (rest.flatMap Step.bytes).length ↔
          n - step.bytes.length < (rest.flatMap Step.bytes).length := by omega
      rw [if_pos room] at paid
      rw [view_granted paid, ih, List.take_of_length_le room]
      simp only [View.after, beyond]
    · have none : n - step.bytes.length = 0 := by omega
      rw [if_neg room] at paid
      rw [view_refused paid, fault_of_bytes (by omega), none, List.take_zero, List.append_nil,
        if_pos (by omega)]
      rfl

def Step.Speaks : Step → Prop
  | note _ => True
  | write text => text ≠ ""
  | _ => False

theorem ne_empty_of_head {s : String} {c : Char} (first : s.toList.head? = some c) : s ≠ "" := by
  rintro rfl
  cases first

theorem reply_speaks (line : List UInt8) : ∀ step ∈ reply line, step.Speaks := by
  intro step member
  simp only [reply, listing, review, List.mem_append, List.mem_flatMap, List.mem_map,
    List.mem_cons, List.not_mem_nil, or_false] at member
  rcases member with (⟨t, -, rfl | rfl⟩ | rfl) | ⟨e, -, rfl⟩ | ⟨x, -, rfl⟩
  · trivial
  · exact ne_empty_of_head (listed_first t)
  · trivial
  · trivial
  · exact ne_empty_of_head (report_first x)

theorem view_speech {r f : Option Nat} {steps : List Step} (rest : List Step)
    (speech : ∀ step ∈ steps, step.Speaks) :
    (perform ⟨r, none, f⟩ (steps ++ rest)).view =
      (perform ⟨r, none, f⟩ rest).view.after (steps.flatMap Step.bytes) := by
  induction steps with
  | nil => rfl
  | cons step steps ih =>
    obtain ⟨first, others⟩ := List.forall_mem_cons.mp speech
    have paid : Limits.charge ⟨r, none, f⟩ step = some ⟨r, none, f⟩ := by
      cases step with
      | note e => rfl
      | write text => rfl
      | flush => exact first.elim
      | read piece => exact first.elim
    rw [List.cons_append, view_granted paid, ih others]
    simp [View.after]

theorem view_prompt (r f : Option Nat) (piece : List UInt8) (rest : List Step) :
    (perform ⟨r, none, f⟩ (prompt ++ .read piece :: rest)).view =
      if grants f 1 = false then ⟨promptBytes, some .flush⟩
      else if grants r (demand piece) = false then ⟨promptBytes, some .read⟩
      else (perform ⟨spend piece.length r, none, spend 1 f⟩ rest).view.after promptBytes := by
  have written : Limits.charge ⟨r, none, f⟩ (.write promptText) = some ⟨r, none, f⟩ := rfl
  change (perform _ (.write promptText :: .flush :: .read piece :: rest)).view = _
  rw [view_granted written]
  cases flushes : grants f 1 with
  | false =>
    have refused : Limits.charge ⟨r, none, f⟩ .flush = none := by simp [Limits.charge, flushes]
    rw [view_refused refused]
    rfl
  | true =>
    have flushed : Limits.charge ⟨r, none, f⟩ .flush = some ⟨r, none, spend 1 f⟩ := by
      simp [Limits.charge, flushes]
    rw [view_granted flushed]
    cases reads : grants r (demand piece) with
    | false =>
      have refused : Limits.charge ⟨r, none, spend 1 f⟩ (.read piece) = none := by
        simp [Limits.charge, reads]
      rw [view_refused refused]
      rfl
    | true =>
      have granted : Limits.charge ⟨r, none, spend 1 f⟩ (.read piece) =
          some ⟨spend piece.length r, none, spend 1 f⟩ := by
        simp [Limits.charge, reads]
      rw [view_granted granted]
      rfl

def Exchange.ofPiece (piece : List UInt8) : Exchange := .ofLine (lineOf piece)

theorem exchanges_pieces (input : List UInt8) :
    exchanges input = (pieces input).map Exchange.ofPiece := by
  rw [exchanges, lines, List.map_map]
  rfl

def turns (ps : List (List UInt8)) : List Step := ps.flatMap turn ++ closing

theorem turns_cons (piece : List UInt8) (ps : List (List UInt8)) :
    turns (piece :: ps) = prompt ++ .read piece :: (reply (lineOf piece) ++ turns ps) := by
  simp [turns, turn]

theorem view_turns_cons (r f : Option Nat) (piece : List UInt8) (ps : List (List UInt8)) :
    (perform ⟨r, none, f⟩ (turns (piece :: ps))).view =
      if grants f 1 = false then ⟨promptBytes, some .flush⟩
      else if grants r (demand piece) = false then ⟨promptBytes, some .read⟩
      else (perform ⟨spend piece.length r, none, spend 1 f⟩ (turns ps)).view.after
        (promptBytes ++ (Exchange.ofPiece piece).texts.flatMap Text.utf8) := by
  have replied : (reply (lineOf piece)).flatMap Step.bytes =
      (Exchange.ofPiece piece).texts.flatMap Text.utf8 := by
    rw [bytes_eq_texts, texts_reply]
    rfl
  rw [turns_cons, view_prompt, view_speech _ (reply_speaks _), replied]
  simp only [View.after, List.append_assoc]

theorem view_turns_nil (r f : Option Nat) :
    (perform ⟨r, none, f⟩ (turns [])).view =
      ⟨promptBytes, if grants f 1 = false then some .flush
        else if grants r 1 = false then some .read else none⟩ := by
  have steps : turns [] = prompt ++ .read [] :: [.note .inputExhausted] := rfl
  have noted : ∀ limits, (perform limits [.note .inputExhausted]).view = ⟨[], none⟩ := by
    intro limits
    rw [view_granted rfl, view_nil]
    rfl
  have last : demand [] = 1 := rfl
  rw [steps, view_prompt, noted, last]
  split
  · rfl
  · split <;> simp [View.after]

/-- With `n` flushes granted, the session comes as far as the prompt after `n` lines. -/
theorem view_flush_limit (n : Nat) (ps : List (List UInt8)) :
    (perform ⟨none, none, some n⟩ (turns ps)).view =
      ⟨transcript ((ps.take n).map Exchange.ofPiece),
        if n < ps.length + 1 then some .flush else none⟩ := by
  induction ps generalizing n with
  | nil =>
    rw [view_turns_nil, List.take_nil, List.map_nil, transcript_nil]
    cases n <;> simp
  | cons piece ps ih =>
    rw [view_turns_cons]
    cases n with
    | zero =>
      rw [List.take_zero, List.map_nil, transcript_nil]
      simp
    | succ n =>
      rw [List.take_succ_cons, List.map_cons, transcript_cons]
      simp [ih, View.after]

/-- The bytes up to the last line feed among them, with it. -/
def wholeLines (bs : List UInt8) : List UInt8 := bs.rdropWhile (· != 0x0A)

theorem wholeLines_of_no_feed {bs : List UInt8} (absent : 0x0A ∉ bs) : wholeLines bs = [] := by
  rw [wholeLines, List.rdropWhile_eq_nil_iff]
  intro b member
  have other : b ≠ 0x0A := fun same => absent (same ▸ member)
  simpa using other

theorem wholeLines_line (body rest : List UInt8) :
    wholeLines (body ++ 0x0A :: rest) = body ++ 0x0A :: wholeLines rest := by
  induction rest using List.reverseRecOn with
  | nil => exact List.rdropWhile_concat_neg _ _ _ (by simp)
  | append_singleton rest b ih =>
    have shape : body ++ 0x0A :: (rest ++ [b]) = (body ++ 0x0A :: rest) ++ [b] := by simp
    rw [wholeLines] at ih ⊢
    rw [shape, List.rdropWhile_concat, wholeLines, List.rdropWhile_concat, ih]
    split
    · rfl
    · simp

theorem exchanges_line {body : List UInt8} (inside : 0x0A ∉ body) (rest : List UInt8) :
    exchanges (body ++ 0x0A :: rest) = .ofPiece (body ++ [0x0A]) :: exchanges rest := by
  rw [exchanges_pieces, exchanges_pieces, pieces_line inside, List.map_cons]

theorem exchanges_nil : exchanges [] = [] := rfl

theorem transcript_unfinished {body : List UInt8} (inside : 0x0A ∉ body) (n : Nat) :
    transcript (exchanges (wholeLines (body.take n))) = promptBytes := by
  have absent : 0x0A ∉ body.take n := fun member => inside (List.mem_of_mem_take member)
  rw [wholeLines_of_no_feed absent, exchanges_nil, transcript_nil]

/-- With `n` bytes granted, the session answers the lines that are complete within them, and fails
unless the end of the input can be seen. -/
theorem view_read_limit {bs : List UInt8} {ps : List (List UInt8)} (cut : Cuts bs ps) (n : Nat) :
    (perform ⟨some n, none, none⟩ (turns ps)).view =
      if n ≤ bs.length then ⟨transcript (exchanges (wholeLines (bs.take n))), some .read⟩
      else ⟨transcript (ps.map Exchange.ofPiece), none⟩ := by
  induction cut generalizing n with
  | nil =>
    rw [view_turns_nil, transcript_unfinished (by simp), List.map_nil, transcript_nil]
    cases n <;> simp
  | @line body rest ps inside later ih =>
    have need : demand (body ++ [0x0A]) = body.length + 1 := by simp [demand]
    rw [view_turns_cons, need]
    by_cases room : body.length + 1 ≤ n
    · obtain ⟨k, rfl⟩ := Nat.exists_eq_add_of_le room
      have taken : (body ++ 0x0A :: rest).take (body.length + 1 + k) =
          body ++ 0x0A :: rest.take k := by
        rw [Nat.add_assoc, List.take_length_add_append, Nat.add_comm 1 k, List.take_succ_cons]
      have fits : body.length + 1 + k ≤ (body ++ 0x0A :: rest).length ↔ k ≤ rest.length := by
        simp only [List.length_append, List.length_cons]
        omega
      have unspent : body.length + 1 + k - (body ++ [0x0A]).length = k := by
        simp only [List.length_append, List.length_singleton]
        omega
      rw [taken, wholeLines_line, exchanges_line inside, List.map_cons, transcript_cons,
        transcript_cons]
      simp only [grants_none, grants_some, spend_none, spend_some, unspent, ih k, fits, room,
        decide_true, Bool.true_eq_false, if_false]
      split <;> rfl
    · have taken : (body ++ 0x0A :: rest).take n = body.take n := by
        rw [List.take_append_of_le_length (by omega)]
      have fits : n ≤ (body ++ 0x0A :: rest).length := by
        simp only [List.length_append, List.length_cons]
        omega
      rw [taken, transcript_unfinished inside, if_pos fits]
      simp [room]
  | @last body inside some =>
    -- the piece is complete only once the end has been looked at
    have need : demand body = body.length + 1 := by
      rw [demand, if_neg]
      intro last
      exact inside (List.mem_of_getLast? last)
    rw [view_turns_cons, view_turns_nil, need, transcript_unfinished inside]
    by_cases room : body.length + 1 ≤ n
    · have fits : ¬ n ≤ body.length := by omega
      have more : 1 ≤ n - body.length := by omega
      rw [if_neg fits, List.map_cons, List.map_nil, transcript_cons, transcript_nil]
      simp [room, more, View.after]
    · have fits : n ≤ body.length := by omega
      rw [if_pos fits]
      simp [room]

end LetFrontEnd.Session
