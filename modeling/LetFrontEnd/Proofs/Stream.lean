import LetFrontEnd.Cursor

/- What a cursor yields rests on the bytes ahead of it alone, whatever lies behind. Pulling keeps
   the input and only moves the place in it. -/
namespace LetFrontEnd

namespace Cursor

@[simp] theorem ofBytes_after (bs : List UInt8) : (ofBytes bs).after = bs := rfl

@[simp] theorem ofBytes_input (bs : List UInt8) : (ofBytes bs).input = bs := by
  simp [ofBytes, input]

theorem input_length (c : Cursor) : c.input.length = c.position + c.after.length := by
  simp [input, position]

theorem after_eq_drop (c : Cursor) : c.after = c.input.drop c.position := by
  simp [input, position]

theorem skipBlanks_after (c : Cursor) : c.skipBlanks.after = c.after.dropWhile Byte.isBlank := by
  let gap := c.after.takeWhile Byte.isBlank
  calc c.skipBlanks.after
      = c.after.drop gap.length := pass_after _ c
    _ = (gap ++ c.after.dropWhile Byte.isBlank).drop gap.length := by
        rw [List.takeWhile_append_dropWhile]
    _ = c.after.dropWhile Byte.isBlank := List.drop_left

theorem read_input (c : Cursor) : c.read.2.input = c.input := by
  unfold read
  split
  · rfl
  · exact pass_input _ c

@[simp] theorem next_input (c : Cursor) : c.next.2.input = c.input := by
  rw [next, read_input, skipBlanks, pass_input]

theorem next_of_blank {c : Cursor} (blank : c.after.dropWhile Byte.isBlank = []) :
    c.next.1 = Token.eof ∧ c.next.2.after = [] := by
  have none : c.skipBlanks.after = [] := c.skipBlanks_after.trans blank
  unfold next read
  split
  · exact ⟨rfl, none⟩
  · simp_all

theorem next_of_byte {c : Cursor} {b : UInt8} {rest : List UInt8}
    (shape : c.after.dropWhile Byte.isBlank = b :: rest) :
    c.next.1 = (Lexeme.first b rest).token ∧
      c.next.2.after = (b :: rest).drop (Lexeme.first b rest).bytes.length := by
  have some : c.skipBlanks.after = b :: rest := c.skipBlanks_after.trans shape
  unfold next read
  split
  · simp_all
  · rename_i first others found
    obtain ⟨rfl, rfl⟩ := List.cons.inj (found.symm.trans some)
    exact ⟨rfl, by rw [pass_after, found]⟩

theorem next_congr {c d : Cursor} (same : c.after = d.after) :
    c.next.1 = d.next.1 ∧ c.next.2.after = d.next.2.after := by
  cases shape : c.after.dropWhile Byte.isBlank with
  | nil =>
    have here := next_of_blank shape
    have there := next_of_blank (c := d) (same ▸ shape)
    exact ⟨here.1.trans there.1.symm, here.2.trans there.2.symm⟩
  | cons b rest =>
    have here := next_of_byte shape
    have there := next_of_byte (c := d) (same ▸ shape)
    exact ⟨here.1.trans there.1.symm, here.2.trans there.2.symm⟩

/-- The end is only answered where no bytes but blanks are left, and then as `Token.eof`. -/
theorem next_eof {c : Cursor} (last : c.next.1.kind = .eof) :
    c.next.1 = Token.eof ∧ c.next.2.after = [] := by
  cases shape : c.after.dropWhile Byte.isBlank with
  | nil => exact next_of_blank shape
  | cons b rest =>
    rw [(next_of_byte shape).1] at last
    exact absurd last (Lexeme.first_kind_ne_eof b rest)

theorem drain_of_eof {c : Cursor} (last : c.next.1.kind = .eof) : c.drain = ([], c.next.2) := by
  rw [drain]
  split
  · rename_i d pulled
    simp only [next?, Prod.mk.injEq] at pulled
    rw [pulled.2]
  · rename_i t d pulled
    simp [next?, Token.is, last] at pulled

theorem drain_of_token {c : Cursor} (more : c.next.1.kind ≠ .eof) :
    c.drain = (c.next.1 :: c.next.2.drain.1, c.next.2.drain.2) := by
  rw [drain]
  split
  · rename_i d pulled
    simp [next?, Token.is, more] at pulled
  · rename_i t d pulled
    simp only [next?, Token.is, more, decide_false, Bool.false_eq_true, if_false, Prod.mk.injEq,
      Option.some.injEq] at pulled
    rw [pulled.1, pulled.2]

theorem drain_congr {c d : Cursor} (same : c.after = d.after) : c.drain.1 = d.drain.1 := by
  induction size : c.after.length using Nat.strongRecOn generalizing c d with
  | ind n ih =>
    obtain ⟨token, after⟩ := next_congr same
    by_cases last : c.next.1.kind = .eof
    · rw [drain_of_eof last, drain_of_eof (token ▸ last)]
    · rw [drain_of_token last, drain_of_token (c := d) (token ▸ last), ← token]
      have shorter := next_length_lt last
      rw [ih _ (size ▸ shorter) after rfl]

theorem drain_eq_tokens (c : Cursor) : c.drain.1 = tokens c.after := drain_congr rfl

theorem drain_ne_eof {c : Cursor} {t : Token} (member : t ∈ c.drain.1) : t.kind ≠ .eof := by
  induction size : c.after.length using Nat.strongRecOn generalizing c with
  | ind n ih =>
    by_cases last : c.next.1.kind = .eof
    · simp [drain_of_eof last] at member
    · rw [drain_of_token last] at member
      rcases List.mem_cons.mp member with rfl | later
      · exact last
      · exact ih _ (size ▸ next_length_lt last) later rfl

theorem drainThroughEnd_eq (c : Cursor) : c.drainThroughEnd.1 = c.drain.1 ++ [Token.eof] := by
  fun_induction drainThroughEnd c with
  | case1 c last => simp [drain_of_eof last, (next_eof last).1]
  | case2 c more ts d rest ih => simp_all [drain_of_token more]

def pulls : Nat → Cursor → Cursor
  | 0, c => c
  | n + 1, c => pulls n c.next.2

@[simp] theorem pulls_input (n : Nat) (c : Cursor) : (c.pulls n).input = c.input := by
  induction n generalizing c with
  | zero => rfl
  | succ n ih => rw [pulls, ih, next_input]

end Cursor

theorem tokens_of_blank {bs : List UInt8} (blank : bs.dropWhile Byte.isBlank = []) :
    tokens bs = [] := by
  have last : (Cursor.ofBytes bs).next.1 = Token.eof := (Cursor.next_of_blank blank).1
  rw [tokens, Cursor.drain_of_eof (by rw [last]; rfl)]

theorem tokens_of_byte {bs : List UInt8} {b : UInt8} {rest : List UInt8}
    (shape : bs.dropWhile Byte.isBlank = b :: rest) :
    tokens bs = (Lexeme.first b rest).token ::
      tokens ((b :: rest).drop (Lexeme.first b rest).bytes.length) := by
  obtain ⟨token, after⟩ := Cursor.next_of_byte (c := .ofBytes bs) shape
  have more : (Cursor.ofBytes bs).next.1.kind ≠ .eof := by
    rw [token]
    exact Lexeme.first_kind_ne_eof b rest
  rw [tokens, Cursor.drain_of_token more, Cursor.drain_eq_tokens, token, after]

end LetFrontEnd
