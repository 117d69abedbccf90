import LetFrontEnd.Lexeme

/- A place in an input: the bytes already passed, nearest first, and the bytes still to come.
   Pulling a token moves the place and never touches the input. At the end every pull answers
   the end again and stays where it is. -/
namespace LetFrontEnd

structure Cursor where
  before : List UInt8
  after : List UInt8
  deriving DecidableEq, Repr

namespace Cursor

def ofBytes (bs : List UInt8) : Cursor := ⟨[], bs⟩

def input (c : Cursor) : List UInt8 := c.before.reverse ++ c.after

def position (c : Cursor) : Nat := c.before.length

def byte? (c : Cursor) : Option UInt8 := c.after.head?

/-- The place after the byte under the cursor, or the end itself. -/
def nextPosition (c : Cursor) : Nat := min (c.position + 1) c.input.length

def pass : Nat → Cursor → Cursor
  | 0, c => c
  | _ + 1, ⟨before, []⟩ => ⟨before, []⟩
  | n + 1, ⟨before, b :: after⟩ => pass n ⟨b :: before, after⟩

theorem pass_after (n : Nat) (c : Cursor) : (c.pass n).after = c.after.drop n := by
  fun_induction pass n c <;> simp_all

theorem pass_input (n : Nat) (c : Cursor) : (c.pass n).input = c.input := by
  fun_induction pass n c <;> simp_all [input]

def skipBlanks (c : Cursor) : Cursor := c.pass (c.after.takeWhile Byte.isBlank).length

/-- Pulls the token that starts right under the cursor, where no blank stands. -/
def read (c : Cursor) : Token × Cursor :=
  match c.after with
  | [] => (Token.eof, c)
  | b :: rest =>
    let l := Lexeme.first b rest
    (l.token, c.pass l.bytes.length)

/-- Pulls a token; past the last one this is `Token.eof`. -/
def next (c : Cursor) : Token × Cursor := c.skipBlanks.read

/-- Pulls a token; past the last one there is none. -/
def next? (c : Cursor) : Option Token × Cursor :=
  let (t, d) := c.next
  (if t.is .eof then none else some t, d)

theorem skipBlanks_length (c : Cursor) : c.skipBlanks.after.length ≤ c.after.length := by
  simp [skipBlanks, pass_after]

theorem read_length_le (c : Cursor) : c.read.2.after.length ≤ c.after.length := by
  unfold read
  split <;> simp [pass_after]

theorem read_length_lt {c : Cursor} (more : c.read.1.kind ≠ .eof) :
    c.read.2.after.length < c.after.length := by
  unfold read at more ⊢
  split at more
  case h_1 => exact absurd rfl more
  case h_2 b rest shape =>
    have taken := Lexeme.first_bytes_positive b rest
    simp only [pass_after, shape, List.length_drop, List.length_cons]
    omega

theorem next_length_le (c : Cursor) : c.next.2.after.length ≤ c.after.length :=
  Nat.le_trans c.skipBlanks.read_length_le c.skipBlanks_length

theorem next_length_lt {c : Cursor} (more : c.next.1.kind ≠ .eof) :
    c.next.2.after.length < c.after.length :=
  Nat.lt_of_lt_of_le (read_length_lt more) c.skipBlanks_length

theorem next?_length_lt {c d : Cursor} {t : Token} (pulled : c.next? = (some t, d)) :
    d.after.length < c.after.length := by
  have more : c.next.1.kind ≠ .eof := by
    intro last
    simp [next?, Token.is, last] at pulled
  have moved : c.next.2 = d := congrArg Prod.snd pulled
  exact moved ▸ next_length_lt more

def take : Nat → Cursor → List Token × Cursor
  | 0, c => ([], c)
  | n + 1, c =>
    match c.next? with
    | (none, c) => ([], c)
    | (some t, c) => let (ts, c) := take n c; (t :: ts, c)

def drain (c : Cursor) : List Token × Cursor :=
  match _pulled : c.next? with
  | (none, c) => ([], c)
  | (some t, c) => let (ts, c) := drain c; (t :: ts, c)
termination_by c.after.length
decreasing_by exact next?_length_lt _pulled

def drainThroughEnd (c : Cursor) : List Token × Cursor :=
  if _last : c.next.1.kind = .eof then ([c.next.1], c.next.2)
  else let (ts, d) := drainThroughEnd c.next.2; (c.next.1 :: ts, d)
termination_by c.after.length
decreasing_by exact next_length_lt _last

end Cursor

/-- The tokens of an input, without the end. -/
def tokens (bs : List UInt8) : List Token := (Cursor.ofBytes bs).drain.1

def tokensThroughEnd (bs : List UInt8) : List Token := (Cursor.ofBytes bs).drainThroughEnd.1

end LetFrontEnd
