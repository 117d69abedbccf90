import LetFrontEnd.Parser

/- A session as the steps it takes. The input is cut after every line feed; the session prompts,
   reads a line, lists the tokens of that line, and reports what is wrong with it, until the input is
   exhausted. No line knows of another, though all are read into one buffer. -/
namespace LetFrontEnd.Session

/-- The pieces of an input. All but the last end in a line feed, and none is empty. -/
def pieces : List UInt8 → List (List UInt8)
  | [] => []
  | b :: rest =>
    if b = 0x0A then [b] :: pieces rest
    else
      match pieces rest with
      | [] => [[b]]
      | piece :: others => (b :: piece) :: others

theorem pieces_flatten (bs : List UInt8) : (pieces bs).flatten = bs := by
  fun_induction pieces bs <;> simp_all

def dropFinal (b : UInt8) (bs : List UInt8) : List UInt8 :=
  if bs.getLast? = some b then bs.dropLast else bs

/-- A piece without its line ending: one line feed, and then one carriage return, which goes
even when no line feed followed it. -/
def lineOf (piece : List UInt8) : List UInt8 := dropFinal 0x0D (dropFinal 0x0A piece)

/-- How many bytes have to be granted before the reader knows that the piece is complete. A line
feed closes it; otherwise the end of the data has to be looked at too. -/
def demand (piece : List UInt8) : Nat :=
  if piece.getLast? = some 0x0A then piece.length else piece.length + 1

inductive Step
  | note (e : Event)
  | write (text : String)
  | flush
  | read (piece : List UInt8)
  deriving DecidableEq, Repr

def promptText : String := ">> "

def prompt : List Step := [.write promptText, .flush]

def listing (line : List UInt8) : List Step :=
  (tokens line).flatMap (fun t => [.note (.token t), .write (t.display ++ "\n")])
    ++ [.note (.token .eof)]

def review (line : List UInt8) : List Step :=
  let p := (Parser.ofCursor (.ofBytes line)).parseProgram.2
  p.log.map .note ++ p.errors.map fun e => .write e.report

def reply (line : List UInt8) : List Step := listing line ++ review line

def turn (piece : List UInt8) : List Step := prompt ++ .read piece :: reply (lineOf piece)

def closing : List Step := prompt ++ [.read [], .note .inputExhausted]

def script (input : List UInt8) : List Step :=
  .note .sessionStarted :: ((pieces input).flatMap turn ++ closing)

/-- A reader: the bytes it has not handed out yet, and the buffer that they are read into. -/
structure Reader where
  unread : List UInt8
  buffer : List UInt8
  deriving DecidableEq, Repr

namespace Reader

def clear (r : Reader) : Reader := { r with buffer := [] }

def fill (buffer : List UInt8) : List UInt8 → Nat × Reader
  | [] => (0, ⟨[], buffer⟩)
  | b :: rest =>
    if b = 0x0A then (1, ⟨rest, buffer ++ [b]⟩)
    else let (n, r) := fill (buffer ++ [b]) rest; (n + 1, r)

def readLine (r : Reader) : Nat × Reader := fill r.buffer r.unread

theorem fill_unread (buffer unread : List UInt8) :
    (fill buffer unread).1 + (fill buffer unread).2.unread.length = unread.length := by
  induction unread generalizing buffer with
  | nil => rfl
  | cons b rest ih =>
    unfold fill
    split
    · simp [Nat.add_comm]
    · have counted := ih (buffer ++ [b])
      simp only [List.length_cons]
      omega

def converse (r : Reader) : List Step :=
  match _filled : r.clear.readLine with
  | (0, _) => prompt ++ [.read [], .note .inputExhausted]
  | (_ + 1, s) => prompt ++ .read s.buffer :: (reply (lineOf s.buffer) ++ s.converse)
termination_by r.unread.length
decreasing_by
  have counted := fill_unread [] r.unread
  simp only [readLine, clear] at _filled
  rw [_filled] at counted
  simp only at counted
  omega

end Reader

end LetFrontEnd.Session
