import LetFrontEnd.CommandLine

/- The program on a terminal. Each line is answered before the next one is read. -/
namespace LetFrontEnd.Terminal

def perform (logger? : Option CommandLine.Logger) : Session.Step → IO Unit
  | .note e =>
    match logger?.bind (·.line? e) with
    | none => pure ()
    | some line => IO.eprintln line
  | .write text => IO.print text
  | .flush => do (← IO.getStdout).flush
  | .read _ => pure ()

def performAll (logger? : Option CommandLine.Logger) (steps : List Session.Step) : IO Unit :=
  steps.forM (perform logger?)

/-- The next piece of standard input, read byte by byte so that a terminal can answer at once. -/
partial def readPiece (read : List UInt8) : IO (List UInt8) := do
  let chunk ← (← IO.getStdin).read 1
  match chunk.toList with
  | [] => pure read.reverse
  | b :: _ => if b = 0x0A then pure (b :: read).reverse else readPiece (b :: read)

partial def converse (logger? : Option CommandLine.Logger) : IO Unit := do
  performAll logger? Session.prompt
  let piece ← readPiece []
  if piece.isEmpty then perform logger? (.note .inputExhausted)
  else
    performAll logger? (Session.reply (Session.lineOf piece))
    converse logger?

def environment : IO Environment := do
  let names := ["USER", "USERNAME", "MONKEY_LOG", "RUST_LOG", "MONKEY_LOG_FORMAT"]
  let settings ← names.filterMapM fun name => do return (← IO.getEnv name).map (name, ·)
  return fun name => settings.lookup name

def reason : IO.Error → String
  | .inappropriateType _ code details | .permissionDenied _ code details
  | .invalidArgument _ code details | .noSuchThing _ code details
  | .resourceExhausted _ code details | .interrupted _ code details
  | .hardwareFault code details | .illegalOperation code details
  | .resourceVanished code details | .resourceBusy code details
  | .timeExpired code details | .otherError code details =>
    details ++ " (os error " ++ code.toNat.repr ++ ")"
  | e => toString e

end LetFrontEnd.Terminal

open LetFrontEnd in
def main : IO UInt32 := do
  let env ← Terminal.environment
  let logger? := CommandLine.logger? Log.byTarget env
  (CommandLine.notices Log.byTarget env).forM IO.eprintln
  IO.print (Greeting.ofEnvironment env).text
  try
    Terminal.perform logger? (.note .sessionStarted)
    Terminal.converse logger?
    return 0
  catch e =>
    IO.eprintln (CommandLine.failureLine (Terminal.reason e))
    return 1
