import LetFrontEnd.Log
import LetFrontEnd.Trace

/- A whole run of the program: a greeting, then a session over standard input, with the log on
   the side. The settings that a run finds decide whom it greets and what it logs. -/
namespace LetFrontEnd

abbrev Environment := String → Option String

/-- A name, and how many settings were asked to find it. -/
structure Greeting where
  name : String
  asked : Nat
  deriving DecidableEq, Repr

namespace Greeting

def keys : List String := ["USER", "USERNAME"]

/-- The first setting that is more than blanks, just as it stands. -/
def among (env : Environment) : List String → Greeting
  | [] => ⟨"there", 0⟩
  | key :: rest =>
    match (env key).filter (!Text.allBlank ·) with
    | some name => ⟨name, 1⟩
    | none => let g := among env rest; ⟨g.name, g.asked + 1⟩

def ofEnvironment (env : Environment) : Greeting := among env keys

def text (g : Greeting) : String :=
  "Hello " ++ g.name ++ "! This is the Monkey programming language!\n"
    ++ "Feel free to type in commands\n"

end Greeting

namespace CommandLine

/-- What standard input delivers, and why it broke off after that, if it did not end. -/
structure Input where
  bytes : List UInt8
  failure : Option String
  deriving DecidableEq, Repr

structure Logger where
  filter : Log.Filter
  line : Event → String

def Logger.line? (l : Logger) (e : Event) : Option String :=
  if l.filter.admits e then some (l.line e) else none

def failureLine (reason : String) : String := "Error: " ++ reason

/-- A broken input grants the bytes it delivered and no look at what follows. -/
def Input.limits (input : Input) : Session.Limits :=
  { Session.Limits.unlimited with read := input.failure.map fun _ => input.bytes.length }

def session (input : Input) : Session.Outcome := Session.run input.limits input.bytes

structure Result where
  exit : Nat
  stdout : List UInt8
  stderr : List String
  deriving DecidableEq, Repr

def directives? (env : Environment) : Option String := (env "MONKEY_LOG").or (env "RUST_LOG")

def formatOf (env : Environment) : Log.Format := .ofName ((env "MONKEY_LOG_FORMAT").getD "")

section
variable (s : Log.Subscriber) (env : Environment)

def logger? : Option Logger :=
  (directives? env).map fun text => ⟨s.filter text, s.line (formatOf env)⟩

def notices : List String :=
  match directives? env with
  | none => []
  | some text => (s.filter text).notices

def logLines (events : List Event) : List String :=
  match logger? s env with
  | none => []
  | some l => events.filterMap l.line?

def runWith (input : Input) : Result :=
  let o := session input
  { exit := if o.fault.isSome then 1 else 0
    stdout := Text.utf8 (Greeting.ofEnvironment env).text ++ o.output
    stderr := notices s env ++ logLines s env o.events
      ++ ((o.fault.bind fun _ => input.failure).map failureLine).toList }

end

def run (env : Environment) (input : Input) : Result := runWith Log.byTarget env input

end CommandLine

end LetFrontEnd
