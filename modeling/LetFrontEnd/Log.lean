import LetFrontEnd.Event

/- Logging. The program asks a subscriber for a filter, made from a text of directives, and for the
   line that tells of an event. Which events a filter lets through, what is said of directives that
   cannot be read, and how a line is laid out is up to the subscriber. -/
namespace LetFrontEnd.Log

inductive Format
  | text | json
  deriving DecidableEq, Repr

/-- The format a name asks for, in any case and with blanks around it. Plain text is the answer
to every other name. -/
def Format.ofName (name : String) : Format :=
  if Text.lowerAscii (Text.trim name) = "json" then json else text

structure Filter where
  admits : Event → Bool
  notices : List String

/-- A line is taken without the time at which it was written. -/
structure Subscriber where
  filter : String → Filter
  line : Format → Event → String

/-- What the program relies on: the directive `trace` can be read, and lets every event through. -/
structure Subscriber.Traces (s : Subscriber) : Prop where
  admits : ∀ e, (s.filter "trace").admits e = true
  understood : (s.filter "trace").notices = []

/- A subscriber to run the program with. It reads directives that set a level for a target; one that
   asks for spans or fields is beyond it. -/

/-- The empty target stands for all. Without a ceiling nothing is shown. -/
structure Directive where
  target : String
  ceiling : Option Level
  deriving DecidableEq, Repr

inductive Refusal
  | shape | level
  deriving DecidableEq, Repr

def named : List (String × Option Level) :=
  [("off", none), ("error", some .error), ("warn", some .warn), ("info", some .info),
   ("debug", some .debug), ("trace", some .trace)]

def Refusal.message : Refusal → String
  | shape => "invalid filter directive"
  | level => "error parsing level filter: expected one of " ++
      Text.join ", " (named.map fun entry => Text.quote entry.1) ++ ", or a number 0-5"

def ranked : List (Option Level) :=
  [none, some .error, some .warn, some .info, some .debug, some .trace]

def numeral? (s : String) : Option Nat :=
  let digits := match s.toList with
    | '+' :: rest => rest
    | all => all
  if digits ≠ [] ∧ digits.all Char.isDigit then
    some (digits.foldl (fun n c => 10 * n + (c.toNat - '0'.toNat)) 0)
  else none

def ceilingOf? (text : String) : Option (Option Level) :=
  match numeral? text with
  | some rank => ranked[rank]?
  | none => named.lookup (Text.lowerAscii text)

def parts (separator : Char) : List Char → List (List Char)
  | [] => [[]]
  | c :: rest =>
    if c = separator then [] :: parts separator rest
    else
      match parts separator rest with
      | [] => [[c]]
      | part :: others => (c :: part) :: others

def cut (separator : Char) (s : String) : List String :=
  (parts separator s.toList).map String.ofList

namespace Directive

def opens (c : Char) : Bool := c.isAlphanum || c == '-' || c == ':' || c == '_' || 0x80 ≤ c.val

/-- A directive is a ceiling for all, a target with its ceiling, or a target that shows
everything. Blanks in front are passed over to see what it begins with, and for nothing else. -/
def read (text : String) : Except Refusal Directive :=
  if (Text.trim text).toList.head?.any opens then
    match cut '=' text with
    | [name] =>
      match ceilingOf? name with
      | some ceiling => .ok ⟨"", ceiling⟩
      | none => .ok ⟨name, some .trace⟩
    | [target, ""] =>
      if text.toList.head?.any Text.isBlank then .error .level else .ok ⟨target, some .trace⟩
    | [target, name] =>
      match ceilingOf? name with
      | some ceiling =>
        if text.toList.head?.any Text.isBlank then .error .level else .ok ⟨target, ceiling⟩
      | none => .error .level
    | _ => .error .level
  else .error .shape

def notice? (text : String) : Option String :=
  match read text with
  | .ok _ => none
  | .error refusal => some ("ignoring `" ++ text ++ "`: " ++ refusal.message)

def covers (d : Directive) (target : String) : Bool := d.target.toList.isPrefixOf target.toList

def admits (d : Directive) (level : Level) : Bool := d.ceiling.any (level.rank ≤ ·.rank)

end Directive

/-- The directive with the longest target that covers the given one, the last among equals. -/
def deciding? (target : String) : List Directive → Option Directive
  | [] => none
  | d :: rest =>
    match deciding? target rest with
    | none => if d.covers target then some d else none
    | some later =>
      if d.covers target && later.target.length < d.target.length then some d else some later

def orErrors : List Directive → List Directive
  | [] => [⟨"", some .error⟩]
  | directives => directives

def directiveTexts (text : String) : List String := (cut ',' text).filter (· ≠ "")

def directives (text : String) : List Directive :=
  orErrors ((directiveTexts text).filterMap fun text => (Directive.read text).toOption)

def Filter.byTarget (text : String) : Filter :=
  { admits := fun e => (deciding? e.target (directives text)).any (·.admits e.level)
    notices := (directiveTexts text).filterMap Directive.notice? }

namespace Json

def hexDigit (n : Nat) : Char := (Nat.toDigits 16 n).headD '0'

def escape (c : Char) : List Char :=
  match c with
  | '"' => ['\\', '"']
  | '\\' => ['\\', '\\']
  | '\x08' => ['\\', 'b']
  | '\x0c' => ['\\', 'f']
  | '\n' => ['\\', 'n']
  | '\r' => ['\\', 'r']
  | '\t' => ['\\', 't']
  | c =>
    if c.toNat < 0x20 then
      ['\\', 'u', '0', '0', hexDigit (c.toNat / 16), hexDigit (c.toNat % 16)]
    else [c]

def string (s : String) : String := String.ofList ('"' :: (s.toList.flatMap escape ++ ['"']))

def object (members : List (String × String)) : String :=
  "\x7b" ++ Text.join "," (members.map fun (key, value) => string key ++ ":" ++ value) ++ "\x7d"

def value : Event.Value → String
  | .text s => string s
  | .number n => n.repr

end Json

namespace Format

def levelColumn (l : Level) : String :=
  String.ofList (List.replicate (5 - l.label.length) ' ') ++ l.label

/-- A text value stands as it is, without quotes. -/
def plainValue : Event.Value → String
  | .text s => s
  | .number n => n.repr

def plainField (field : String × Event.Value) : String := field.1 ++ "=" ++ plainValue field.2

def plainLine (e : Event) : String :=
  levelColumn e.level ++ " " ++ e.target ++ ": "
    ++ Text.join " " (e.message :: e.fields.map plainField)

def jsonLine (e : Event) : String :=
  Json.object
    [("level", Json.string e.level.label),
     ("fields", Json.object
       (("message", Json.string e.message) :: e.fields.map fun (name, v) => (name, Json.value v))),
     ("target", Json.string e.target)]

def line : Format → Event → String
  | text => plainLine
  | json => jsonLine

end Format

def byTarget : Subscriber := ⟨Filter.byTarget, Format.line⟩

end LetFrontEnd.Log
