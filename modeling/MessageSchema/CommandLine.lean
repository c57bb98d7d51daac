import MessageSchema.Generator.Invocation
import MessageSchema.Text.Quoted

/-! # The command line program

The program takes a request from its input and writes the response to its output; diagnostics go
to a log.  `Command.ofArguments?` reads the arguments from left to right, `Command.run` is the
whole program as a function of its arguments and its input, and `Event.line` is the form in which
an event stands in the log.

The exit status is zero if the response holds no error, one if it holds one, and two if the
arguments are not understood.

The program here has no help text, knows no log filters but the names of levels, and reads nothing
from its environment (`Command.read`, `rankOfName`, `Settings.maxRank`). -/

namespace MessageSchema

/-! ### Arguments -/

/-- What the arguments set. -/
structure Settings where
  disallow : Bool := false
  logLevel? : Option String := none
deriving DecidableEq, Repr

/-- What the arguments ask for. -/
inductive Command where
  | version
  | process (settings : Settings)
deriving DecidableEq, Repr

namespace Command

/-- The option that forbids undeclared properties. -/
def disallowOption : String := "--disallow-additional-properties"

/-- The option that sets the level of the log. -/
def logLevelOption : String := "--log-level"

/-- Whether `value` may follow an option as its value: it does not look like an option. -/
def isValue (value : String) : Bool := !Text.startsWith '-' value || value = "-"

/-- The value that `arg` attaches to `option` after an equals sign. -/
def attached? (option arg : String) : Option String :=
  let start := (option ++ "=").toList
  if start.isPrefixOf arg.toList then some (String.ofList (arg.toList.drop start.length)) else none

/-- Whether `arg` asks for the version. -/
def asksForVersion (arg : String) : Bool :=
  arg = "--version" || ['-', 'V'].isPrefixOf arg.toList

/-- Read the arguments that remain after some were read into `s`.

Requests for help (`-h`, `--help`) are left out: they are read like an option that is not known, and
the text that would answer them has no counterpart here. -/
def read (s : Settings) : List String → Option Command
  | [] => some (.process s)
  | arg :: rest =>
      if arg = disallowOption then
        if s.disallow then none else read { s with disallow := true } rest
      else if arg = logLevelOption then
        match rest with
        | [] => none
        | value :: rest =>
            if s.logLevel?.isSome || !isValue value then none
            else read { s with logLevel? := some value } rest
      else if asksForVersion arg then some .version
      else if arg = "--" then
        if rest.isEmpty then some (.process s) else none
      else
        match attached? logLevelOption arg with
        | some value =>
            if s.logLevel?.isSome then none else read { s with logLevel? := some value } rest
        | none => none

/-- The command that the arguments give, unless they are not understood. -/
def ofArguments? (args : List String) : Option Command := read {} args

end Command

/-! ### The log -/

/-- The largest rank of the events that a level by name lets through; a name that is not known
lets none through.

Only the bare name of one level is a filter.  Levels written as a digit, directives for a target or
a span and lists of directives are left out: they are read like a name that is not known. -/
def rankOfName (name : String) : Nat :=
  match String.ofList (name.toList.map Char.toLower) with
  | "error" => 1
  | "warn" => 2
  | "info" => 3
  | "debug" => 4
  | "trace" => 5
  | _ => 0

/-- The largest rank of the events that go to the log: the level from the arguments decides, then
the debug parameter.  The filter that `RUST_LOG` may hold is left out, as if it were never set, so
what remains is the level `info`. -/
def Settings.maxRank (s : Settings) (debug : Bool) : Nat :=
  match s.logLevel? with
  | some name => rankOfName name
  | none => if debug then Level.debug.rank else Level.info.rank

/-- A datum in the log. -/
def Datum.shown : Datum → String
  | quoted s => Text.quoted s
  | bare s => s
  | count n => toString n

/-- A named datum in the log; one that is itself called a message goes without name and quotes. -/
def shownNamed : String × Datum → String
  | (name, datum) =>
      if name = "message" then
        match datum with
        | .quoted s | .bare s => Text.unquoted s
        | .count n => toString n
      else name ++ "=" ++ datum.shown

/-- The line of an event in the log. -/
def Event.line (e : Event) : String :=
  e.level.name ++ " " ++ e.target ++ ": " ++ Text.unquoted e.text ++
    String.join (e.data.map fun d => " " ++ shownNamed d)

/-! ### Runs -/

/-- The version text. -/
def versionText : String := "protoc-gen-jsonschema 0.1.0\n"

/-- What a run leaves behind: its exit status, its output and its log. -/
structure Outcome where
  status : Nat
  output : List UInt8 := []
  log : List String := []
deriving DecidableEq, Repr

namespace Settings

/-- The response to an invocation, or to bytes that are none. -/
def answer (s : Settings) : Except InvocationError Invocation → Logged Response
  | .ok invocation => invocation.respond s.disallow
  | .error e => pure e.response

/-- The response to an invocation, with the events of the whole run. -/
def process (s : Settings) (invocation : Except InvocationError Invocation) :
    Logged Response := do
  Logged.emit .runStarted
  let response ← s.answer invocation
  Logged.emit .responseWritten
  Logged.emit (if response.error?.isSome then .runFailed else .runFinished)
  pure response

/-- Whether an invocation asks for a verbose log. -/
def asksForDebug : Except InvocationError Invocation → Bool
  | .ok invocation => invocation.parameters.debug
  | .error _ => false

/-- Run the program on some input. -/
def run (s : Settings) (input : List UInt8) : Outcome :=
  let invocation := Invocation.decode input
  let result := s.process invocation
  let maxRank := s.maxRank (asksForDebug invocation)
  { status := if result.value.error?.isSome then 1 else 0
    output := result.value.encode
    log := (result.events.filter (·.level.rank ≤ maxRank)).map Event.line }

end Settings

/-- Run the program with some arguments on some input. -/
def Command.run (args : List String) (input : List UInt8) : Outcome :=
  match ofArguments? args with
  | none => { status := 2 }
  | some .version => { status := 0, output := utf8 versionText }
  | some (.process settings) => settings.run input

end MessageSchema
