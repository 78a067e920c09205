import Perdure.Text.Digits

/-!
# Command line arguments

What the program is asked to do.  Options may stand before or after the command, a value may follow
its option or be joined to it by an equals sign, and after two hyphens nothing is an option.

A joined value is looked at where it stands.  A value that follows its option is held back until the
next option or the end; a command between them is read first, so that its help and its faults come
before a fault in the value held back.

## Main definitions

* `Command`, `Invocation` — a command, and the data folder it works on.
* `Asked` — what the arguments ask for.
* `Asked.ofArguments` — read the arguments.
-/

namespace Perdure

/-- What the program can do. -/
inductive Command where
  /-- Run the engine and deploy what appears. -/
  | serve (pollMillis : Nat) (workers : Nat) (retryFailed : Bool)
  /-- Start one instance of a deployed process. -/
  | start (processId : String)
  /-- Bring stored states up to date. -/
  | migrate
deriving DecidableEq, Repr

/-- A command and the data folder it works on. -/
structure Invocation where
  dataFolder : Option String
  command : Option Command
deriving DecidableEq, Repr

/-- A topic of the help texts. -/
inductive HelpTopic where
  | program
  | serve
  | start
  | migrate
  | help
deriving DecidableEq, Repr

/-- What the arguments ask for. -/
inductive Asked where
  | run (i : Invocation)
  | version
  /-- Help on a topic, in full or as a summary. -/
  | help (topic : HelpTopic) (full : Bool)
deriving DecidableEq, Repr

/-- The arguments ask for nothing that the program can do. -/
inductive UsageError where
  | unknownArgument (argument : String)
  | unknownCommand (name : String)
  | missingValue (option : String)
  | unexpectedValue (option : String)
  | invalidValue (option value : String)
  | repeated (option : String)
  | missingArgument (name : String)
deriving DecidableEq, Repr

/-- The wording of a usage error. -/
def UsageError.message : UsageError → String
  | .unknownArgument argument => s!"unexpected argument '{argument}' found"
  | .unknownCommand name => s!"unrecognized subcommand '{name}'"
  | .missingValue option => s!"a value is required for '{option}' but none was supplied"
  | .unexpectedValue option => s!"unexpected value for '{option}' found; no more were expected"
  | .invalidValue option value => s!"invalid value '{value}' for '{option}'"
  | .repeated option => s!"the argument '{option}' cannot be used multiple times"
  | .missingArgument name => s!"the following required arguments were not provided: {name}"

namespace CommandLine

/-- An option. -/
inductive Flag where
  | dataFolder
  | pollMillis
  | workers
  | retryFailed
  | help
  /-- Help by its letter, which asks for a summary. -/
  | summary
  | version
deriving DecidableEq, Repr

/-- The written name of an option. -/
def Flag.name : Flag → String
  | .dataFolder => "--data-dir"
  | .pollMillis => "--poll-interval-ms"
  | .workers => "--workers"
  | .retryFailed => "--retry-failed-deployments"
  | .help => "--help"
  | .summary => "-h"
  | .version => "--version"

/-- Does an option need a value? -/
def Flag.takesValue : Flag → Bool
  | .dataFolder | .pollMillis | .workers => true
  | .retryFailed | .help | .summary | .version => false

/-- An argument as it is written. -/
inductive Token where
  /-- Two hyphens alone. -/
  | terminator
  /-- An option by its long name, with the value joined to it. -/
  | long (name : String) (value : Option String)
  /-- Letters after one hyphen. -/
  | short (letters : List Char)
  | plain (text : String)
deriving DecidableEq, Repr

/-- How an argument is written. -/
def Token.ofArgument (argument : String) : Token :=
  match argument.toList with
  | ['-', '-'] => .terminator
  | '-' :: '-' :: _ =>
    let name := argument.toList.takeWhile (· != '=')
    match argument.toList.drop name.length with
    | _ :: value => .long (String.ofList name) (some (String.ofList value))
    | [] => .long (String.ofList name) none
  | '-' :: letter :: letters => .short (letter :: letters)
  | _ => .plain argument

/-- What was read of one command so far. -/
structure Reading where
  /-- The options given, with their values. -/
  given : List (Flag × String) := []
  /-- The last option, while its value is still to be looked at. -/
  held : Option (Flag × String) := none
  /-- The arguments that are no options. -/
  positional : List String := []
deriving DecidableEq, Repr

/-- The value of an option. -/
def Reading.value? (r : Reading) (flag : Flag) : Option String := r.given.lookup flag

/-- A number of 64 bits, in decimal. -/
def word? (s : String) : Option Nat := do
  let ds := match s.toList with
    | '+' :: rest => rest
    | cs => cs
  if ds.isEmpty then none
  let n := Text.ofDigits (← ds.mapM Text.digit?)
  if n < UInt64.size then some n else none

/-- Is this a value that an option can have? -/
def Flag.accepts (flag : Flag) (value : String) : Bool :=
  match flag with
  | .dataFolder => !value.isEmpty
  | .pollMillis | .workers => (word? value).isSome
  | _ => true

/-- Note an option with its value, which must be one that it can have, and the only one. -/
def Reading.note (r : Reading) (flag : Flag) (value : String) : Except UsageError Reading :=
  if (r.value? flag).isSome then .error (.repeated flag.name)
  else if flag.accepts value then .ok { r with given := r.given ++ [(flag, value)] }
  else .error (.invalidValue flag.name value)

/-- Look at the value that was held back. -/
def Reading.settle (r : Reading) : Except UsageError Reading :=
  match r.held with
  | none => .ok r
  | some (flag, value) => { r with held := none }.note flag value

/-- An option with its value, looked at now. -/
def Reading.give (r : Reading) (flag : Flag) (value : String) : Except UsageError Reading := do
  (← r.settle).note flag value

/-- An option with its value, to be looked at later. -/
def Reading.hold (r : Reading) (flag : Flag) (value : String) : Except UsageError Reading := do
  pure { ← r.settle with held := some (flag, value) }

/-- What one level of arguments comes to. -/
inductive Level where
  /-- All arguments are read. -/
  | done (r : Reading)
  /-- An option that answers at once. -/
  | answer (flag : Flag)
  /-- A command, and the arguments after it; a value before it may still be held back. -/
  | command (r : Reading) (name : String) (rest : List String)

/-- How the arguments of a command are read. -/
structure Grammar where
  flags : List Flag
  commands : List String
  /-- How many arguments are no options. -/
  positionals : Nat

namespace Grammar

/-- Take an argument that is no option. -/
def position (g : Grammar) (r : Reading) (text : String) : Except UsageError Reading := do
  let r ← r.settle
  if r.positional.length < g.positionals then
    pure { r with positional := r.positional ++ [text] }
  else if g.commands.isEmpty then throw (.unknownArgument text)
  else throw (.unknownCommand text)

/-- An option that answers at once, if nothing before it is at fault. -/
def answer (r : Reading) (flag : Flag) : Except UsageError Level := do
  let _ ← r.settle
  pure (.answer flag)

/-- The option of a long name. -/
def long? (g : Grammar) (name : String) : Option Flag := g.flags.find? (·.name = name)

/-- The option of one letter. -/
def short? (g : Grammar) (letter : Char) : Option Flag :=
  let flag := match letter with
    | 'h' => some Flag.summary
    | 'V' => some .version
    | _ => none
  flag.filter g.flags.contains

/-- Read the arguments of a command from left to right. -/
def level (g : Grammar) (r : Reading) : List String → Except UsageError Level
  | [] => do pure (.done (← r.settle))
  | argument :: rest => match Token.ofArgument argument with
    | .terminator => do
      pure (.done (← (← rest.foldlM g.position r).settle))
    | .plain text =>
      if g.commands.contains text then .ok (.command r text rest)
      else do g.level (← g.position r text) rest
    | .short letters => match letters with
      | letter :: _ => match g.short? letter with
        | some flag => answer r flag
        | none => .error (.unknownArgument argument)
      | [] => .error (.unknownArgument argument)
    | .long name value => match g.long? name with
      | none => .error (.unknownArgument name)
      | some flag =>
        if !flag.takesValue then
          match value with
          | some _ => .error (.unexpectedValue flag.name)
          | none =>
            if flag = .retryFailed then do g.level (← r.give flag "") rest
            else answer r flag
        else match value with
          | some value => do g.level (← r.give flag value) rest
          | none => match rest with
            | [] => .error (.missingValue flag.name)
            | value :: rest => match Token.ofArgument value with
              | .plain value => do g.level (← r.hold flag value) rest
              | _ => .error (.missingValue flag.name)

/-- The options before a command. -/
def program : Grammar where
  flags := [.dataFolder, .help, .summary, .version]
  commands := ["serve", "start", "migrate", "help"]
  positionals := 0

/-- The arguments of `serve`. -/
def serve : Grammar where
  flags := [.dataFolder, .pollMillis, .workers, .retryFailed, .help, .summary]
  commands := []
  positionals := 0

/-- The arguments of `start`. -/
def start : Grammar where
  flags := [.dataFolder, .help, .summary]
  commands := []
  positionals := 1

/-- The arguments of `migrate`. -/
def migrate : Grammar where
  flags := [.dataFolder, .help, .summary]
  commands := []
  positionals := 0

end Grammar

/-- The topic of a command. -/
def topic? : String → Option HelpTopic
  | "serve" => some .serve
  | "start" => some .start
  | "migrate" => some .migrate
  | "help" => some .help
  | _ => none

/-- The help that is asked for by name. -/
def helpOn : List String → Except UsageError Asked
  | [] => .ok (.help .program true)
  | [name] => match topic? name with
    | some topic => .ok (.help topic true)
    | none => .error (.unknownCommand name)
  | name :: other :: _ => match topic? name with
    | some _ => .error (.unknownCommand other)
    | none => .error (.unknownCommand name)

/-- The answer to an option that answers at once. -/
def answerTo (topic : HelpTopic) : Flag → Asked
  | .version => .version
  | flag => .help topic (flag != .summary)

/-- Read the arguments of a command, and then what was held back of the options before it. -/
def ofCommand (before : Reading) (g : Grammar) (topic : HelpTopic) (arguments : List String)
    (command : Reading → Except UsageError Command) : Except UsageError Asked := do
  match ← g.level {} arguments with
  | .answer flag => pure (answerTo topic flag)
  | .command _ name _ => throw (.unknownCommand name)
  | .done r =>
    let command ← command r
    let before ← before.settle
    pure (.run ⟨(r.value? .dataFolder).orElse fun _ => before.value? .dataFolder, some command⟩)

/-- The number that an option gives. -/
def number (r : Reading) (flag : Flag) (fallback : Nat) : Nat :=
  ((r.value? flag).bind word?).getD fallback

/-- Milliseconds between two looks at the deploy folder, unless told otherwise. -/
def defaultPollMillis : Nat := 3000

/-- Runs at the same time, unless told otherwise. -/
def defaultWorkers : Nat := 8

end CommandLine

namespace CommandLine

/-- The command `serve` by its arguments. -/
def serveOf (r : Reading) : Except UsageError Command :=
  .ok (.serve (number r .pollMillis defaultPollMillis) (number r .workers defaultWorkers)
    (r.value? .retryFailed).isSome)

/-- The command `start` by its arguments. -/
def startOf (r : Reading) : Except UsageError Command :=
  match r.positional with
  | processId :: _ => .ok (.start processId)
  | [] => .error (.missingArgument "<PROCESS_ID>")

end CommandLine

open CommandLine in
/-- What arguments ask for. -/
def Asked.ofArguments (arguments : List String) : Except UsageError Asked := do
  match ← Grammar.program.level {} arguments with
  | .answer flag => pure (answerTo .program flag)
  | .done r => pure (.run ⟨r.value? .dataFolder, none⟩)
  | .command r name rest => match name with
    | "serve" => ofCommand r .serve .serve rest serveOf
    | "start" => ofCommand r .start .start rest startOf
    | "migrate" => ofCommand r .migrate .migrate rest fun _ => .ok .migrate
    | _ => helpOn rest

end Perdure
