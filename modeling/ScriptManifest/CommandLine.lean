import ScriptManifest.Config
import ScriptManifest.Log

/-!
The command line: one input, the options `-o`/`--output` and `--config` with a value, the flags
`--pretty`, `-v`/`--verbose`, `-h`/`--help` and `-V`/`--version`. A value may be attached to its
option or be the next argument, flags of one letter may be bundled, and `--` ends the flags.

A value that stands in an argument of its own is looked at only when the next known flag or input
comes, or at the end: until then it is pending.
-/

namespace ScriptManifest.CommandLine

inductive Stop
  | missingInput
  | unknownArgument
  /-- A value is missing or empty. -/
  | invalidValue
  | conflict
  | tooManyValues
  | help
  | version
deriving DecidableEq, Repr

structure Arguments where
  input : String
  output : Option String
  pretty : Bool
  config : Option String
  /-- How often more messages were asked for, 255 at most. -/
  verbosity : Nat
deriving DecidableEq, Repr

inductive Valued
  | output
  | config
deriving DecidableEq, Repr

inductive Flag
  | pretty
  | verbose
  | help
  | version
deriving DecidableEq, Repr

/-- What has been seen but not been looked at. -/
inductive Pending
  | nothing
  | input (value : String)
  | bare (option : Valued)
  | valued (option : Valued) (value : String)
deriving DecidableEq, Repr

structure State where
  input : Option String := none
  output : Option String := none
  config : Option String := none
  pretty : Bool := false
  verbosity : Nat := 0
  pending : Pending := .nothing
  hasInput : Bool := false
  trailing : Bool := false
deriving DecidableEq, Repr

namespace State

def setValue (s : State) (option : Valued) (value : String) : Except Stop State :=
  match option with
  | .output =>
    if s.output.isSome then .error .conflict
    else if value.isEmpty then .error .invalidValue
    else .ok { s with output := some value }
  | .config =>
    if s.config.isSome then .error .conflict
    else if value.isEmpty then .error .invalidValue
    else .ok { s with config := some value }

def settle (s : State) : Except Stop State :=
  let s' := { s with pending := .nothing }
  match s.pending with
  | .nothing => .ok s'
  | .input value => if value.isEmpty then .error .invalidValue else .ok { s' with input := some value }
  | .bare _ => .error .invalidValue
  | .valued option value => s'.setValue option value

/-- Takes an option whose value is attached, or will come in the next argument. -/
def takeValued (s : State) (option : Valued) (attached : Option String) : Except Stop State :=
  match s.settle with
  | .error e => .error e
  | .ok s' =>
    match attached with
    | some value => s'.setValue option value
    | none => .ok { s' with pending := .bare option }

def takeFlag (s : State) (flag : Flag) : Except Stop State :=
  match s.settle with
  | .error e => .error e
  | .ok s' =>
    match flag with
    | .help => .error .help
    | .version => .error .version
    | .verbose => .ok { s' with verbosity := min 255 (s'.verbosity + 1) }
    | .pretty => if s'.pretty then .error .conflict else .ok { s' with pretty := true }

/-- Takes an argument that is no flag: the value of a pending option, or the input. -/
def takeWord (s : State) (word : String) : Except Stop State :=
  let asInput : Except Stop State :=
    if s.hasInput then .error .unknownArgument
    else match s.settle with
      | .error e => .error e
      | .ok s' => .ok { s' with pending := .input word, hasInput := true }
  match s.pending with
  | .bare option => if s.trailing then asInput else .ok { s with pending := .valued option word }
  | _ => asInput

def takeLong (s : State) (body : List Char) : Except Stop State :=
  let name := String.ofList (body.takeWhile (· != '='))
  let attached : Option String := match body.dropWhile (· != '=') with
    | [] => none
    | _ :: value => some (String.ofList value)
  let flag (f : Flag) : Except Stop State :=
    if attached.isSome then .error .tooManyValues else s.takeFlag f
  match name with
  | "output" => s.takeValued .output attached
  | "config" => s.takeValued .config attached
  | "pretty" => flag .pretty
  | "verbose" => flag .verbose
  | "help" => flag .help
  | "version" => flag .version
  | _ => .error .unknownArgument

/-- Takes the letters of an argument that starts with one dash. What follows an `o` is its value,
behind an equals sign or not. -/
def takeShort (s : State) : (letters : List Char) → Except Stop State
  | [] => .ok s
  | c :: cs =>
    let next (f : Flag) : Except Stop State :=
      match s.takeFlag f with
      | .error e => .error e
      | .ok s' => s'.takeShort cs
    match c with
    | 'o' =>
      s.takeValued .output <| match cs with
        | [] => none
        | '=' :: value => some (String.ofList value)
        | value => some (String.ofList value)
    | 'v' => next .verbose
    | 'h' => next .help
    | 'V' => next .version
    | _ => .error .unknownArgument

def take (s : State) (argument : String) : Except Stop State :=
  if s.trailing then s.takeWord argument
  else match argument.toList with
    | ['-', '-'] => .ok { s with trailing := true }
    | '-' :: '-' :: body => s.takeLong body
    | '-' :: c :: cs => s.takeShort (c :: cs)
    | _ => s.takeWord argument

def takeAll (s : State) : List String → Except Stop State
  | [] => s.settle
  | a :: as =>
    match s.take a with
    | .error e => .error e
    | .ok s' => s'.takeAll as

/-- What the command line says once it has been read: the output may come from the environment, and
the input has to be there. -/
def finish (s : State) (environment : Option String) : Except Stop Arguments :=
  match s.output, environment with
  | none, some "" => .error .invalidValue
  | _, _ =>
    match s.input with
    | none => .error .missingInput
    | some input => .ok ⟨input, s.output.or environment, s.pretty, s.config, s.verbosity⟩

end State

/-- Reads a command line, given the output that the environment names. -/
def parse (environment : Option String) (args : List String) : Except Stop Arguments :=
  match State.takeAll {} args with
  | .error e => .error e
  | .ok s => s.finish environment

def Arguments.level (a : Arguments) : Log.Level :=
  match a.verbosity with
  | 0 => .warn
  | 1 => .info
  | 2 => .debug
  | _ => .trace

def Arguments.settings (a : Arguments) (config : Config) : Settings :=
  Settings.resolve a.input a.output a.pretty config

end ScriptManifest.CommandLine
