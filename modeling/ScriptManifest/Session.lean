import ScriptManifest.CommandLine
import ScriptManifest.Config.Search
import ScriptManifest.Run

/-!
The program as a function: from its arguments, its environment and the files it finds to the files
it leaves, what it prints and its exit code.
-/

namespace ScriptManifest

open CommandLine

structure Environment where
  output : Option String := none
  logFilter : Option String := none

structure Ending where
  workspace : Workspace
  exitCode : Nat
  console : String := ""
  /-- The line that tells why the program gave up. -/
  error : Option String := none
  log : List Log.Entry := []

def fatalExitCode : Nat := 2

def helpText : String :=
  "Generate custom function metadata (functions.json) from an annotated script\n\n" ++
  "Usage: cfmeta [OPTIONS] <INPUT>\n\n" ++
  "Arguments:\n" ++
  "  <INPUT>  TypeScript or JavaScript file containing the custom functions\n\n" ++
  "Options:\n" ++
  "  -o, --output <OUTPUT>  Output file (defaults to functions.json in the current directory)\n" ++
  "      --pretty           Pretty-print the generated JSON\n" ++
  "      --config <CONFIG>  Configuration file (defaults to the nearest .cfmeta.toml)\n" ++
  "  -v, --verbose...       Increase verbosity level (can be repeated: -v, -vv, -vvv)\n" ++
  "  -h, --help             Print help\n" ++
  "  -V, --version          Print version\n"

def versionText : String := "cfmeta 0.1.0\n"

/-- The filter of the log: the environment's, or else what the command line asks for. -/
def logFilter (env : Environment) (args : Arguments) : Log.Filter :=
  match env.logFilter with
  | none => .ofLevel args.level
  | some text => .ofText text

def startEntry (settings : Settings) : Log.Entry :=
  { level := .debug, target := "cfmeta"
    message := "Extracting " ++ settings.input ++ " into " ++ settings.output }

def configFor (w : Workspace) (directory : String) (args : Arguments) :
    Except Failure Config × List Log.Entry :=
  match args.config with
  | some path => Config.load w path
  | none => let (config, log) := Config.search w directory; (.ok config, log)

def perform (w : Workspace) (directory : String) (args : Arguments) : Ending :=
  match configFor w directory args with
  | (.error f, log) =>
    { workspace := w, exitCode := fatalExitCode, error := some ("Error: " ++ f.fullText), log := log }
  | (.ok config, log) =>
    let settings := args.settings config
    let r := run w settings
    let log := log ++ startEntry settings :: r.log
    match r.result with
    | .ok status =>
      { workspace := r.workspace, exitCode := status.exitCode, console := r.console, log := log }
    | .error f =>
      { workspace := r.workspace
        exitCode := fatalExitCode
        console := r.console
        error := some ("Error: Failed to process " ++ settings.input ++ ": " ++ f.fullText)
        log := log }

/-- The program: only the messages that the filter shows are logged. -/
def program (w : Workspace) (directory : String) (env : Environment) (args : List String) : Ending :=
  match CommandLine.parse env.output args with
  | .error .help => { workspace := w, exitCode := 0, console := helpText }
  | .error .version => { workspace := w, exitCode := 0, console := versionText }
  | .error _ => { workspace := w, exitCode := fatalExitCode }
  | .ok a =>
    let e := perform w directory a
    { e with log := (logFilter env a).apply e.log }

end ScriptManifest
