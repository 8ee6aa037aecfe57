import ScriptManifest.Config.Toml
import ScriptManifest.Failure
import ScriptManifest.Log

/-!
Finding the configuration: a file that was asked for has to be there and in order; otherwise the
directories from a start upward are searched, and the nearest file that can be read counts.
-/

namespace ScriptManifest.Config

/-- The number of directories that are searched, the first one included. -/
def searchDepth : Nat := 10

def logTarget : String := "cfmeta::config::loader"

def loadedEntry (path : String) : Log.Entry :=
  { level := .debug, target := logTarget, message := "Loaded config from " ++ path }

def unreadableEntry (path : String) (c : Cause) : Log.Entry :=
  { level := .warn, target := logTarget
    message := "Failed to read config file " ++ path ++ ": " ++ c.text }

def malformedEntry (f : Fault) : Log.Entry :=
  { level := .warn, target := logTarget
    message := f.message, details := f.details ++ ". Using defaults." }

def defaultEntry : Log.Entry :=
  { level := .debug, target := logTarget
    message := "No config found after checking " ++ toString searchDepth ++
      " directories. Using default config." }

def load (w : Workspace) (path : String) : Except Failure Config × List Log.Entry :=
  match w.readText path with
  | .error c => (.error (.fileSystem "Failed to read config file" path c), [])
  | .ok text =>
    match ofText text with
    | .error f => (.error (.configuration path f.message), [])
    | .ok config => (.ok config, [loadedEntry path])

/-- The configuration at a path on the way, if it can be read, and what is logged: a file that is
missing is no matter, one that is broken is warned of. -/
def tryLoad (w : Workspace) (path : String) : Option Config × List Log.Entry :=
  match w.readText path with
  | .error .notFound => (none, [])
  | .error c => (none, [unreadableEntry path c])
  | .ok text =>
    match ofText text with
    | .error f => (none, [malformedEntry f])
    | .ok config => (some config, [loadedEntry path])

/-- The first configuration that can be read among some paths, or the default one. -/
def firstOf (w : Workspace) : List String → Config × List Log.Entry
  | [] => ({}, [defaultEntry])
  | path :: paths =>
    match tryLoad w path with
    | (some config, log) => (config, log)
    | (none, log) => let (config, log') := firstOf w paths; (config, log ++ log')

def searchPaths (start : String) : List String :=
  (Path.ancestors searchDepth start).map (Path.join · fileName)

def search (w : Workspace) (start : String) : Config × List Log.Entry :=
  firstOf w (searchPaths start)

end ScriptManifest.Config
