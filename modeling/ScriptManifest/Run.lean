import ScriptManifest.Config
import ScriptManifest.Extraction
import ScriptManifest.Manifest.Json
import ScriptManifest.Output

/-!
A run: a script is read, its report decides whether the manifest is written, and the console tells
what became of it. Nothing is written if a single declaration failed.
-/

namespace ScriptManifest

open Text

inductive Status
  | written (output : String)
  /-- Some declaration failed, and nothing was written. -/
  | failed
deriving DecidableEq, Repr

def Status.exitCode : Status → Nat
  | written _ => 0
  | failed => 1

def extractorTarget : String := "cfmeta::extractor"

def readEntry (size : Nat) (path : String) : Log.Entry :=
  { level := .debug, target := extractorTarget
    message := "Read " ++ toString size ++ " bytes from " ++ path }

def replacedEntry (path : String) : Log.Entry :=
  { level := .warn, target := extractorTarget
    message := path ++ " is not valid UTF-8; invalid bytes were replaced" }

/-- The report on the script at a path, and what is logged. Bytes that are no text are replaced. -/
def extractFile (w : Workspace) (path : String) : Except Failure Report × List Log.Entry :=
  match w.read path with
  | .error c => (.error (.fileSystem "Failed to read source file" path c), [])
  | .ok bytes =>
    let source := ofUtf8Lenient bytes
    (.ok (extract source path),
      readEntry bytes.length path :: (if isUtf8 bytes then [] else [replacedEntry path]) ++
        extractLog source path)

structure RunResult where
  workspace : Workspace
  result : Except Failure Status
  console : String
  log : List Log.Entry

def commandTarget : String := "cfmeta::commands::extract"

def reportEntry (settings : Settings) (r : Report) : Log.Entry :=
  { level := .debug, target := commandTarget
    message := settings.input ++ ": " ++ toString r.functions.length ++ " accepted, " ++
      toString r.skipped.length ++ " skipped, " ++ toString r.errors.length ++ " error(s)" }

def notWrittenEntry (settings : Settings) : Log.Entry :=
  { level := .debug, target := commandTarget, message := "Skipping write of " ++ settings.output }

def writtenEntry (settings : Settings) (m : Manifest) : Log.Entry :=
  { level := .info, target := commandTarget
    message := "Wrote " ++ toString m.functions.length ++ " custom function(s) to " ++
      settings.output }

/-- Carries out what a report asks for: the manifest is written if there is one, and only then. -/
def finish (w : Workspace) (settings : Settings) (r : Report) : RunResult :=
  match r.manifest? with
  | none =>
    { workspace := w
      result := .ok .failed
      console := r.console settings.input
      log := [notWrittenEntry settings] }
  | some m =>
    match w.writeFile settings.output (encode (m.render settings.pretty)) with
    | (w', .error f) => { workspace := w', result := .error f, console := "", log := [] }
    | (w', .ok ()) =>
      { workspace := w'
        result := .ok (.written settings.output)
        console := r.console settings.input
        log := [writtenEntry settings m] }

def run (w : Workspace) (settings : Settings) : RunResult :=
  match extractFile w settings.input with
  | (.error f, log) => { workspace := w, result := .error f, console := "", log := log }
  | (.ok r, log) =>
    let done := finish w settings r
    { done with log := log ++ reportEntry settings r :: done.log }

end ScriptManifest
