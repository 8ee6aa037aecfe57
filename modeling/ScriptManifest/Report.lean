import ScriptManifest.Manifest.Record

/-!
The report of an extraction: what became of every declaration, and the text that tells the user.
-/

namespace ScriptManifest

open Manifest

inductive Outcome
  | accepted (record : FunctionRecord)
  /-- The declaration is not marked as a custom function. -/
  | skipped (name : String)
  | failed (errors : List String)
deriving DecidableEq, Repr

structure Report where
  functions : List FunctionRecord := []
  skipped : List String := []
  errors : List String := []
deriving DecidableEq, Repr

namespace Report

def record (r : Report) : Outcome → Report
  | .accepted f => { r with functions := r.functions ++ [f] }
  | .skipped name => { r with skipped := r.skipped ++ [name] }
  | .failed errors => { r with errors := r.errors ++ errors }

def ofOutcomes (outcomes : List Outcome) : Report := outcomes.foldl record {}

def isSuccess (r : Report) : Bool := r.errors.isEmpty

def manifest? (r : Report) : Option Manifest :=
  if r.isSuccess then some ⟨r.functions⟩ else none

/-- The lines that the console shows for a report on the script at `path`. -/
def consoleLines (r : Report) (path : String) : List String :=
  if r.isSuccess then
    ("functions.json created for file: " ++ path) ::
      if r.skipped.isEmpty then [] else "The following functions were skipped." :: r.skipped
  else
    ("There was one of more errors. We couldn't parse your file: " ++ path) :: r.errors

def console (r : Report) (path : String) : String :=
  String.join ((r.consoleLines path).map (· ++ "\n"))

end Report

end ScriptManifest
