import ScriptManifest.Doc.Summary
import ScriptManifest.Log
import ScriptManifest.Report
import ScriptManifest.Source.Program

/-!
Extraction: from the declarations of a script to its report. Every top-level declaration has
exactly one outcome, and the outcomes are reported in the order of the text.
-/

namespace ScriptManifest

open Doc Manifest Source

/-- A declaration as it is analysed: its documentation blocks and its signature. -/
structure Documented where
  blocks : List Block
  signature : Signature
deriving Repr

def Source.Declaration.documented (d : Declaration) : Documented :=
  ⟨d.comments.filterMap Block.parse?, d.signature⟩

def anonymousName : String := "<anonymous>"

/-- The parameters without a streaming handler at their end, and the handler's annotation. -/
def splitHandler (ps : List Parameter) : List Parameter × Option DeclaredType :=
  match ps.getLast? with
  | none => (ps, none)
  | some p =>
    if p.declaredType.any DeclaredType.isStreamingHandler then (ps.dropLast, p.declaredType)
    else (ps, none)

def parameterRecord (s : Summary) (p : Parameter) : Except ShapeError ParameterRecord :=
  match resolveType p.declaredType with
  | .ok m => .ok ⟨p.name, s.paramDescription? p.name, m⟩
  | .error e => .error e

def oks {ε α : Type} (xs : List (Except ε α)) : List α :=
  xs.filterMap fun x => match x with
    | .ok a => some a
    | .error _ => none

def errorsOf {ε α : Type} (xs : List (Except ε α)) : List ε :=
  xs.filterMap fun x => match x with
    | .ok _ => none
    | .error e => some e

def parserTarget : String := "cfmeta::extractor::parser"

def analysisTarget : String := "cfmeta::extractor::visitor::function_analysis"

namespace Documented

def shownName (d : Documented) : String := d.signature.name.getD anonymousName

def summary (d : Documented) : Summary := Summary.ofBlocks d.blocks

def split (d : Documented) : List Parameter × Option DeclaredType := splitHandler d.signature.parameters

def parameterResults (d : Documented) : List (Except ShapeError ParameterRecord) :=
  d.split.1.map (parameterRecord d.summary)

def result (d : Documented) : Except ShapeError Mapping :=
  match d.split.2 with
  | some handler => resolveStreaming handler d.signature.result
  | none => resolveReturn d.signature.result

/-- The outcome of a marked declaration with a name. All errors are reported, those of the
parameters first. -/
def outcomeOfMarked (d : Documented) (name : String) : Outcome :=
  match errorsOf d.parameterResults, d.result with
  | [], .ok m =>
    .accepted
      { name := name
        id := name
        helpUrl := d.summary.helpUrl
        description := d.summary.description
        parameters := oks d.parameterResults
        result := m
        options := if d.split.2.isSome then Options.streaming else {} }
  | errors, .ok _ => .failed (errors.map ShapeError.message)
  | errors, .error e => .failed ((errors ++ [e]).map ShapeError.message)

def outcome (d : Documented) : Outcome :=
  if d.summary.isCustomFunction then
    match d.signature.name with
    | none => .failed [ShapeError.anonymousFunction.message]
    | some name => d.outcomeOfMarked name
  else .skipped d.shownName

def skippedEntry (name : String) : Log.Entry :=
  { level := .debug, target := analysisTarget
    message := "Skipping " ++ name ++ ": no @" ++ markerName ++ " tag" }

def untypedResultEntry (name : String) : Log.Entry :=
  { level := .info, target := analysisTarget
    message := "No return type specified for " ++ name ++
      ". This could be .js filetype, so continue." }

def acceptedEntry (name : String) (r : FunctionRecord) : Log.Entry :=
  { level := .debug, target := analysisTarget
    message := "Accepted custom function " ++ name ++ " with " ++
      toString r.parameters.length ++ " parameter(s)" }

def log (typed : Bool) (d : Documented) : List Log.Entry :=
  match d.outcome with
  | .skipped name => [skippedEntry name]
  | outcome =>
    match d.signature.name with
    | none => []
    | some name =>
      let untypedResult := typed && d.split.2.isNone && d.signature.result.isNone
      (if untypedResult then [untypedResultEntry name] else []) ++
      match outcome with
      | .accepted r => [acceptedEntry name r]
      | _ => []

end Documented

/-- The documented top-level declarations of a script, marked or not, in the order of the text. -/
def declarationsOf (source path : String) : List Documented :=
  (parse (Dialect.ofPath path) source).declarations.map Declaration.documented

def extract (source path : String) : Report :=
  Report.ofOutcomes ((declarationsOf source path).map Documented.outcome)

def damagedEntry (path : String) : Log.Entry :=
  { level := .warn, target := parserTarget
    message := path ++ " contains syntax errors; extracting from the recoverable parts" }

def extractLog (source path : String) : List Log.Entry :=
  let d := Dialect.ofPath path
  (if isDamaged 0 (tokensOf d source) then [damagedEntry path] else []) ++
  (declarationsOf source path).flatMap (Documented.log d.isTyped)

end ScriptManifest
