import ScriptManifest.Text.Blank

/-!
The log of a run: messages with a level and the module they come from, of which a filter shows some.
A filter is a list of directives, `target=level` each, of which the one with the longest target that
covers a message decides.
-/

namespace ScriptManifest.Log

open Text

inductive Level
  | error
  | warn
  | info
  | debug
  | trace
deriving DecidableEq, Repr

/-- The rank of a level, the gravest first. -/
def Level.rank : Level → Nat
  | error => 1
  | warn => 2
  | info => 3
  | debug => 4
  | trace => 5

def Level.label : Level → String
  | error => "ERROR"
  | warn => "WARN"
  | info => "INFO"
  | debug => "DEBUG"
  | trace => "TRACE"

structure Entry where
  level : Level
  /-- The module that the message comes from. -/
  target : String
  message : String
  /-- What stands behind the message from the words of a library on. -/
  details : String := ""
deriving DecidableEq, Repr

def Entry.text (e : Entry) : String := e.message ++ e.details

def Entry.line (e : Entry) : String :=
  "[" ++ String.ofList (e.level.label.toList.rightpad 5 ' ') ++ " " ++ e.target ++ "] " ++ e.text

/-! ### Filters -/

/-- The least grave level that is shown of the targets that start with a name, or of all; without a
level nothing is shown. -/
structure Directive where
  name : Option String
  limit : Option Level
deriving DecidableEq, Repr

def limitOf? (word : String) : Option (Option Level) :=
  match String.ofList (word.toList.map Char.toLower) with
  | "off" => some none
  | "error" => some (some .error)
  | "warn" => some (some .warn)
  | "info" => some (some .info)
  | "debug" => some (some .debug)
  | "trace" => some (some .trace)
  | _ => none

namespace Directive

def trimmed (s : String) : String := String.ofList (trim s.toList)

/-- The directive that a text spells: a level, a target, or a target and its level. -/
def ofText? (text : String) : Option Directive :=
  match text.splitOn "=" with
  | [word] =>
    match limitOf? word with
    | some limit => some ⟨none, limit⟩
    | none => some ⟨some word, some .trace⟩
  | [name, word] =>
    if trimmed word = "" then some ⟨some name, some .trace⟩
    else (limitOf? (trimmed word)).map fun limit => ⟨some name, limit⟩
  | _ => none

def covers (d : Directive) (target : String) : Bool :=
  d.name.all fun name => name.toList.isPrefixOf target.toList

def weight (d : Directive) : Nat := (d.name.map String.utf8ByteSize).getD 0

def shows (d : Directive) (level : Level) : Bool := d.limit.any fun limit => level.rank ≤ limit.rank

end Directive

/-- The directives that decide what is shown, and a text that every shown message has to hold. -/
structure Filter where
  directives : List Directive
  fragment : String := ""

namespace Filter

def ofLevel (level : Level) : Filter := { directives := [⟨none, some level⟩] }

def put (ds : List Directive) (d : Directive) : List Directive :=
  if ds.any (·.name == d.name) then ds.map fun e => if e.name = d.name then d else e else ds ++ [d]

def directivesOf (text : String) : List Directive :=
  (((text.splitOn ",").map Directive.trimmed).filter (· ≠ "")).filterMap Directive.ofText?

/-- The filter that a text spells: directives between commas, and behind a slash a fragment of the
messages, every character of which stands for itself. Errors are shown if there is no directive. -/
def ofText (text : String) : Filter :=
  let filter : Filter := match text.splitOn "/" with
    | [directives] => { directives := directivesOf directives }
    | [directives, fragment] => { directives := directivesOf directives, fragment := fragment }
    | _ => { directives := [] }
  match filter.directives.foldl put [] with
  | [] => { filter with directives := [⟨none, some .error⟩] }
  | ds => { filter with directives := ds }

/-- Of two directives that cover a target the one with the longer name counts, and of two with names
of one length the later one. -/
def heavier (best : Option Directive) (d : Directive) : Option Directive :=
  if best.all fun b => b.weight ≤ d.weight then some d else best

def directiveFor? (f : Filter) (target : String) : Option Directive :=
  (f.directives.filter (·.covers target)).foldl heavier none

def holds (fragment text : String) : Bool :=
  fragment = "" || 1 < (text.splitOn fragment).length

def shows (f : Filter) (e : Entry) : Bool :=
  (f.directiveFor? e.target).any (·.shows e.level) && holds f.fragment e.text

def apply (f : Filter) (entries : List Entry) : List Entry := entries.filter f.shows

end Filter

end ScriptManifest.Log
