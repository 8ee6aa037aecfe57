import ScriptManifest.Path

/-!
The four dialects of script, told apart by the extension of the file's name.
-/

namespace ScriptManifest.Source

inductive Dialect
  | javaScript
  | jsx
  | typeScript
  | tsx
deriving DecidableEq, Repr

namespace Dialect

def ofExtension? : String → Option Dialect
  | "js" | "mjs" | "cjs" => some javaScript
  | "jsx" => some jsx
  | "ts" | "mts" | "cts" => some typeScript
  | "tsx" => some tsx
  | _ => none

/-- The dialect of a file; a name without a known extension is taken for TypeScript. -/
def ofPath (path : String) : Dialect :=
  ((Path.extension? path).bind ofExtension?).getD typeScript

def isTyped : Dialect → Bool
  | typeScript | tsx => true
  | javaScript | jsx => false

def hasMarkup : Dialect → Bool
  | typeScript => false
  | javaScript | jsx | tsx => true

end Dialect

end ScriptManifest.Source
