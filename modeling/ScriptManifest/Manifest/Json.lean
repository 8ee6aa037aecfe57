import ScriptManifest.Manifest.Record

/-!
Manifests as JSON text, in a compact and in a pretty layout. A value is written from its tree, so
that the two layouts differ in the space between tokens only.
-/

namespace ScriptManifest.Manifest

/-- A JSON value. A number is kept as it is spelled. -/
inductive Json
  | null
  | bool (value : Bool)
  | number (spelling : String)
  | text (value : String)
  | array (items : List Json)
  | object (fields : List (String × Json))
deriving Repr

def hexDigit (n : Nat) : Char := Nat.digitChar n

/-- A character inside a JSON text: quotes, backslashes and control characters are escaped. -/
def escapeChar (c : Char) : List Char :=
  match c with
  | '"' => ['\\', '"']
  | '\\' => ['\\', '\\']
  | '\n' => ['\\', 'n']
  | '\r' => ['\\', 'r']
  | '\t' => ['\\', 't']
  | '\x08' => ['\\', 'b']
  | '\x0c' => ['\\', 'f']
  | c =>
    if c.toNat < 0x20 then
      ['\\', 'u', '0', '0', hexDigit (c.toNat / 16), hexDigit (c.toNat % 16)]
    else [c]

def quoted (s : String) : List Char := '"' :: s.toList.flatMap escapeChar ++ ['"']

def newLine (depth : Nat) : List Char := '\n' :: List.replicate (2 * depth) ' '

namespace Json

mutual

def compactChars : Json → List Char
  | null => "null".toList
  | bool b => if b then "true".toList else "false".toList
  | number s => s.toList
  | text s => quoted s
  | array items => '[' :: compactItems items ++ [']']
  | object fields => '{' :: compactFields fields ++ ['}']

def compactItems : List Json → List Char
  | [] => []
  | [j] => compactChars j
  | j :: k :: js => compactChars j ++ ',' :: compactItems (k :: js)

def compactFields : List (String × Json) → List Char
  | [] => []
  | [(k, j)] => quoted k ++ ':' :: compactChars j
  | (k, j) :: f :: fs => quoted k ++ ':' :: compactChars j ++ ',' :: compactFields (f :: fs)

end

mutual

/-- A value with every item and every field on a line of its own, indented by two blanks a level. -/
def prettyChars (depth : Nat) : Json → List Char
  | null => "null".toList
  | bool b => if b then "true".toList else "false".toList
  | number s => s.toList
  | text s => quoted s
  | array [] => ['[', ']']
  | array (j :: js) =>
    '[' :: newLine (depth + 1) ++ prettyItems (depth + 1) (j :: js) ++ newLine depth ++ [']']
  | object [] => ['{', '}']
  | object (f :: fs) =>
    '{' :: newLine (depth + 1) ++ prettyFields (depth + 1) (f :: fs) ++ newLine depth ++ ['}']

def prettyItems (depth : Nat) : List Json → List Char
  | [] => []
  | [j] => prettyChars depth j
  | j :: k :: js => prettyChars depth j ++ ',' :: newLine depth ++ prettyItems depth (k :: js)

def prettyFields (depth : Nat) : List (String × Json) → List Char
  | [] => []
  | [(k, j)] => quoted k ++ ':' :: ' ' :: prettyChars depth j
  | (k, j) :: f :: fs =>
    quoted k ++ ':' :: ' ' :: prettyChars depth j ++ ',' :: newLine depth ++
      prettyFields depth (f :: fs)

end

def render (pretty : Bool) (j : Json) : String :=
  String.ofList (if pretty then j.prettyChars 0 else j.compactChars)

end Json

/-! ### Records as values -/

def typeWord : ValueType → String
  | .number => "number"
  | .string => "string"
  | .boolean => "boolean"
  | .any => "any"

def dimensionalityWord : Dimensionality → String
  | .scalar => "scalar"
  | .matrix => "matrix"

def mappingFields (m : Mapping) : List (String × Json) :=
  [("type", .text (typeWord m.type)), ("dimensionality", .text (dimensionalityWord m.dimensionality))]

def descriptionFields (description : Option String) : List (String × Json) :=
  (description.map fun d => ("description", Json.text d)).toList

def ParameterRecord.json (p : ParameterRecord) : Json :=
  .object (("name", .text p.name) :: descriptionFields p.description ++ mappingFields p.mapping)

def Options.json (o : Options) : Json :=
  .object [("sync", .bool o.sync), ("cancelable", .bool o.cancelable), ("stream", .bool o.stream)]

def FunctionRecord.json (f : FunctionRecord) : Json :=
  .object <|
    [("name", .text f.name), ("id", .text f.id), ("helpurl", .text f.helpUrl)] ++
    descriptionFields f.description ++
    [("parameters", .array (f.parameters.map ParameterRecord.json)),
      ("result", .object (mappingFields f.result)), ("options", f.options.json)]

end ScriptManifest.Manifest

namespace ScriptManifest

def Manifest.json (m : Manifest) : Manifest.Json :=
  .object [("functions", .array (m.functions.map Manifest.FunctionRecord.json))]

def Manifest.render (m : Manifest) (pretty : Bool) : String := m.json.render pretty

end ScriptManifest
