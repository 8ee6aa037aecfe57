import ScriptManifest.Manifest.Json
import ScriptManifest.Manifest.JsonToken

/-!
Reading a manifest. Fields may come in any order, unknown ones are passed over, every field but a
description has to be there once. A record may also be written as an array of its fields in their
order, and a word as an object whose only field is that word with the value `null`. The first fault
from the left decides.
-/

namespace ScriptManifest.Manifest

/-- Reads a value off the front of a list of tokens. -/
abbrev Reader (α : Type) := List JsonToken → Except Fault (α × List JsonToken)

def JsonToken.mismatch : JsonToken → Fault
  | .openBrace | .openBracket | .null | .bool _ | .number | .text (some _) => .data
  | .text none | .closeBrace | .closeBracket | .colon | .comma => .syntactic
  | .brokenText f | .broken f => f

def mismatch {α : Type} (ts : List JsonToken) : Except Fault α :=
  .error ((ts.head?.map JsonToken.mismatch).getD .ended)

def misplaced {α : Type} (ts : List JsonToken) : Except Fault α :=
  .error (if ts.isEmpty then .ended else .syntactic)

/-! ### Passing over a value -/

/-- What may come next while a value is passed over. -/
inductive SkipState
  | value
  /-- A value, or the end of an array that has no items yet. -/
  | firstItem
  | key
  /-- A key, or the end of an object that has no fields yet. -/
  | firstKey
  | colon
  /-- A comma, or the end of the innermost array or object. -/
  | next

/-- What follows a value; `true` in the list stands for an open object, `false` for an open
array. -/
def skip : SkipState → (opened : List Bool) → List JsonToken → Except Fault (List JsonToken)
  | _, _, [] => .error .ended
  | state, opened, t :: ts =>
    let ended (rest : List Bool) : Except Fault (List JsonToken) :=
      if rest.isEmpty then .ok ts else skip .next rest ts
    match state, t, opened with
    | .firstItem, .closeBracket, false :: rest => ended rest
    | .firstKey, .closeBrace, true :: rest => ended rest
    | .next, .closeBracket, false :: rest => ended rest
    | .next, .closeBrace, true :: rest => ended rest
    | .next, .comma, true :: _ => skip .key opened ts
    | .next, .comma, false :: _ => skip .value opened ts
    | .next, _, _ => .error .syntactic
    | .colon, .colon, _ => skip .value opened ts
    | .colon, _, _ => .error .syntactic
    | .key, .text _, _ | .firstKey, .text _, _ => skip .colon opened ts
    | .key, .brokenText f, _ | .firstKey, .brokenText f, _ => .error f
    | .key, _, _ | .firstKey, _, _ => .error .syntactic
    | _, .openBrace, _ => skip .firstKey (true :: opened) ts
    | _, .openBracket, _ => skip .firstItem (false :: opened) ts
    | _, .null, _ | _, .bool _, _ | _, .number, _ | _, .text _, _ => ended opened
    | _, .brokenText f, _ | _, .broken f, _ => .error f
    | _, _, _ => .error .syntactic

def skipValue : Reader Unit := fun ts =>
  match skip .value [] ts with
  | .ok rest => .ok ((), rest)
  | .error f => .error f

/-! ### Simple values -/

def readText : Reader String
  | .text (some s) :: ts => .ok (s, ts)
  | ts => mismatch ts

def readBool : Reader Bool
  | .bool b :: ts => .ok (b, ts)
  | ts => mismatch ts

def readOptional : Reader (Option String)
  | .null :: ts => .ok (none, ts)
  | ts =>
    match readText ts with
    | .ok (s, rest) => .ok (some s, rest)
    | .error f => .error f

def readWord {α : Type} (meaning : String → Option α) : Reader α
  | .text (some s) :: ts =>
    match meaning s with
    | some a => .ok (a, ts)
    | none => .error .data
  | .openBrace :: ts =>
    match readText ts with
    | .error f => .error f
    | .ok (s, rest) =>
      match meaning s, rest with
      | none, _ => .error .data
      | some a, .colon :: .null :: .closeBrace :: rest' => .ok (a, rest')
      | some _, .colon :: .null :: rest' => misplaced rest'
      | some _, .colon :: rest' => mismatch rest'
      | some _, rest' => misplaced rest'
  | .brokenText f :: _ => .error f
  | ts => misplaced ts

/-! ### Arrays and objects -/

/-- The tokens of the next item of an array, or `none` in front of its end. -/
def nextItem? (first : Bool) (ts : List JsonToken) : Except Fault (Option (List JsonToken)) :=
  match ts with
  | [] => .error .ended
  | .closeBracket :: _ => .ok none
  | t :: rest =>
    if first then .ok (some (t :: rest))
    else if t = .comma then
      match rest with
      | [] => .error .ended
      | .closeBracket :: _ => .error .syntactic
      | _ => .ok (some rest)
    else .error .syntactic

/-- Reads the items of an array behind its opening bracket, and the closing one. -/
def readItems {α : Type} (item : Reader α) : (fuel : Nat) → (first : Bool) → Reader (List α)
  | 0, _, ts => mismatch ts
  | fuel + 1, first, ts =>
    match nextItem? first ts with
    | .error f => .error f
    | .ok none => .ok ([], ts.drop 1)
    | .ok (some ts') =>
      match item ts' with
      | .error f => .error f
      | .ok (a, rest) =>
        match readItems item fuel false rest with
        | .error f => .error f
        | .ok (as, rest') => .ok (a :: as, rest')

def readArray {α : Type} (item : Reader α) : Reader (List α)
  | .openBracket :: ts => readItems item (ts.length + 1) true ts
  | ts => mismatch ts

/-- Reads the fields of an object behind its opening brace, and the closing one. The value of a
field is read by `field`, which is given its name and what the fields before have left. -/
def readFields {σ : Type} (field : String → σ → Reader σ) :
    (fuel : Nat) → (first : Bool) → σ → Reader σ
  | 0, _, _, ts => mismatch ts
  | fuel + 1, first, s, ts =>
    let key (ts : List JsonToken) : Except Fault (σ × List JsonToken) :=
      match ts with
      | .text (some k) :: rest =>
        match field k s rest with
        | .error f => .error f
        | .ok (s', rest') => readFields field fuel false s' rest'
      | .brokenText f :: _ => .error f
      | _ => misplaced ts
    match ts with
    | .closeBrace :: rest => .ok (s, rest)
    | .comma :: rest => if first then .error .syntactic else key rest
    | _ => if first then key ts else misplaced ts

/-- Reads the value of a field behind its colon and stores it; a field that is there already is not
read again. -/
def setField {σ α : Type} (old : Option α) (read : Reader α) (set : α → σ) : Reader σ := fun ts =>
  if old.isSome then .error .data
  else match ts with
    | .colon :: rest =>
      match read rest with
      | .ok (a, rest') => .ok (set a, rest')
      | .error f => .error f
    | _ => misplaced ts

def skipField {σ : Type} (s : σ) : Reader σ := setField (none : Option Unit) skipValue fun _ => s

/-- Reads the next item of an array that lists the fields of a record; it has to be there. -/
def readPart {α : Type} (first : Bool) (read : Reader α) : Reader α := fun ts =>
  match nextItem? first ts with
  | .error f => .error f
  | .ok none => .error .data
  | .ok (some ts') => read ts'

def readPart? {α : Type} (read : Reader (Option α)) : Reader (Option α) := fun ts =>
  match nextItem? false ts with
  | .error f => .error f
  | .ok none => .ok (none, ts)
  | .ok (some ts') => read ts'

def readEnd {α : Type} (a : α) : Reader α
  | .closeBracket :: rest => .ok (a, rest)
  | ts => misplaced ts

def Reader.andThen {α β : Type} (r : Reader α) (next : α → Reader β) : Reader β := fun ts =>
  match r ts with
  | .ok (a, rest) => next a rest
  | .error f => .error f

/-- Reads a record, written as an object or as an array of its fields. -/
def readRecord {σ α : Type} (start : σ) (field : String → σ → Reader σ) (finish : σ → Option α)
    (parts : Reader α) : Reader α
  | .openBrace :: ts =>
    match readFields field (ts.length + 1) true start ts with
    | .error f => .error f
    | .ok (s, rest) =>
      match finish s with
      | some a => .ok (a, rest)
      | none => .error .data
  | .openBracket :: ts => parts.andThen readEnd ts
  | ts => mismatch ts

/-! ### Records -/

def typeOfWord? : String → Option ValueType
  | "number" => some .number
  | "string" => some .string
  | "boolean" => some .boolean
  | "any" => some .any
  | _ => none

def dimensionalityOfWord? : String → Option Dimensionality
  | "scalar" => some .scalar
  | "matrix" => some .matrix
  | _ => none

def readValueType : Reader ValueType := readWord typeOfWord?

def readDimensionality : Reader Dimensionality := readWord dimensionalityOfWord?

structure ParameterFields where
  name : Option String := none
  description : Option (Option String) := none
  type : Option ValueType := none
  dimensionality : Option Dimensionality := none

def parameterField (k : String) (s : ParameterFields) : Reader ParameterFields :=
  match k with
  | "name" => setField s.name readText fun v => { s with name := some v }
  | "description" => setField s.description readOptional fun v => { s with description := some v }
  | "type" => setField s.type readValueType fun v => { s with type := some v }
  | "dimensionality" =>
    setField s.dimensionality readDimensionality fun v => { s with dimensionality := some v }
  | _ => skipField s

def ParameterFields.finish? (s : ParameterFields) : Option ParameterRecord :=
  match s.name, s.type, s.dimensionality with
  | some name, some type, some dim => some ⟨name, s.description.getD none, ⟨type, dim⟩⟩
  | _, _, _ => none

def readParameter : Reader ParameterRecord :=
  readRecord {} parameterField ParameterFields.finish? <|
    (readPart true readText).andThen fun name =>
    (readPart? readOptional).andThen fun description =>
    (readPart false readValueType).andThen fun type =>
    (readPart false readDimensionality).andThen fun dim ts =>
    .ok (⟨name, description, ⟨type, dim⟩⟩, ts)

structure ResultFields where
  type : Option ValueType := none
  dimensionality : Option Dimensionality := none

def resultField (k : String) (s : ResultFields) : Reader ResultFields :=
  match k with
  | "type" => setField s.type readValueType fun v => { s with type := some v }
  | "dimensionality" =>
    setField s.dimensionality readDimensionality fun v => { s with dimensionality := some v }
  | _ => skipField s

def ResultFields.finish? (s : ResultFields) : Option Mapping :=
  match s.type, s.dimensionality with
  | some type, some dim => some ⟨type, dim⟩
  | _, _ => none

def readResult : Reader Mapping :=
  readRecord {} resultField ResultFields.finish? <|
    (readPart true readValueType).andThen fun type =>
    (readPart false readDimensionality).andThen fun dim ts =>
    .ok (⟨type, dim⟩, ts)

structure OptionFields where
  sync : Option Bool := none
  cancelable : Option Bool := none
  stream : Option Bool := none

def optionField (k : String) (s : OptionFields) : Reader OptionFields :=
  match k with
  | "sync" => setField s.sync readBool fun v => { s with sync := some v }
  | "cancelable" => setField s.cancelable readBool fun v => { s with cancelable := some v }
  | "stream" => setField s.stream readBool fun v => { s with stream := some v }
  | _ => skipField s

def OptionFields.finish? (s : OptionFields) : Option Options :=
  match s.sync, s.cancelable, s.stream with
  | some sync, some cancelable, some stream => some ⟨sync, cancelable, stream⟩
  | _, _, _ => none

def readOptions : Reader Options :=
  readRecord {} optionField OptionFields.finish? <|
    (readPart true readBool).andThen fun sync =>
    (readPart false readBool).andThen fun cancelable =>
    (readPart false readBool).andThen fun stream ts =>
    .ok (⟨sync, cancelable, stream⟩, ts)

structure FunctionFields where
  name : Option String := none
  id : Option String := none
  helpUrl : Option String := none
  description : Option (Option String) := none
  parameters : Option (List ParameterRecord) := none
  result : Option Mapping := none
  options : Option Options := none

def functionField (k : String) (s : FunctionFields) : Reader FunctionFields :=
  match k with
  | "name" => setField s.name readText fun v => { s with name := some v }
  | "id" => setField s.id readText fun v => { s with id := some v }
  | "helpurl" => setField s.helpUrl readText fun v => { s with helpUrl := some v }
  | "description" => setField s.description readOptional fun v => { s with description := some v }
  | "parameters" =>
    setField s.parameters (readArray readParameter) fun v => { s with parameters := some v }
  | "result" => setField s.result readResult fun v => { s with result := some v }
  | "options" => setField s.options readOptions fun v => { s with options := some v }
  | _ => skipField s

def FunctionFields.finish? (s : FunctionFields) : Option FunctionRecord :=
  match s.name, s.id, s.helpUrl, s.parameters, s.result, s.options with
  | some name, some id, some helpUrl, some parameters, some result, some options =>
    some ⟨name, id, helpUrl, s.description.getD none, parameters, result, options⟩
  | _, _, _, _, _, _ => none

def readFunction : Reader FunctionRecord :=
  readRecord {} functionField FunctionFields.finish? <|
    (readPart true readText).andThen fun name =>
    (readPart false readText).andThen fun id =>
    (readPart false readText).andThen fun helpUrl =>
    (readPart? readOptional).andThen fun description =>
    (readPart false (readArray readParameter)).andThen fun parameters =>
    (readPart false readResult).andThen fun result =>
    (readPart false readOptions).andThen fun options ts =>
    .ok (⟨name, id, helpUrl, description, parameters, result, options⟩, ts)

def manifestField (k : String) (s : Option (List FunctionRecord)) :
    Reader (Option (List FunctionRecord)) :=
  match k with
  | "functions" => setField s (readArray readFunction) some
  | _ => skipField s

def readManifest : Reader Manifest :=
  readRecord none manifestField (fun s => s.map Manifest.mk) <|
    (readPart true (readArray readFunction)).andThen fun functions ts => .ok (⟨functions⟩, ts)

def readAll {α : Type} (read : Reader α) (text : String) : Except Fault α :=
  match read (jsonTokens text) with
  | .error f => .error f
  | .ok (a, []) => .ok a
  | .ok (_, _ :: _) => .error .syntactic

def FunctionRecord.ofText (text : String) : Except Fault FunctionRecord := readAll readFunction text

end ScriptManifest.Manifest

namespace ScriptManifest

def Manifest.ofText (text : String) : Except Manifest.Fault Manifest :=
  Manifest.readAll Manifest.readManifest text

end ScriptManifest
