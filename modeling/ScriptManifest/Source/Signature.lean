import ScriptManifest.Signature.Lowering
import ScriptManifest.Source.TypeText

/-!
Functions: the name, the parameters and the result annotation, read off the tokens from the word
`function` on.
-/

namespace ScriptManifest.Source

/-! ### Stretches that are passed over -/

/-- What follows type parameters after `depth` opening angle brackets. -/
def dropAngles : (depth : Nat) → List Token → List Token
  | 0, ts => ts
  | _ + 1, [] => []
  | depth + 1, t :: ts =>
    dropAngles (if t.isMark "<" then depth + 2 else if t.isMark ">" then depth else depth + 1) ts

/-- Marks that may stand in a type, angle brackets aside. -/
def typeMarks : List String := [".", ",", "|", "&", "=>", "-", "?", ":"]

/-- The number of tokens up to and with the closing one of `angles` opening angle brackets, if only
types stand between them; `depth` brackets are open. -/
def anglesLength : (angles depth : Nat) → List Token → Option Nat
  | 0, _, _ => some 0
  | _ + 1, _, [] => none
  | angles + 1, depth + 1, t :: ts =>
    let depth' := match t.kind with
      | .opener => depth + 2
      | .closer => depth
      | _ => depth + 1
    (anglesLength (angles + 1) depth' ts).map (· + 1)
  | angles + 1, 0, t :: ts =>
    match t.kind with
    | .opener => (anglesLength (angles + 1) 1 ts).map (· + 1)
    | .word | .number | .text => (anglesLength (angles + 1) 0 ts).map (· + 1)
    | .mark =>
      if t.text = "<" then (anglesLength (angles + 2) 0 ts).map (· + 1)
      else if t.text = ">" then (anglesLength angles 0 ts).map (· + 1)
      else if t.text ∈ typeMarks then (anglesLength (angles + 1) 0 ts).map (· + 1)
      else none
    | _ => none

/-- The number of tokens behind an opening angle bracket in an expression that are types: up to and
with the bracket that closes it, or none if it compares two values. A comma between parameters never
stands among types, for what follows it is a pattern, and an equals sign comes before a further
angle bracket can. -/
def bracketedTypesLength (ts : List Token) : Nat := (anglesLength 1 0 ts).getD 0

/-- What follows an expression: the rest from the first comma outside of all brackets on. The first
`hold` tokens are passed over unseen, and `depth` brackets are open. -/
def dropValue (typed : Bool) : (hold depth : Nat) → List Token → List Token
  | _, _, [] => []
  | hold + 1, depth, _ :: ts => dropValue typed hold depth ts
  | 0, 0, t :: ts =>
    match t.kind with
    | .opener => dropValue typed 0 1 ts
    | .mark =>
      if t.text = "," then t :: ts
      else if typed && t.text = "<" then dropValue typed (bracketedTypesLength ts) 0 ts
      else dropValue typed 0 0 ts
    | _ => dropValue typed 0 0 ts
  | 0, depth + 1, t :: ts =>
    match t.kind with
    | .opener => dropValue typed 0 (depth + 2) ts
    | .closer => dropValue typed 0 depth ts
    | _ => dropValue typed 0 (depth + 1) ts

/-! ### Parameters -/

/-- Words that may stand in front of a parameter without belonging to its name. -/
def parameterModifiers : List String := ["public", "private", "protected", "override", "readonly"]

def startsPattern (t : Token) : Bool :=
  t.kind == .word || t.opens "\x7b" || t.opens "[" || t.isMark "..."

def dropModifiers : (fuel : Nat) → List Token → List Token
  | 0, ts => ts
  | _ + 1, [] => []
  | fuel + 1, t :: ts =>
    if t.isMark "@" then dropModifiers fuel (dropCall (dropDotted (splitPiece ts).2))
    else if t.kind == .word && t.text ∈ parameterModifiers && ts.head?.any startsPattern then
      dropModifiers fuel ts
    else t :: ts

def dropMark (text : String) : List Token → List Token
  | [] => []
  | t :: ts => if t.isMark text then ts else t :: ts

/-- The annotation behind a pattern or a list of parameters. Only typed dialects have annotations. -/
def annotationIn (typed atEnd : Bool) (ts : List Token) : Option AnnotationNode × List Token :=
  if typed then annotationNode atEnd ts else (none, ts)

/-- The pattern of a parameter, the dots in front of it and, without types, the default value behind
it included; the default value of a typed parameter is no part of its pattern. -/
def patternNode (typed dots value : Bool) (text : String) : PatternNode :=
  let bound := PatternNode.bound text
  let pattern := if dots then bound.rest else bound
  if value && !typed then pattern.assignment else pattern

def parameterNode (typed : Bool) (ts : List Token) : ParameterNode × List Token :=
  let front := dropModifiers ts.length ts
  let (pattern, rest) := splitPiece (dropMark "..." front)
  let (declared, rest) := annotationIn typed false (dropMark "?" rest)
  let node := patternNode typed (front.head?.any (·.isMark "...")) (rest.head?.any (·.isMark "="))
    (spell pattern)
  (if typed then .annotated node declared else .bare node, dropValue typed 0 0 rest)

def parameterNodes (typed : Bool) : (fuel : Nat) → List Token → List ParameterNode
  | 0, _ | _, [] => []
  | fuel + 1, t :: ts =>
    if t.isMark "," then parameterNodes typed fuel ts
    else
      let (p, rest) := parameterNode typed (t :: ts)
      p :: parameterNodes typed fuel rest

/-! ### Signatures -/

/-- A signature, the body's tokens between its braces if there is one, and what follows. -/
structure SignatureReading where
  signature : Signature
  body : List Token
  rest : List Token

def readName : List Token → Option String × List Token
  | [] => (none, [])
  | t :: ts => if t.kind == .word then (some t.text, ts) else (none, t :: ts)

def dropTypeParameters : List Token → List Token
  | [] => []
  | t :: ts => if t.isMark "<" then dropAngles 1 ts else t :: ts

def readBody : List Token → List Token × List Token
  | [] => ([], [])
  | t :: ts =>
    if t.opens "\x7b" then let r := splitPiece (t :: ts); (inside r.1, r.2) else ([], t :: ts)

/-- Reads the tokens behind the word `function`. -/
def readSignature (typed : Bool) (ts : List Token) : Option SignatureReading :=
  let (name, ts) := readName (dropMark "*" ts)
  match dropTypeParameters ts with
  | [] => none
  | t :: ts =>
    if t.opens "(" then
      let (group, rest) := splitPiece (t :: ts)
      let (result, rest) := annotationIn typed true rest
      let (body, rest) := readBody rest
      let node : FunctionNode := ⟨name, parameterNodes typed group.length (inside group), result⟩
      some ⟨node.signature, body, rest⟩
    else none

end ScriptManifest.Source
