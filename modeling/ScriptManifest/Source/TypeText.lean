import ScriptManifest.Source.Syntax
import ScriptManifest.Source.Token

/-!
Reading a type off a list of tokens. Predefined types, references with their type arguments and
array types are read level by level; of every other type only its extent matters, and that is found
by one pass which alternates between operands and what may join them. A type that may be the last
part of a statement is read with `atEnd` set: no bracket on a new line goes on with it.
-/

namespace ScriptManifest.Source

def predefinedTypes : List String :=
  ["any", "number", "boolean", "string", "symbol", "void", "unknown", "never", "object"]

def literalTypes : List String := ["null", "undefined", "true", "false", "this"]

def startsOperand (t : Token) : Bool :=
  match t.kind with
  | .word | .number | .text | .opener => true
  | .mark => t.text == "<" || t.text == "-"
  | _ => false

/-- Whether a word, in front of the token `next`, asks for an operand of its own. -/
def isTypeOperator (word : String) (next : Option Token) : Bool :=
  match next with
  | none => false
  | some t =>
    match word with
    | "keyof" | "readonly" | "typeof" | "new" => startsOperand t
    | "infer" | "const" => t.kind == .word
    | "asserts" => t.kind == .word && !t.startsLine
    | "unique" => t.isWord "symbol"
    | "abstract" => t.isWord "new"
    | _ => false

/-- Whether a square bracket goes on with the type in front of it. On a new line it does not if a
semicolon may be understood there. -/
def continuesArray (atEnd : Bool) (t : Token) : Bool :=
  t.opens "[" && !(atEnd && t.followsLineEnd)

/-! ### The extent of a type -/

/-- How far into a type a pass over its tokens has come. -/
structure Extent where
  /-- An operand has to follow. -/
  operand : Bool := true
  depth : Nat := 0
  /-- The angle brackets that are open, innermost first; `true` for a list of type parameters. -/
  angles : List Bool := []
  /-- The word `extends` has been seen, so that a question mark asks for two branches. -/
  conditional : Bool := false
  /-- The number of branches whose colon has not come yet. -/
  branches : Nat := 0
  last : String := ""
  /-- A statement may end with the type. -/
  atEnd : Bool := false

/-- The state behind a token, or `none` if the type ends in front of it. -/
def Extent.step (e : Extent) (t : Token) (next : Option Token) : Option Extent :=
  let e' := { e with last := t.text }
  if 0 < e.depth then
    match t.kind with
    | .opener => some { e' with depth := e.depth + 1 }
    | .closer => some { e' with depth := e.depth - 1 }
    | _ => some e'
  else if e.operand then
    match t.kind with
    | .word => some { e' with operand := isTypeOperator t.text next }
    | .number | .text => some { e' with operand := false }
    | .opener => some { e' with operand := false, depth := 1 }
    | .mark =>
      match t.text, e.angles with
      | "|", _ | "&", _ | "-", _ => some e'
      | "<", _ => some { e' with angles := true :: e.angles }
      | ">", parameters :: rest => some { e' with angles := rest, operand := parameters }
      | _, _ => none
    | _ => none
  else
    match t.kind with
    | .word =>
      if t.text = "extends" then some { e' with operand := true, conditional := true }
      else if t.text = "is" && !t.startsLine then some { e' with operand := true }
      else none
    | .opener =>
      if continuesArray (e.atEnd && e.angles.isEmpty) t || (t.text = "(" && e.last = "import") then
        some { e' with depth := 1 }
      else none
    | .mark =>
      match t.text, e.angles with
      | "|", _ | "&", _ | ".", _ | "=>", _ => some { e' with operand := true }
      | "?", _ =>
        if e.conditional then some { e' with operand := true, branches := e.branches + 1 } else none
      | ":", _ =>
        if 0 < e.branches then some { e' with operand := true, branches := e.branches - 1 } else none
      | "<", _ => some { e' with operand := true, angles := false :: e.angles }
      | ">", parameters :: rest => some { e' with angles := rest, operand := parameters }
      | ",", _ :: _ | "=", _ :: _ => some { e' with operand := true }
      | _, _ => none
    | _ => none

def typeLength (e : Extent) : List Token → Nat
  | [] => 0
  | t :: ts =>
    match e.step t ts.head? with
    | none => 0
    | some e' => 1 + typeLength e' ts

/-- A type of which only the text matters. -/
def readWholeType (atEnd : Bool) (ts : List Token) : Option (TypeNode × List Token) :=
  match typeLength { atEnd := atEnd } ts with
  | 0 => none
  | n + 1 => some (.other (spell (ts.take (n + 1))), ts.drop (n + 1))

/-! ### Types read level by level -/

def upTo (ts rest : List Token) : List Token := ts.take (ts.length - rest.length)

def dropDotted : List Token → List Token
  | dot :: part :: ts =>
    if dot.isMark "." && part.kind == .word then dropDotted ts else dot :: part :: ts
  | ts => ts

def dropCall : List Token → List Token
  | [] => []
  | t :: ts => if t.opens "(" then (splitPiece (t :: ts)).2 else t :: ts

def dropFinalComma : List Token → List Token
  | comma :: t :: ts => if comma.isMark "," && t.isMark ">" then t :: ts else comma :: t :: ts
  | ts => ts

/-- Array brackets behind a type: empty ones make an array, others pick a member. -/
def readSuffixes (atEnd : Bool) :
    (fuel : Nat) → TypeNode → List Token → TypeNode × List Token
  | 0, a, ts => (a, ts)
  | _ + 1, a, [] => (a, [])
  | fuel + 1, a, t :: ts =>
    if continuesArray atEnd t then
      let (group, rest) := splitPiece (t :: ts)
      let text := a.text ++ String.join (group.map Token.spelling)
      readSuffixes atEnd fuel (if group.length = 2 then .array a text else .other text) rest
    else (a, t :: ts)

def continuesType : List Token → Bool
  | [] => false
  | t :: _ => t.isMark "|" || t.isMark "&" || t.isWord "extends" || (t.isWord "is" && !t.startsLine)

/-- Whether the tokens start a function type: a list of type parameters, or parentheses in front of
an arrow. -/
def startsFunctionType (ts : List Token) : Bool :=
  match ts with
  | [] => false
  | t :: _ => t.isMark "<" || (t.opens "(" && (splitPiece ts).2.head?.any (·.isMark "=>"))

mutual

/-- A type at the front of a list of tokens, and what follows it; `fuel` bounds the nesting. -/
def readType : (atEnd : Bool) → (fuel : Nat) → List Token → Option (TypeNode × List Token)
  | _, 0, _ => none
  | atEnd, fuel + 1, ts =>
    if startsFunctionType ts then readWholeType atEnd ts
    else match readOperand fuel ts with
      | none => readWholeType atEnd ts
      | some (a, rest) =>
        let (b, rest') := readSuffixes atEnd rest.length a rest
        if continuesType rest' then readWholeType atEnd ts else some (b, rest')

/-- The part of a type that array brackets may follow. -/
def readOperand : (fuel : Nat) → List Token → Option (TypeNode × List Token)
  | 0, _ | _, [] => none
  | fuel + 1, t :: ts =>
    match t.kind with
    | .number | .text => some (.other t.text, ts)
    | .opener => let (group, rest) := splitPiece (t :: ts); some (.other (spell group), rest)
    | .mark =>
      match ts with
      | n :: rest =>
        if t.isMark "-" && n.kind == .number then some (.other (spell [t, n]), rest) else none
      | [] => none
    | .word =>
      if t.text ∈ predefinedTypes then some (.predefined t.text, ts)
      else if t.text ∈ literalTypes then some (.other t.text, ts)
      else match t.text, ts with
        | "unique", s :: rest =>
          if s.isWord "symbol" then some (.predefined (spell [t, s]), rest)
          else readReference fuel t ts
        | "typeof", w :: rest =>
          if w.kind == .word then
            match readReference fuel w (if w.isWord "import" then dropCall rest else rest) with
            | some (_, rest') => some (.other (spell (upTo (t :: ts) rest')), rest')
            | none => none
          else none
        | "import", p :: _ =>
          if p.opens "(" then
            match readReference fuel t (splitPiece ts).2 with
            | some (_, rest') => some (.other (spell (upTo (t :: ts) rest')), rest')
            | none => none
          else readReference fuel t ts
        | word, _ => if isTypeOperator word ts.head? then none else readReference fuel t ts
    | _ => none

def readReference : (fuel : Nat) → (first : Token) → List Token → Option (TypeNode × List Token)
  | 0, _, _ => none
  | fuel + 1, first, ts =>
    let rest := dropDotted ts
    let name := spell (first :: upTo ts rest)
    match rest with
    | angle :: inner =>
      if angle.isMark "<" then
        match readArguments fuel inner with
        | some (args, rest') => some (.generic name args (spell (first :: upTo ts rest')), rest')
        | none => none
      else some (.name name, rest)
    | [] => some (.name name, rest)

/-- Type arguments behind their opening angle bracket, up to and with the closing one. -/
def readArguments : (fuel : Nat) → List Token → Option (List TypeNode × List Token)
  | 0, _ => none
  | fuel + 1, ts =>
    match readType false fuel ts with
    | none => none
    | some (a, rest) =>
      match dropFinalComma rest with
      | [] => none
      | t :: rest =>
        if t.isMark ">" then some ([a], rest)
        else if t.isMark "," then
          match readArguments fuel rest with
          | some (as, rest') => some (a :: as, rest')
          | none => none
        else none

end

/-- Whether the tokens behind the colon of a result say what a call establishes about an argument:
`x is T` or `asserts x`. -/
def startsPredicate : List Token → Bool
  | a :: b :: _ =>
    a.kind == .word && b.kind == .word && !b.startsLine && (b.text == "is" || a.text == "asserts")
  | _ => false

/-- The annotation behind a pattern or a list of parameters, if one is there, and what follows it.
The text of a predicate starts at the colon. -/
def annotationNode (atEnd : Bool) (ts : List Token) : Option AnnotationNode × List Token :=
  match ts with
  | [] => (none, [])
  | colon :: rest =>
    if !colon.isMark ":" then (none, ts)
    else if startsPredicate rest then
      let n := typeLength { atEnd := atEnd } rest
      (some (.predicate (spell (colon :: rest.take n))), rest.drop n)
    else match readType atEnd (4 * rest.length + 4) rest with
      | some (node, rest') => (some (.type node), rest')
      | none => (none, rest)

end ScriptManifest.Source
