import ScriptManifest.Source.Tree

/-!
Reading a program: the tokens of a source become the items of a tree. An item is a comment, a
function declaration with the statements that wrap it, or one piece of other code. A word
`function` declares only where a statement may start; elsewhere it is part of an expression.
-/

namespace ScriptManifest.Source

inductive Edge
  /-- A statement has ended. -/
  | boundary
  /-- An operand has ended: a statement may start on a new line. -/
  | operand
  /-- Something has to follow that is no statement of its own. -/
  | joint
deriving DecidableEq, Repr

structure Before where
  edge : Edge := .boundary
  last : String := ""
  /-- The number of `do` statements that wait for their `while`. -/
  openDo : Nat := 0
  /-- The last token is the `while` of a `do` statement. -/
  closesDo : Bool := false
  /-- The statement is one behind whose braces no semicolon is ever understood. -/
  bare : Bool := false
deriving DecidableEq, Repr

/-- Words that start a statement behind whose braces no semicolon is understood. -/
def bareWords : List String := ["interface", "enum", "switch", "abstract"]

def leadingWords : List String := ["export", "declare", "default", "const"]

/-- Reserved words that something other than a statement of its own has to follow. `void` is not
one of them, for it may be the type that ends a statement. -/
def openWords : List String :=
  ["typeof", "new", "delete", "throw", "await", "in", "instanceof", "extends", "else", "case",
    "default", "return"]

def Before.admits (b : Before) (t : Token) : Bool :=
  b.edge = .boundary || (b.edge = .operand && t.startsLine)

def Before.bareAfter (b : Before) (t : Token) : Bool :=
  if b.admits t || b.last ∈ leadingWords || t.text = "switch" then t.text ∈ bareWords else b.bare

/-- What is remembered behind one piece of code: a token, or a bracketed stretch named by its
opener. -/
def Before.after (b : Before) (t : Token) : Before :=
  let bare := if t.kind == .word then b.bareAfter t else b.bare
  let b' := { b with last := t.text, closesDo := false, bare := bare }
  match t.kind with
  | .word =>
    if b.last ∈ memberMarks then { b' with edge := .operand, last := "" }
    else if t.text = "do" then { b' with edge := .joint, openDo := b.openDo + 1 }
    else if t.text = "while" then
      { b' with edge := .operand, closesDo := decide (0 < b.openDo) && b.edge != .joint }
    -- `for await` has the header of a `for`
    else if t.text = "await" && b.last = "for" then { b' with edge := .joint, last := "for" }
    else { b' with edge := if t.text ∈ openWords then .joint else .operand }
  | .opener =>
    if t.text = "(" then
      if b.closesDo then { b' with edge := .boundary, openDo := b.openDo - 1 }
      else if b.last ∈ headerWords then { b' with edge := .joint }
      else { b' with edge := .operand }
    else { b' with edge := if t.text = "\x7b" then .boundary else .operand }
  | .mark =>
    match t.text with
    | ";" | ")" | "]" | "\x7d" => { b' with edge := .boundary }
    | ">" => { b' with edge := .operand }
    | "++" | "--" | "!" =>
      { b' with edge := if b.edge = .operand && !t.startsLine then .operand else .joint }
    | _ => { b' with edge := .joint }
  | _ => { b' with edge := .operand }

def Before.afterDeclaration : Before := { last := "\x7b" }

def Before.takesSemicolon (b : Before) : Bool :=
  b.last != "" && b.last != ";" && !(b.bare && b.last == "\x7b")

def Lexeme.isLineComment (x : Lexeme) : Bool :=
  x.kind == .comment && "//".toList.isPrefixOf x.text.toList

/-- What stands in front of a token and does not belong to the statement before. A comment on the
line on which a statement ends is part of it if the semicolon is understood behind the comment:
in typed dialects whenever one is understood, in the others only in front of a comment to the end
of that line. -/
def Before.ownLead (typed : Bool) (b : Before) (t : Token) : List Lexeme :=
  let sameLine := t.lead.takeWhile (!·.endsLine)
  let further := t.lead.dropWhile (!·.endsLine)
  let belongs :=
    if typed then b.takesSemicolon else b.edge = .operand && sameLine.any Lexeme.isLineComment
  if !further.isEmpty && belongs then further else t.lead

/-- Whether an expression goes on with the next token. On a new line only those marks continue it
in front of which no semicolon is understood. -/
def continuesExpression : List Token → Bool
  | [] => false
  | t :: _ =>
    match t.kind with
    | .mark =>
      if t.text = ";" then false
      else !(t.startsLine && t.text ∈ ["++", "--", "!", "~", "@", "#", ")", "]", "\x7d"])
    | .opener => !t.startsLine || t.text ∈ ["(", "[", "\x60"]
    | .word => !t.startsLine || t.text = "in" || t.text = "instanceof"
    | _ => !t.startsLine

/-- A function at the front of a list of tokens: `function`, or `async function` on one line unless
`anyLine` is set. -/
def readFunction (typed anyLine : Bool) : List Token → Option SignatureReading
  | [] => none
  | t :: ts =>
    if t.isWord "function" then readSignature typed ts
    else match ts with
      | [] => none
      | u :: us =>
        if t.isWord "async" && u.isWord "function" && (anyLine || !u.startsLine) then
          readSignature typed us
        else none

/-- A function declaration: the labels of the statements around it, outermost first, its own label,
the tokens of its body and what follows it. -/
structure Head where
  wrappers : List Label
  label : Label
  body : List Token
  rest : List Token

def SignatureReading.asDeclaration? (wrappers : List Label) (r : SignatureReading) : Option Head :=
  if r.signature.name.isSome then some ⟨wrappers, .declaration r.signature, r.body, r.rest⟩ else none

/-- The head of a function that is the whole operand of an `export`. -/
def SignatureReading.asOperand? (r : SignatureReading) : Option Head :=
  if continuesExpression r.rest then none
  else some ⟨[.exported], .expression r.signature, r.body, r.rest⟩

def readExported (typed : Bool) (ts : List Token) : Option Head :=
  match ts with
  | [] => none
  | t :: rest =>
    if t.isWord "default" then
      (readFunction typed false rest).bind fun r =>
        (r.asDeclaration? [.exported]).or r.asOperand?
    else if t.isMark "=" then (readFunction typed false rest).bind SignatureReading.asOperand?
    else if t.isWord "declare" then
      (readFunction typed true rest).bind (·.asDeclaration? [.exported, .ambient])
    else (readFunction typed true ts).bind (·.asDeclaration? [.exported])

def readHead (typed : Bool) (ts : List Token) : Option Head :=
  match ts with
  | [] => none
  | t :: rest =>
    if t.isWord "export" then readExported typed rest
    else if t.isWord "declare" && rest.head?.any (!·.startsLine) then
      (readFunction typed false rest).bind (·.asDeclaration? [.ambient])
    else (readFunction typed false ts).bind (·.asDeclaration? [])

def leadNodes (lead : List Lexeme) : List Tree :=
  lead.filterMap fun x =>
    match x.kind with
    | .comment => some (.node (.comment x.text) [])
    | .aside => some (.node .aside [])
    | _ => none

def wrapNode (wrappers : List Label) (t : Tree) : Tree :=
  wrappers.foldr (fun l t => .node l [t]) t

/-- The items of a list of tokens behind some code; `fuel` bounds their number and depth. -/
def itemsFrom (typed : Bool) : (fuel : Nat) → Before → List Token → List Tree
  | 0, _, _ | _, _, [] => []
  | fuel + 1, b, t :: ts =>
    leadNodes (b.ownLead typed t) ++
      match if b.admits t then readHead typed (t :: ts) else none with
      | some h =>
        wrapNode h.wrappers (.node h.label [.node .group (itemsFrom typed fuel {} h.body)]) ::
          itemsFrom typed fuel .afterDeclaration h.rest
      | none =>
        let (piece, rest) := splitPiece (t :: ts)
        .node .code (itemsFrom typed fuel {} (inside piece)) ::
          itemsFrom typed fuel (b.after t) rest

def treeOfTokens (typed : Bool) (ts : List Token) : Tree :=
  .node .program (itemsFrom typed ts.length {} ts)

def tokensOf (d : Dialect) (source : String) : List Token :=
  Token.ofLexemes (lexemes d source)

def parse (d : Dialect) (source : String) : Tree :=
  treeOfTokens d.isTyped (tokensOf d source)

/-! ### Damage -/

def joiningMarks : List String :=
  ["+", "-", "*", "/", "%", "=", "=>", "&&", "||", "??", "==", "!=", "&", "|", "^", "."]

/-- Whether the tokens cannot be those of a well-formed program: a closing bracket without its
opener, a bracket that stays open, or an operator without an operand. -/
def isDamaged : (depth : Nat) → List Token → Bool
  | depth, [] => 0 < depth
  | depth, t :: ts =>
    match t.kind with
    | .opener => isDamaged (depth + 1) ts
    | .closer => isDamaged (depth - 1) ts
    | .mark =>
      t.text ∈ [")", "]", "\x7d"] ||
        (t.text ∈ joiningMarks && ts.head?.any fun u => u.isMark ";" || u.kind == .closer) ||
        isDamaged depth ts
    | _ => isDamaged depth ts

end ScriptManifest.Source
