import ScriptManifest.Source.Signature

/-!
The tree of a program, and the walk that finds its top-level function declarations. The walk visits
every node with a cursor, in the order of the text; whether a node is selected is judged from the
cursor's trail alone. `Tree.topLevel` says the same thing by going through the program's own items.
-/

namespace ScriptManifest.Source

inductive Label
  | program
  | exported
  | ambient
  /-- A function declared by name, with or without a body. -/
  | declaration (signature : Signature)
  | expression (signature : Signature)
  | comment (text : String)
  /-- A `#!` line or a comment in the style of HTML. -/
  | aside
  | group
  | code
deriving Repr

inductive Tree
  | node (label : Label) (children : List Tree)
deriving Repr

structure Declaration where
  comments : List String
  signature : Signature
deriving Repr

namespace Label

/-- Statements that wrap a declaration without opening a scope of their own. -/
def isWrapper : Label → Bool
  | exported | ambient => true
  | _ => false

def isProgram : Label → Bool
  | program => true
  | _ => false

def isExported : Label → Bool
  | exported => true
  | _ => false

def comment? : Label → Option String
  | comment text => some text
  | _ => none

/-- The signature that a label declares, given the label of the parent: a function that is a value
declares itself only as the operand of an `export`. -/
def declared? (parent : Option Label) : Label → Option Signature
  | declaration s => some s
  | expression s => if parent.any isExported then some s else none
  | _ => none

end Label

namespace Tree

def label : Tree → Label
  | node l _ => l

def children : Tree → List Tree
  | node _ cs => cs

def size : Tree → Nat
  | node _ cs => 1 + sizes cs
where
  sizes : List Tree → Nat
    | [] => 0
    | t :: ts => size t + sizes ts

end Tree

/-- The comments at the end of a list of siblings, nearest first, up to the first node that is no
comment; the result is in the order of the text. -/
def commentRun (before : List Tree) : List String :=
  ((before.map (·.label.comment?)).takeWhile Option.isSome).reverse.filterMap id

/-! ### The walk with a cursor -/

/-- A step of the way from a node to the root: the parent's label, and the siblings on either side,
those in front nearest first. -/
structure Crumb where
  label : Label
  before : List Tree
  after : List Tree

structure Cursor where
  focus : Tree
  trail : List Crumb

namespace Cursor

def ofTree (t : Tree) : Cursor := ⟨t, []⟩

def firstChild? (c : Cursor) : Option Cursor :=
  match c.focus with
  | .node _ [] => none
  | .node l (t :: ts) => some ⟨t, ⟨l, [], ts⟩ :: c.trail⟩

/-- The next sibling of the focus, or else of the nearest ancestor that has one. -/
def nextAbove? : Tree → List Crumb → Option Cursor
  | _, [] => none
  | t, crumb :: trail =>
    match crumb.after with
    | u :: us => some ⟨u, ⟨crumb.label, t :: crumb.before, us⟩ :: trail⟩
    | [] => nextAbove? (.node crumb.label (crumb.before.reverse ++ [t])) trail

/-- The node that follows the focus in the order of the text. -/
def next? (c : Cursor) : Option Cursor :=
  c.firstChild? <|> nextAbove? c.focus c.trail

/-- The outermost of the statements that wrap a node, or the node itself. -/
def anchor : Tree → List Crumb → Cursor
  | t, [] => ⟨t, []⟩
  | t, crumb :: trail =>
    if crumb.label.isWrapper then
      anchor (.node crumb.label (crumb.before.reverse ++ t :: crumb.after)) trail
    else ⟨t, crumb :: trail⟩

/-- The declaration at the focus, if it declares a function at the top level: its anchor is an item
of the program. Its comments are those in front of the anchor. -/
def declaration? (c : Cursor) : Option Declaration :=
  match c.focus.label.declared? (c.trail.head?.map Crumb.label) with
  | none => none
  | some signature =>
    match (anchor c.focus c.trail).trail with
    | [] => none
    | crumb :: _ =>
      if crumb.label.isProgram then some ⟨commentRun crumb.before, signature⟩ else none

def declarationsFrom : (fuel : Nat) → Cursor → List Declaration
  | 0, _ => []
  | fuel + 1, c =>
    c.declaration?.toList ++ match c.next? with
      | none => []
      | some c' => declarationsFrom fuel c'

end Cursor

/-- The top-level function declarations of a program, in the order of the text. -/
def Tree.declarations (t : Tree) : List Declaration :=
  Cursor.declarationsFrom t.size (Cursor.ofTree t)

/-! ### The program's own items -/

/-- The signatures of the declarations in an item, looked for only below wrapping statements. -/
def Tree.signatures (parent : Label) : Tree → List Signature
  | .node l cs =>
    (l.declared? (some parent)).toList ++ if l.isWrapper then signaturesOf l cs else []
where
  signaturesOf (parent : Label) : List Tree → List Signature
    | [] => []
    | t :: ts => signatures parent t ++ signaturesOf parent ts

/-- The declarations among the items of a program, `before` standing in front of them, nearest
first. -/
def declarationsAmong (before : List Tree) : List Tree → List Declaration
  | [] => []
  | t :: ts =>
    (t.signatures .program).map (⟨commentRun before, ·⟩) ++ declarationsAmong (t :: before) ts

def Tree.topLevel (t : Tree) : List Declaration := declarationsAmong [] t.children

end ScriptManifest.Source
