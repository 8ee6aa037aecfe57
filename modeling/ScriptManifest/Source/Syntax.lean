/-!
The syntax of a signature: the nodes that the grammar has for types, annotations, parameters and
functions. What a node means for a manifest is said elsewhere.
-/

namespace ScriptManifest.Source

/-- A type. Every node keeps the text it was written with. -/
inductive TypeNode
  | predefined (text : String)
  /-- The name of a type, dotted or not. -/
  | name (text : String)
  | generic (head : String) (arguments : List TypeNode) (text : String)
  | array (element : TypeNode) (text : String)
  | other (text : String)
deriving Repr, Inhabited

def TypeNode.text : TypeNode → String
  | predefined t | name t | generic _ _ t | array _ t | other t => t

inductive AnnotationNode
  | type (node : TypeNode)
  /-- What a call establishes about an argument, colon included. -/
  | predicate (text : String)
deriving Repr

inductive PatternNode
  /-- A name, or the pattern of an object or an array. -/
  | bound (text : String)
  | rest (inner : PatternNode)
  | assignment (left : PatternNode)
deriving Repr

inductive ParameterNode
  /-- A parameter of a typed dialect, its default value left out. -/
  | annotated (pattern : PatternNode) (declared : Option AnnotationNode)
  | bare (pattern : PatternNode)
deriving Repr

structure FunctionNode where
  name : Option String
  parameters : List ParameterNode
  result : Option AnnotationNode
deriving Repr

end ScriptManifest.Source
