import ScriptManifest.Signature.DeclaredType
import ScriptManifest.Source.Syntax

/-!
From the syntax of a function to its signature: the names that its patterns bind and the types that
its annotations declare.
-/

namespace ScriptManifest.Source

/-- A declared parameter. The name of a destructuring pattern is its source text. -/
structure Parameter where
  name : String
  declaredType : Option DeclaredType
deriving Repr

structure Signature where
  name : Option String
  parameters : List Parameter
  result : Option DeclaredType
deriving Repr

/-- The type that a node declares: only arrays and the arguments of a reference are looked into. -/
def TypeNode.lower : TypeNode → DeclaredType
  | predefined text => .primitive text text
  | name text => .named text [] text
  | generic head arguments text => .named head (lowerAll arguments) text
  | array element text => .array element.lower text
  | other text => .other text
where
  lowerAll : List TypeNode → List DeclaredType
    | [] => []
    | a :: as => a.lower :: lowerAll as

def AnnotationNode.lower : AnnotationNode → DeclaredType
  | type node => node.lower
  | predicate text => .other text

/-- The name that a pattern binds, its dots and its default value aside. -/
def PatternNode.name : PatternNode → String
  | bound text => text
  | rest inner => inner.name
  | assignment left => left.name

def ParameterNode.declared : ParameterNode → Parameter
  | annotated pattern declared => ⟨pattern.name, declared.map AnnotationNode.lower⟩
  | bare pattern => ⟨pattern.name, none⟩

def FunctionNode.signature (f : FunctionNode) : Signature :=
  ⟨f.name, f.parameters.map ParameterNode.declared, f.result.map AnnotationNode.lower⟩

end ScriptManifest.Source
