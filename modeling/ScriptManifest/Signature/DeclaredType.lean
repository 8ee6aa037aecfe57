import ScriptManifest.Text.Blank

/-!
Type annotations as the analysis of a signature sees them: the shape of the type, at every level
together with its source text.
-/

namespace ScriptManifest

/-- A type annotation. Every level keeps the text it was written with. -/
inductive DeclaredType
  /-- A predefined type such as `number` or `void`. -/
  | primitive (keyword : String) (text : String)
  /-- The array type `T[]`. -/
  | array (element : DeclaredType) (text : String)
  /-- A reference to a type by name, with its type arguments. -/
  | named (name : String) (arguments : List DeclaredType) (text : String)
  /-- Any other type: a union, a literal, an object type and so on. -/
  | other (text : String)
deriving Repr, Inhabited

namespace DeclaredType

def text : DeclaredType → String
  | primitive _ t | array _ t | named _ _ t | other t => t

def ofKeyword (keyword : String) : DeclaredType := .primitive keyword keyword

def arrayOf (element : DeclaredType) : DeclaredType := .array element (element.text ++ "[]")

/-- A reference in its plain spelling: arguments in angle brackets, a comma and a blank between
two of them. -/
def reference (name : String) (arguments : List DeclaredType) : DeclaredType :=
  if arguments.isEmpty then .named name [] name
  else .named name arguments (name ++ "<" ++ ", ".intercalate (arguments.map text) ++ ">")

def referenceName? : DeclaredType → Option String
  | named name _ _ => some name
  | _ => none

def typeArguments : DeclaredType → List DeclaredType
  | named _ args _ => args
  | _ => []

def onlyArgumentOf? (name : String) (a : DeclaredType) : Option DeclaredType :=
  match a with
  | named n [arg] _ => if n = name then some arg else none
  | _ => none

def arrayName : String := "Array"

def asyncName : String := "Promise"

/-- The names of the streaming handler type, the current one first. -/
def handlerNames : List String :=
  ["CustomFunctions.StreamingHandler", "IStreamingCustomFunctionHandler"]

def singleArray? : DeclaredType → Option DeclaredType := onlyArgumentOf? arrayName

def async? : DeclaredType → Option DeclaredType := onlyArgumentOf? asyncName

def isStreamingHandler (a : DeclaredType) : Bool :=
  a.referenceName?.any (· ∈ handlerNames)

/-- Whether the annotation says `void`, blanks aside. -/
def isVoid (a : DeclaredType) : Bool :=
  Text.trim a.text.toList == "void".toList

end DeclaredType

end ScriptManifest
