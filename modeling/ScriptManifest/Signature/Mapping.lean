import ScriptManifest.Signature.DeclaredType

/-!
The value type and the dimensionality that an annotation maps to. A parameter may be a number, a
string or a boolean, alone or as a matrix written `T[][]`, `Array<T>` or `Array<Array<T>>`; a
result may be one of these inside `Promise<…>`; the result of a streaming function is the type
argument of its handler. Without an annotation anything goes, as a scalar.
-/

namespace ScriptManifest

inductive ValueType
  | number
  | string
  | boolean
  /-- No type was declared. -/
  | any
deriving DecidableEq, Repr

inductive Dimensionality
  | scalar
  | matrix
deriving DecidableEq, Repr

structure Mapping where
  type : ValueType
  dimensionality : Dimensionality
deriving DecidableEq, Repr

inductive ShapeError
  | invalidType (name : String)
  | invalidTypeArray (text : String)
  | invalidArrayTypeNode (text : String)
  | unmappedType
  | streamingHandlerArity
  | streamingReturnType
  | anonymousFunction
deriving DecidableEq, Repr

def ShapeError.message : ShapeError → String
  | invalidType name => "Invalid type: " ++ name
  | invalidTypeArray text => "Invalid type array: " ++ text
  | invalidArrayTypeNode text => "Invalid array type node: " ++ text
  | unmappedType => "Type doesn't match mappings"
  | streamingHandlerArity =>
    "The 'CustomFunctions.StreamingHandler' needs to be passed in a single result type " ++
      "(e.g., 'CustomFunctions.StreamingHandler < number >')"
  | streamingReturnType =>
    "A streaming function should not have a return type.  Instead, its type should be based " ++
      "purely on what's inside \"CustomFunctions.StreamingHandler<T>\"."
  | anonymousFunction => "Custom function declaration is missing a name"

/-- The value type of a type keyword. A declared `any` has none: only a missing annotation does. -/
def ValueType.ofKeyword? : String → Option ValueType
  | "number" => some number
  | "string" => some string
  | "boolean" => some boolean
  | _ => none

def Mapping.untyped : Mapping := ⟨.any, .scalar⟩

namespace DeclaredType

/-- The dimensionality, judged from the outermost shape alone. -/
def dimensionality : DeclaredType → Dimensionality
  | array .. | named .. => .matrix
  | primitive .. | other .. => .scalar

/-- The annotation whose keyword decides the value type. -/
def element? (a : DeclaredType) : Except ShapeError DeclaredType :=
  match a with
  | named name [inner@(named ..)] _ =>
    if name = arrayName then
      match inner.singleArray? with
      | some e => .ok e
      | none => .error (.invalidTypeArray inner.text)
    else .error (.invalidType name)
  | named name [inner] _ => if name = arrayName then .ok inner else .error (.invalidType name)
  | named name _ _ => if name = arrayName then .ok a else .error (.invalidType name)
  | array (array e _) _ => .ok e
  | array inner _ => .error (.invalidArrayTypeNode inner.text)
  | primitive .. | other .. => .ok a

def keywordType? : DeclaredType → Option ValueType
  | primitive keyword _ => ValueType.ofKeyword? keyword
  | _ => none

def mapping (a : DeclaredType) : Except ShapeError Mapping :=
  match a.element? with
  | .error e => .error e
  | .ok e =>
    match e.keywordType? with
    | some type => .ok ⟨type, a.dimensionality⟩
    | none => .error .unmappedType

end DeclaredType

def dimensionalityOf (a : Option DeclaredType) : Dimensionality :=
  match a with
  | none => .scalar
  | some a => a.dimensionality

def resolveType (a : Option DeclaredType) : Except ShapeError Mapping :=
  match a with
  | none => .ok .untyped
  | some a => a.mapping

/-- The mapping of a declared result: of `T` for `Promise<T>`. -/
def resolveReturn (a : Option DeclaredType) : Except ShapeError Mapping :=
  match a with
  | none => .ok .untyped
  | some a => (a.async?.getD a).mapping

/-- The mapping of a streaming function's result: that of the handler's only type argument. The
function must not declare a result other than `void`. -/
def resolveStreaming (handler : DeclaredType) (declared : Option DeclaredType) :
    Except ShapeError Mapping :=
  match handler.typeArguments with
  | [result] => if declared.any (!·.isVoid) then .error .streamingReturnType else result.mapping
  | _ => .error .streamingHandlerArity

end ScriptManifest
