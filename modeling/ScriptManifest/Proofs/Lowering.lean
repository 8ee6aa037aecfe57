import ScriptManifest.Source.Signature

/-!
Reading and lowering in one go. What the reader of the syntax finds, together with what it means:
a declared type, an annotation, a parameter, a list of parameters. Proofs about a signature go
through these, since the syntax in between matters to none of them (`readSignature_eq`).
-/

namespace ScriptManifest.Source

theorem TypeNode.lowerAll_eq_map (nodes : List TypeNode) :
    TypeNode.lower.lowerAll nodes = nodes.map TypeNode.lower := by
  induction nodes with
  | nil => rfl
  | cons a as ih => rw [TypeNode.lower.lowerAll, ih, List.map_cons]

@[simp] theorem TypeNode.text_lower (node : TypeNode) : node.lower.text = node.text := by
  cases node <;> rw [TypeNode.lower] <;> rfl

@[simp] theorem name_patternNode (typed dots value : Bool) (text : String) :
    (patternNode typed dots value text).name = text := by
  cases typed <;> cases dots <;> cases value <;> rfl

/-! ### Annotations -/

def readDeclaredType (atEnd : Bool) (ts : List Token) : Option (DeclaredType × List Token) :=
  (readType atEnd (4 * ts.length + 4) ts).map fun r => (r.1.lower, r.2)

def readResult (atEnd : Bool) (ts : List Token) : Option DeclaredType × List Token :=
  ((annotationNode atEnd ts).1.map AnnotationNode.lower, (annotationNode atEnd ts).2)

theorem readResult_cons (atEnd : Bool) (colon : Token) (rest : List Token) :
    readResult atEnd (colon :: rest) =
      if !colon.isMark ":" then (none, colon :: rest)
      else if startsPredicate rest then
        (some (.other (spell (colon :: rest.take (typeLength { atEnd := atEnd } rest)))),
          rest.drop (typeLength { atEnd := atEnd } rest))
      else match readDeclaredType atEnd rest with
        | some (a, rest') => (some a, rest')
        | none => (none, rest) := by
  rw [readResult, annotationNode, readDeclaredType]
  split
  · rfl
  · split
    · rfl
    · cases readType atEnd (4 * rest.length + 4) rest <;> rfl

def readAnnotated (typed atEnd : Bool) (ts : List Token) : Option DeclaredType × List Token :=
  if typed then readResult atEnd ts else (none, ts)

@[simp] theorem readAnnotated_typed (atEnd : Bool) (ts : List Token) :
    readAnnotated true atEnd ts = readResult atEnd ts := rfl

theorem readAnnotated_eq (typed atEnd : Bool) (ts : List Token) :
    readAnnotated typed atEnd ts =
      ((annotationIn typed atEnd ts).1.map AnnotationNode.lower, (annotationIn typed atEnd ts).2) := by
  cases typed <;> rfl

/-! ### Parameters -/

def readParameter (typed : Bool) (ts : List Token) : Parameter × List Token :=
  ((parameterNode typed ts).1.declared, (parameterNode typed ts).2)

theorem readParameter_eq (typed : Bool) (ts : List Token) :
    readParameter typed ts =
      let piece := splitPiece (dropMark "..." (dropModifiers ts.length ts))
      let declared := readAnnotated typed false (dropMark "?" piece.2)
      (⟨spell piece.1, declared.1⟩, dropValue typed 0 0 declared.2) := by
  simp only [readParameter, parameterNode, readAnnotated_eq]
  cases typed with
  | false => simp [annotationIn, ParameterNode.declared]
  | true => simp [ParameterNode.declared]

def readParameters (typed : Bool) (fuel : Nat) (ts : List Token) : List Parameter :=
  (parameterNodes typed fuel ts).map ParameterNode.declared

@[simp] theorem readParameters_zero (typed : Bool) (ts : List Token) :
    readParameters typed 0 ts = [] := by
  rw [readParameters, parameterNodes, List.map_nil]

@[simp] theorem readParameters_nil (typed : Bool) (fuel : Nat) :
    readParameters typed fuel [] = [] := by
  cases fuel <;> rfl

theorem readParameters_succ (typed : Bool) (fuel : Nat) (t : Token) (ts : List Token) :
    readParameters typed (fuel + 1) (t :: ts) =
      if t.isMark "," then readParameters typed fuel ts
      else (readParameter typed (t :: ts)).1 ::
        readParameters typed fuel (readParameter typed (t :: ts)).2 := by
  rw [readParameters, parameterNodes]
  split <;> rfl

/-! ### Signatures -/

theorem readSignature_eq (typed : Bool) (ts : List Token) :
    readSignature typed ts =
      let named := readName (dropMark "*" ts)
      match dropTypeParameters named.2 with
      | [] => none
      | t :: us =>
        if t.opens "(" then
          let group := splitPiece (t :: us)
          let result := readAnnotated typed true group.2
          let body := readBody result.2
          some ⟨⟨named.1, readParameters typed group.1.length (inside group.1), result.1⟩, body.1, body.2⟩
        else none := by
  simp only [readSignature, readAnnotated_eq]
  rfl

end ScriptManifest.Source
