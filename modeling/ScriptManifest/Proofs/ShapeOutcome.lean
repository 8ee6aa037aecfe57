import ScriptManifest.Proofs.Accounting
import ScriptManifest.Proofs.TypeLayout

/-!
What the shapes of a signature decide. The texts of annotations show in error messages only: whether
a declaration is accepted, and with which record, depends on the names, on the shapes, and on whether
the result says `void` (`Documented.record?_of_sameShape`).
-/

namespace ScriptManifest

open Manifest Source

namespace DeclaredType

@[simp] theorem keywordType?_shape (a : DeclaredType) : a.shape.keywordType? = a.keywordType? := by
  cases a <;> simp [shape, keywordType?]

@[simp] theorem dimensionality_shape (a : DeclaredType) :
    a.shape.dimensionality = a.dimensionality := by
  cases a <;> simp [shape, dimensionality]

@[simp] theorem typeArguments_shape (a : DeclaredType) :
    a.shape.typeArguments = a.typeArguments.map shape := by
  cases a <;> simp [shape, typeArguments, shapes_eq_map]

@[simp] theorem isStreamingHandler_shape (a : DeclaredType) :
    a.shape.isStreamingHandler = a.isStreamingHandler := by
  cases a <;> simp [shape, isStreamingHandler, referenceName?]

theorem onlyArgumentOf?_shape (name : String) (a : DeclaredType) :
    a.shape.onlyArgumentOf? name = (a.onlyArgumentOf? name).map shape := by
  cases a with
  | named n args text =>
    match args with
    | [] => rfl
    | [arg] =>
      simp only [shape, shape.shapes, onlyArgumentOf?]
      split <;> rfl
    | _ :: _ :: _ => rfl
  | primitive | array | other => rfl

theorem toOption_element?_shape (a : DeclaredType) :
    a.shape.element?.toOption = a.element?.toOption.map shape := by
  cases a with
  | primitive | other => simp [shape, element?, Except.toOption]
  | array element text => cases element <;> simp [shape, element?, Except.toOption]
  | named name args text =>
    by_cases hname : name = arrayName
    · cases args with
      | nil => simp [shape, shape.shapes, element?, hname, Except.toOption]
      | cons inner rest =>
        cases rest with
        | nil =>
          cases inner with
          | named n as t =>
            have hsingle := onlyArgumentOf?_shape arrayName (.named n as t)
            simp only [shape, shape.shapes, element?, hname, if_true, singleArray?] at hsingle ⊢
            rw [hsingle]
            cases (named n as t).onlyArgumentOf? arrayName <;> rfl
          | primitive | array | other =>
            simp [shape, shape.shapes, element?, hname, Except.toOption]
        | cons y zs => simp [shape, shape.shapes, element?, hname, Except.toOption]
    · cases args with
      | nil => simp [shape, shape.shapes, element?, hname, Except.toOption]
      | cons inner rest =>
        cases rest with
        | nil => cases inner <;> simp [shape, shape.shapes, element?, hname, Except.toOption]
        | cons y zs => simp [shape, shape.shapes, element?, hname, Except.toOption]

theorem toOption_mapping (a : DeclaredType) :
    a.mapping.toOption =
      (a.element?.toOption.bind keywordType?).map fun type => ⟨type, a.dimensionality⟩ := by
  rw [mapping]
  cases a.element? with
  | error e => rfl
  | ok e => cases hk : e.keywordType? <;> simp [Except.toOption, hk]

@[simp] theorem toOption_mapping_shape (a : DeclaredType) :
    a.shape.mapping.toOption = a.mapping.toOption := by
  rw [toOption_mapping, toOption_mapping, toOption_element?_shape, dimensionality_shape,
    Option.bind_map]
  congr 2
  funext e
  exact keywordType?_shape e

end DeclaredType

theorem toOption_resolveType_shape (a : Option DeclaredType) :
    (resolveType (a.map DeclaredType.shape)).toOption = (resolveType a).toOption := by
  cases a with
  | none => rfl
  | some a => exact DeclaredType.toOption_mapping_shape a

theorem toOption_resolveReturn_shape (a : Option DeclaredType) :
    (resolveReturn (a.map DeclaredType.shape)).toOption = (resolveReturn a).toOption := by
  cases a with
  | none => rfl
  | some a =>
    have hasync := DeclaredType.onlyArgumentOf?_shape DeclaredType.asyncName a
    simp only [Option.map_some, resolveReturn, DeclaredType.async?, hasync]
    cases a.onlyArgumentOf? DeclaredType.asyncName <;> simp

theorem toOption_resolveStreaming_shape (handler : DeclaredType) {a a' : Option DeclaredType}
    (h : a'.map DeclaredType.isVoid = a.map DeclaredType.isVoid) :
    (resolveStreaming handler.shape a').toOption = (resolveStreaming handler a).toOption := by
  have hany : a'.any (!·.isVoid) = a.any (!·.isVoid) := by
    cases a <;> cases a' <;> simp_all
  rw [resolveStreaming, resolveStreaming, DeclaredType.typeArguments_shape, hany]
  match handler.typeArguments with
  | [] => rfl
  | [result] =>
    simp only [List.map_cons, List.map_nil]
    split
    · rfl
    · exact result.toOption_mapping_shape
  | _ :: _ :: _ => rfl

/-! ### Parameters and signatures -/

namespace Source

def Parameter.shape (p : Parameter) : Parameter := ⟨p.name, p.declaredType.map DeclaredType.shape⟩

/-- A signature without the texts of its annotations. -/
def Signature.shape (s : Signature) : Signature :=
  ⟨s.name, s.parameters.map Parameter.shape, s.result.map DeclaredType.shape⟩

end Source

theorem toOption_parameterRecord_shape (s : Doc.Summary) (p : Parameter) :
    (parameterRecord s p.shape).toOption = (parameterRecord s p).toOption := by
  have hresolve := toOption_resolveType_shape p.declaredType
  rw [parameterRecord, parameterRecord, Parameter.shape]
  revert hresolve
  cases resolveType p.declaredType <;> cases resolveType (p.declaredType.map DeclaredType.shape) <;>
    simp [Except.toOption]

theorem splitHandler_shape (ps : List Parameter) :
    splitHandler (ps.map Parameter.shape) =
      ((splitHandler ps).1.map Parameter.shape, (splitHandler ps).2.map DeclaredType.shape) := by
  rw [splitHandler, splitHandler, List.getLast?_map]
  cases ps.getLast? with
  | none => rfl
  | some p =>
    have hhandler : p.shape.declaredType.any DeclaredType.isStreamingHandler =
        p.declaredType.any DeclaredType.isStreamingHandler := by
      rw [Parameter.shape]
      cases p.declaredType <;> simp
    simp only [Option.map_some, hhandler]
    split
    · rw [List.map_dropLast]
      rfl
    · rfl

theorem oks_eq_filterMap {ε α : Type} (xs : List (Except ε α)) :
    oks xs = (xs.map Except.toOption).filterMap id := by
  rw [oks, List.filterMap_map]
  rfl

theorem errorsOf_eq_nil_iff {ε α : Type} (xs : List (Except ε α)) :
    errorsOf xs = [] ↔ ∀ x ∈ xs.map Except.toOption, x.isSome = true := by
  rw [errorsOf, List.filterMap_eq_nil_iff, List.forall_mem_map]
  refine forall₂_congr fun x _ => ?_
  cases x <;> simp [Except.toOption]

namespace Documented

structure SameShape (d d' : Documented) : Prop where
  blocks : d'.blocks = d.blocks
  signature : d'.signature.shape = d.signature.shape
  void : d'.signature.result.map DeclaredType.isVoid = d.signature.result.map DeclaredType.isVoid

variable {d d' : Documented}

theorem SameShape.summary (h : SameShape d d') : d'.summary = d.summary := by
  rw [Documented.summary, h.blocks, Documented.summary]

theorem SameShape.split (h : SameShape d d') :
    d'.split.1.map Parameter.shape = d.split.1.map Parameter.shape ∧
      d'.split.2.map DeclaredType.shape = d.split.2.map DeclaredType.shape := by
  have hparameters := congrArg Signature.parameters h.signature
  simp only [Signature.shape] at hparameters
  have hsplit := splitHandler_shape d'.signature.parameters
  rw [hparameters, splitHandler_shape] at hsplit
  exact ⟨(congrArg Prod.fst hsplit).symm, (congrArg Prod.snd hsplit).symm⟩

theorem SameShape.parameterResults (h : SameShape d d') :
    d'.parameterResults.map Except.toOption = d.parameterResults.map Except.toOption := by
  have hrecords (ps : List Parameter) :
      (ps.map (parameterRecord d.summary)).map Except.toOption =
        (ps.map Parameter.shape).map fun p => (parameterRecord d.summary p).toOption := by
    simp only [List.map_map]
    congr 1
    funext p
    exact (toOption_parameterRecord_shape d.summary p).symm
  rw [Documented.parameterResults, Documented.parameterResults, h.summary, hrecords, hrecords,
    h.split.1]

theorem SameShape.result (h : SameShape d d') : d'.result.toOption = d.result.toOption := by
  have hsplit := h.split.2
  have hresult := congrArg Signature.result h.signature
  simp only [Signature.shape] at hresult
  rw [Documented.result, Documented.result]
  cases hd : d.split.2 with
  | none =>
    rw [hd] at hsplit
    have hd' : d'.split.2 = none := by simpa using hsplit
    rw [hd']
    simp only
    rw [← toOption_resolveReturn_shape, hresult, toOption_resolveReturn_shape]
  | some handler =>
    rw [hd] at hsplit
    obtain ⟨handler', hd', hhandler⟩ := Option.map_eq_some_iff.mp hsplit
    rw [hd']
    simp only
    rw [← toOption_resolveStreaming_shape handler' rfl, hhandler,
      toOption_resolveStreaming_shape handler h.void]

theorem record?_outcomeOfMarked (d : Documented) (name : String) :
    (d.outcomeOfMarked name).record? =
      if errorsOf d.parameterResults = [] then
        d.result.toOption.map fun m =>
          { name := name
            id := name
            helpUrl := d.summary.helpUrl
            description := d.summary.description
            parameters := oks d.parameterResults
            result := m
            options := if d.split.2.isSome then Options.streaming else {} }
      else none := by
  rw [outcomeOfMarked]
  cases errorsOf d.parameterResults <;> cases d.result <;> rfl

/-- What is accepted, and with which record, depends on shapes only. -/
theorem record?_of_sameShape (h : SameShape d d') : d'.outcome.record? = d.outcome.record? := by
  have hname : d'.signature.name = d.signature.name := by
    have hnames := congrArg Signature.name h.signature
    simpa only [Signature.shape] using hnames
  have hstream : d'.split.2.isSome = d.split.2.isSome := by
    have hsplit := congrArg Option.isSome h.split.2
    simpa using hsplit
  rw [outcome, outcome, h.summary, hname]
  split
  · cases d.signature.name with
    | none => rfl
    | some name =>
      simp only [record?_outcomeOfMarked, errorsOf_eq_nil_iff, oks_eq_filterMap, h.parameterResults,
        h.result, h.summary, hstream]
  · rfl

end Documented

end ScriptManifest
