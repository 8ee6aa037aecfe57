import ScriptManifest.Proofs.Accounting
import Mathlib.Data.List.Forall2

/-!
What the analysis of a declaration comes to. `Analysed` gives the outcomes that a declaration may
have, from its documentation, its name, its parameters and its result; the analysis computes the one
outcome that there is (`outcome_eq_iff_analysed`).
-/

namespace ScriptManifest

open Doc Manifest Source

/-! ### The streaming handler -/

/-- Parameters cut into those that are registered and the annotation of a streaming handler, which
only the last parameter may be. -/
inductive HandlerSplit : List Parameter → List Parameter → Option DeclaredType → Prop
  | streaming {p : Parameter} {handler : DeclaredType} (hp : p.declaredType = some handler)
    (h : handler.isStreamingHandler = true) (ps : List Parameter) :
    HandlerSplit (ps ++ [p]) ps (some handler)
  | plain {ps : List Parameter}
    (h : ∀ p ∈ ps.getLast?, ∀ a ∈ p.declaredType, a.isStreamingHandler = false) :
    HandlerSplit ps ps none

theorem HandlerSplit.splitHandler_eq {ps qs : List Parameter} {handler : Option DeclaredType}
    (h : HandlerSplit ps qs handler) : splitHandler ps = (qs, handler) := by
  cases h with
  | streaming hp h ps => rw [splitHandler_append (by simpa [hp] using h), hp]
  | plain h =>
    refine splitHandler_of_none fun p hp => ?_
    cases ha : p.declaredType with
    | none => rfl
    | some a => exact h p hp a ha

theorem handlerSplit_splitHandler (ps : List Parameter) :
    HandlerSplit ps (splitHandler ps).1 (splitHandler ps).2 := by
  cases hlast : ps.getLast? with
  | none =>
    obtain rfl := List.getLast?_eq_none_iff.mp hlast
    exact .plain (by simp)
  | some p =>
    obtain ⟨front, rfl⟩ := List.getLast?_eq_some_iff.mp hlast
    cases hp : p.declaredType with
    | none =>
      have hno : p.declaredType.any DeclaredType.isStreamingHandler = false := by rw [hp]; rfl
      rw [splitHandler_of_none (by simpa using hno)]
      exact .plain (by simp [hp])
    | some a =>
      cases ha : a.isStreamingHandler with
      | true =>
        rw [splitHandler_append (by simpa [hp] using ha), hp]
        exact .streaming hp ha front
      | false =>
        rw [splitHandler_of_none (by simp [hp, ha])]
        exact .plain (by simp [hp, ha])

/-! ### Errors -/

def errorTexts {α : Type} : Except ShapeError α → List String
  | .ok _ => []
  | .error e => [e.message]

/-- The mapping of a function's result: that of its handler if it has one, else of what it
declares. -/
def resolveResult (handler declared : Option DeclaredType) : Except ShapeError Mapping :=
  match handler with
  | some h => resolveStreaming h declared
  | none => resolveReturn declared

/-- All that is wrong with a signature, in the order of the text: the parameters, then the result. -/
def signatureErrors (ps : List Parameter) (handler declared : Option DeclaredType) : List String :=
  ps.flatMap (fun p => errorTexts (resolveType p.declaredType)) ++
    errorTexts (resolveResult handler declared)

theorem errorTexts_eq_nil_iff {α : Type} {x : Except ShapeError α} :
    errorTexts x = [] ↔ ∃ a, x = .ok a := by
  cases x <;> simp [errorTexts]

theorem map_message_errorsOf (s : Summary) (ps : List Parameter) :
    (errorsOf (ps.map (parameterRecord s))).map ShapeError.message =
      ps.flatMap fun p => errorTexts (resolveType p.declaredType) := by
  induction ps with
  | nil => rfl
  | cons p ps ih =>
    rw [List.flatMap_cons, ← ih, List.map_cons]
    cases hp : resolveType p.declaredType <;> simp [parameterRecord, hp, errorTexts, errorsOf]

/-! ### Records -/

/-- The record of a parameter: its name, what its annotation maps to, and the description that is
given for its name. -/
structure RecordsParameter (s : Summary) (p : Parameter) (q : ParameterRecord) : Prop where
  name : q.name = p.name
  mapping : resolveType p.declaredType = .ok q.mapping
  description : q.description = s.paramDescription? p.name

/-- The record of a function with a given name, registered parameters and handler. -/
structure RecordsFunction (d : Documented) (title : String) (ps : List Parameter)
    (handler : Option DeclaredType) (f : FunctionRecord) : Prop where
  name : f.name = title
  id : f.id = title
  helpUrl : f.helpUrl = d.summary.helpUrl
  description : f.description = d.summary.description
  parameters : List.Forall₂ (RecordsParameter d.summary) ps f.parameters
  result : resolveResult handler d.signature.result = .ok f.result
  stream : f.options.stream = handler.isSome
  cancelable : f.options.cancelable = handler.isSome
  sync : f.options.sync = false

theorem parameterRecord_eq_ok_iff {s : Summary} {p : Parameter} {q : ParameterRecord} :
    parameterRecord s p = .ok q ↔ RecordsParameter s p q := by
  obtain ⟨name, description, mapping⟩ := q
  constructor
  · intro h
    unfold parameterRecord at h
    split at h
    · next m hm =>
      cases h
      exact ⟨rfl, hm, rfl⟩
    · cases h
  · rintro ⟨rfl, hm, rfl⟩
    simp only [parameterRecord, hm]

theorem map_parameterRecord_eq_iff {s : Summary} {ps : List Parameter} {qs : List ParameterRecord} :
    ps.map (parameterRecord s) = qs.map .ok ↔ List.Forall₂ (RecordsParameter s) ps qs := by
  rw [← List.forall₂_eq_eq_eq, List.forall₂_map_left_iff, List.forall₂_map_right_iff]
  simp only [parameterRecord_eq_ok_iff]

theorem exists_map_ok {α ε : Type} {xs : List (Except ε α)} (h : errorsOf xs = []) :
    ∃ as : List α, xs = as.map .ok := by
  induction xs with
  | nil => exact ⟨[], rfl⟩
  | cons x xs ih =>
    cases x with
    | error e => simp [errorsOf] at h
    | ok a =>
      obtain ⟨as, rfl⟩ := ih (by simpa [errorsOf] using h)
      exact ⟨a :: as, rfl⟩

namespace Documented

/-! ### Marked declarations -/

theorem result_eq_resolveResult {d : Documented} {ps : List Parameter}
    {handler : Option DeclaredType} (h : d.split = (ps, handler)) :
    d.result = resolveResult handler d.signature.result := by
  rw [Documented.result, h]
  cases handler <;> rfl

theorem signatureErrors_eq {d : Documented} {ps : List Parameter} {handler : Option DeclaredType}
    (h : d.split = (ps, handler)) :
    signatureErrors ps handler d.signature.result =
      (errorsOf d.parameterResults).map ShapeError.message ++ errorTexts d.result := by
  rw [signatureErrors, parameterResults, h, map_message_errorsOf, result_eq_resolveResult h]

theorem outcomeOfMarked_of_errors {d : Documented} {ps : List Parameter}
    {handler : Option DeclaredType} (h : d.split = (ps, handler))
    (hne : signatureErrors ps handler d.signature.result ≠ []) (name : String) :
    d.outcomeOfMarked name = .failed (signatureErrors ps handler d.signature.result) := by
  rw [signatureErrors_eq h] at hne ⊢
  cases hr : d.result with
  | error e => simp [outcomeOfMarked, hr, errorTexts]
  | ok m =>
    rw [hr] at hne
    cases he : errorsOf d.parameterResults with
    | nil => simp [he, errorTexts] at hne
    | cons e es => simp [outcomeOfMarked, hr, he, errorTexts]

theorem outcomeOfMarked_of_records {d : Documented} {name : String} {ps : List Parameter}
    {handler : Option DeclaredType} (h : d.split = (ps, handler)) {f : FunctionRecord}
    (hf : RecordsFunction d name ps handler f) : d.outcomeOfMarked name = .accepted f := by
  obtain ⟨fname, id, helpUrl, description, parameters, result, ⟨sync, cancelable, stream⟩⟩ := f
  obtain ⟨hname, hid, hurl, hdescription, hparameters, hresult, hstream, hcancelable, hsync⟩ := hf
  simp only at hname hid hurl hdescription hparameters hresult hstream hcancelable hsync
  subst hname hid hurl hdescription hstream hcancelable hsync
  have hresults : d.parameterResults = parameters.map .ok := by
    rw [parameterResults, h]
    exact map_parameterRecord_eq_iff.mpr hparameters
  rw [← result_eq_resolveResult h] at hresult
  simp only [outcomeOfMarked, hresults, errorsOf_map_ok, oks_map_ok, hresult, h]
  cases handler <;> rfl

theorem exists_recordsFunction {d : Documented} {ps : List Parameter}
    {handler : Option DeclaredType} (h : d.split = (ps, handler))
    (hnil : signatureErrors ps handler d.signature.result = []) (name : String) :
    ∃ f, RecordsFunction d name ps handler f := by
  rw [signatureErrors_eq h, List.append_eq_nil_iff, List.map_eq_nil_iff] at hnil
  obtain ⟨parameters, hparameters⟩ := exists_map_ok hnil.1
  obtain ⟨m, hm⟩ := errorTexts_eq_nil_iff.mp hnil.2
  rw [parameterResults, h] at hparameters
  rw [result_eq_resolveResult h] at hm
  exact ⟨⟨name, name, d.summary.helpUrl, d.summary.description, parameters, m,
      ⟨false, handler.isSome, handler.isSome⟩⟩, rfl, rfl, rfl, rfl,
    map_parameterRecord_eq_iff.mp hparameters, hm, rfl, rfl, rfl⟩

/-! ### The outcome -/

/-- What the analysis of a declaration may come to. -/
inductive Analysed (d : Documented) : Outcome → Prop
  | skipped (hmark : d.summary.isCustomFunction = false) :
    Analysed d (.skipped (d.signature.name.getD "<anonymous>"))
  | nameless (hmark : d.summary.isCustomFunction = true) (hname : d.signature.name = none) :
    Analysed d (.failed [ShapeError.anonymousFunction.message])
  | failed {name : String} {ps : List Parameter} {handler : Option DeclaredType}
    (hmark : d.summary.isCustomFunction = true) (hname : d.signature.name = some name)
    (hsplit : HandlerSplit d.signature.parameters ps handler)
    (herrors : signatureErrors ps handler d.signature.result ≠ []) :
    Analysed d (.failed (signatureErrors ps handler d.signature.result))
  | accepted {name : String} {ps : List Parameter} {handler : Option DeclaredType}
    {f : FunctionRecord} (hmark : d.summary.isCustomFunction = true)
    (hname : d.signature.name = some name)
    (hsplit : HandlerSplit d.signature.parameters ps handler)
    (herrors : signatureErrors ps handler d.signature.result = [])
    (hf : RecordsFunction d name ps handler f) : Analysed d (.accepted f)

theorem outcome_eq_outcomeOfMarked {d : Documented} {name : String}
    (hmark : d.summary.isCustomFunction = true) (hname : d.signature.name = some name) :
    d.outcome = d.outcomeOfMarked name := by
  simp only [outcome, hmark, hname, if_true]

theorem Analysed.outcome_eq {d : Documented} {o : Outcome} (h : Analysed d o) : d.outcome = o := by
  cases h with
  | skipped hmark => exact outcome_of_unmarked hmark
  | nameless hmark hname => simp only [outcome, hmark, hname, if_true]
  | failed hmark hname hsplit herrors =>
    rw [outcome_eq_outcomeOfMarked hmark hname]
    exact outcomeOfMarked_of_errors hsplit.splitHandler_eq herrors _
  | accepted hmark hname hsplit _ hf =>
    rw [outcome_eq_outcomeOfMarked hmark hname]
    exact outcomeOfMarked_of_records hsplit.splitHandler_eq hf

theorem exists_analysed (d : Documented) : ∃ o, Analysed d o := by
  cases hmark : d.summary.isCustomFunction with
  | false => exact ⟨_, .skipped hmark⟩
  | true =>
    cases hname : d.signature.name with
    | none => exact ⟨_, .nameless hmark hname⟩
    | some name =>
      have hsplit := handlerSplit_splitHandler d.signature.parameters
      by_cases herrors : signatureErrors d.split.1 d.split.2 d.signature.result = []
      · obtain ⟨f, hf⟩ := exists_recordsFunction rfl herrors name
        exact ⟨_, .accepted hmark hname hsplit herrors hf⟩
      · exact ⟨_, .failed hmark hname hsplit herrors⟩

/-- The analysis of a declaration computes its specification: it gives an outcome if and only if the
specification does. -/
theorem outcome_eq_iff_analysed (d : Documented) (o : Outcome) : d.outcome = o ↔ Analysed d o := by
  constructor
  · rintro rfl
    obtain ⟨o, ho⟩ := d.exists_analysed
    rw [ho.outcome_eq]
    exact ho
  · exact Analysed.outcome_eq

end Documented

end ScriptManifest
