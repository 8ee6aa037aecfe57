import ScriptManifest.Extraction
import ScriptManifest.Proofs.TreeWalk

/-!
The accounts of an extraction. The report of a list of outcomes holds what each of them contributes,
in order (`ofOutcomes_eq`); a declaration contributes to one of its three lists only, and one that
failed contributes an error (`outcome_cases`). So no declaration of a script is lost, counted twice
or dropped from a manifest without a word.
-/

namespace ScriptManifest

open Manifest Source

/-! ### What an outcome contributes -/

def Outcome.record? : Outcome → Option FunctionRecord
  | .accepted f => some f
  | .skipped _ | .failed _ => none

def Outcome.skippedName? : Outcome → Option String
  | .skipped name => some name
  | .accepted _ | .failed _ => none

def Outcome.errors : Outcome → List String
  | .failed errors => errors
  | .accepted _ | .skipped _ => []

@[simp] theorem record?_accepted (f : FunctionRecord) : (Outcome.accepted f).record? = some f := rfl
@[simp] theorem record?_skipped (name : String) : (Outcome.skipped name).record? = none := rfl
@[simp] theorem record?_failed (es : List String) : (Outcome.failed es).record? = none := rfl
@[simp] theorem skippedName?_accepted (f : FunctionRecord) :
    (Outcome.accepted f).skippedName? = none := rfl
@[simp] theorem skippedName?_skipped (name : String) :
    (Outcome.skipped name).skippedName? = some name := rfl
@[simp] theorem skippedName?_failed (es : List String) :
    (Outcome.failed es).skippedName? = none := rfl
@[simp] theorem errors_accepted (f : FunctionRecord) : (Outcome.accepted f).errors = [] := rfl
@[simp] theorem errors_skipped (name : String) : (Outcome.skipped name).errors = [] := rfl
@[simp] theorem errors_failed (es : List String) : (Outcome.failed es).errors = es := rfl

theorem Outcome.eq_accepted_of_record? {o : Outcome} {f : FunctionRecord} (h : o.record? = some f) :
    o = .accepted f := by
  cases o with
  | accepted g => rw [Option.some.inj h]
  | skipped name => cases h
  | failed errors => cases h

namespace Report

theorem foldl_record (r : Report) (os : List Outcome) :
    os.foldl record r =
      { functions := r.functions ++ os.filterMap Outcome.record?
        skipped := r.skipped ++ os.filterMap Outcome.skippedName?
        errors := r.errors ++ os.flatMap Outcome.errors } := by
  induction os generalizing r with
  | nil => simp
  | cons o os ih =>
    rw [List.foldl_cons, ih]
    cases o with
    | accepted f => simp [record, List.filterMap_cons]
    | skipped name => simp [record, List.filterMap_cons]
    | failed errors => simp [record, List.filterMap_cons]

theorem ofOutcomes_eq (os : List Outcome) :
    ofOutcomes os =
      { functions := os.filterMap Outcome.record?
        skipped := os.filterMap Outcome.skippedName?
        errors := os.flatMap Outcome.errors } := by
  rw [ofOutcomes, foldl_record]
  simp

/-- What one report holds stands at the front of what another one holds. -/
structure IsPartOf (r r' : Report) : Prop where
  functions : r.functions <+: r'.functions
  skipped : r.skipped <+: r'.skipped
  errors : r.errors <+: r'.errors

theorem isPartOf_record (r : Report) (o : Outcome) : r.IsPartOf (r.record o) := by
  cases o with
  | accepted f => exact ⟨⟨[f], rfl⟩, List.prefix_refl _, List.prefix_refl _⟩
  | skipped name => exact ⟨List.prefix_refl _, ⟨[name], rfl⟩, List.prefix_refl _⟩
  | failed errors => exact ⟨List.prefix_refl _, List.prefix_refl _, ⟨errors, rfl⟩⟩

theorem IsPartOf.trans {r r' r'' : Report} (h : r.IsPartOf r') (h' : r'.IsPartOf r'') :
    r.IsPartOf r'' :=
  ⟨h.functions.trans h'.functions, h.skipped.trans h'.skipped, h.errors.trans h'.errors⟩

theorem isPartOf_foldl_record (r : Report) (os : List Outcome) : r.IsPartOf (os.foldl record r) := by
  induction os generalizing r with
  | nil => exact ⟨List.prefix_refl _, List.prefix_refl _, List.prefix_refl _⟩
  | cons o os ih => exact (isPartOf_record r o).trans (ih (r.record o))

theorem isPartOf_ofOutcomes {os os' : List Outcome} (h : os <+: os') :
    (ofOutcomes os).IsPartOf (ofOutcomes os') := by
  obtain ⟨further, rfl⟩ := h
  have happend : ofOutcomes (os ++ further) = further.foldl record (ofOutcomes os) := by
    rw [ofOutcomes, ofOutcomes, List.foldl_append]
  rw [happend]
  exact isPartOf_foldl_record _ _

theorem IsPartOf.isSuccess_eq_false {r r' : Report} (h : r.IsPartOf r') (hr : r.isSuccess = false) :
    r'.isSuccess = false := by
  obtain ⟨further, hfurther⟩ := h.errors
  cases he : r.errors with
  | nil => simp [isSuccess, he] at hr
  | cons e es => simp [isSuccess, ← hfurther, he]

end Report

/-! ### The outcome of a declaration -/

theorem oks_map_ok {ε α : Type} (xs : List α) : oks (xs.map (Except.ok : α → Except ε α)) = xs := by
  rw [oks, List.filterMap_map]
  exact List.filterMap_some

theorem errorsOf_map_ok {ε α : Type} (xs : List α) :
    errorsOf (xs.map (Except.ok : α → Except ε α)) = [] := by
  simp [errorsOf]

theorem splitHandler_of_none {ps : List Parameter}
    (h : ∀ p ∈ ps.getLast?, p.declaredType.any DeclaredType.isStreamingHandler = false) :
    splitHandler ps = (ps, none) := by
  unfold splitHandler
  cases hl : ps.getLast? with
  | none => rfl
  | some p => simp [h p hl]

theorem splitHandler_append {p : Parameter}
    (h : p.declaredType.any DeclaredType.isStreamingHandler = true) (ps : List Parameter) :
    splitHandler (ps ++ [p]) = (ps, p.declaredType) := by
  simp [splitHandler, h]

namespace Documented

/-- Whether the documentation marks a declaration as a custom function. -/
def isMarked (d : Documented) : Bool := d.summary.isCustomFunction

theorem outcome_of_unmarked {d : Documented} (h : d.isMarked = false) :
    d.outcome = .skipped d.shownName := by
  have hs : d.summary.isCustomFunction = false := h
  simp [outcome, hs]

theorem outcomeOfMarked_cases (d : Documented) (name : String) :
    (∃ f, d.outcomeOfMarked name = .accepted f) ∨
      ∃ e es, d.outcomeOfMarked name = .failed (e :: es) := by
  unfold outcomeOfMarked
  split
  · exact .inl ⟨_, rfl⟩
  · next hne =>
    cases hes : errorsOf d.parameterResults with
    | nil => exact (hne hes).elim
    | cons e es => exact .inr ⟨e.message, es.map ShapeError.message, rfl⟩
  · next e he =>
    cases hes : errorsOf d.parameterResults with
    | nil => exact .inr ⟨e.message, [], rfl⟩
    | cons e' es => exact .inr ⟨e'.message, (es ++ [e]).map ShapeError.message, rfl⟩

/-- Every branch of the analysis: an unmarked declaration is skipped, a marked one is accepted or
fails with at least one error. -/
theorem outcome_cases (d : Documented) :
    (d.isMarked = false ∧ d.outcome = .skipped d.shownName) ∨
      (d.isMarked = true ∧ ∃ f, d.outcome = .accepted f) ∨
      (d.isMarked = true ∧ ∃ e es, d.outcome = .failed (e :: es)) := by
  by_cases hm : d.isMarked = true
  · have hs : d.summary.isCustomFunction = true := hm
    refine .inr ?_
    cases hn : d.signature.name with
    | none => exact .inr ⟨hm, ShapeError.anonymousFunction.message, [], by simp [outcome, hs, hn]⟩
    | some name =>
      have ho : d.outcome = d.outcomeOfMarked name := by simp [outcome, hs, hn]
      rw [ho]
      obtain hf | he := d.outcomeOfMarked_cases name
      · exact .inl ⟨hm, hf⟩
      · exact .inr ⟨hm, he⟩
  · have hm' : d.isMarked = false := by simpa using hm
    exact .inl ⟨hm', outcome_of_unmarked hm'⟩

theorem of_accepted {d : Documented} {f : FunctionRecord} (h : d.outcome = .accepted f) :
    ∃ name m, d.signature.name = some name ∧ errorsOf d.parameterResults = [] ∧ d.result = .ok m ∧
      f =
        { name := name
          id := name
          helpUrl := d.summary.helpUrl
          description := d.summary.description
          parameters := oks d.parameterResults
          result := m
          options := if d.split.2.isSome then Options.streaming else {} } := by
  unfold outcome at h
  split at h
  · split at h
    · cases h
    · next name hname =>
      unfold outcomeOfMarked at h
      split at h
      · next m herrors hm =>
        cases h
        exact ⟨name, m, hname, herrors, hm, rfl⟩
      · cases h
      · cases h
  · cases h

theorem skippedName?_outcome (d : Documented) :
    d.outcome.skippedName? = if d.isMarked then none else some d.shownName := by
  obtain ⟨hm, ho⟩ | ⟨hm, f, ho⟩ | ⟨hm, e, es, ho⟩ := d.outcome_cases <;>
    simp [hm, ho]

end Documented

/-! ### The accounts of a list of declarations -/

def reportOn (ds : List Documented) : Report := Report.ofOutcomes (ds.map Documented.outcome)

/-- A report accounts for a list of declarations: each of them is recorded once and in order. -/
structure Accounts (ds : List Documented) (r : Report) : Prop where
  functions : r.functions = ds.filterMap (·.outcome.record?)
  skipped : r.skipped = (ds.filter (!·.isMarked)).map Documented.shownName
  errors : r.errors = ds.flatMap (·.outcome.errors)
  /-- A declaration contributes a record, a skipped name or errors, and only one of these. -/
  contributesOnce : ∀ d ∈ ds,
    (d.outcome.record?.isSome = true ∧ d.isMarked = true ∧ d.outcome.errors = []) ∨
      (d.outcome.record? = none ∧ d.isMarked = false ∧ d.outcome.errors = []) ∨
      (d.outcome.record? = none ∧ d.isMarked = true ∧ d.outcome.errors ≠ [])
  failedHasError : ∀ d ∈ ds, ∀ errors, d.outcome = .failed errors → errors ≠ []
  /-- There is a manifest if and only if no marked declaration failed. -/
  manifest_isSome : r.manifest?.isSome = true ↔
    ∀ d ∈ ds, d.isMarked = true → ∀ errors, d.outcome ≠ .failed errors
  /-- The manifest holds the records of all marked declarations. -/
  manifest_functions : ∀ m, r.manifest? = some m →
    m.functions.map some = (ds.filter (·.isMarked)).map (·.outcome.record?)
  /-- What was recorded after the first declarations stands at the front. -/
  grows : ∀ first, first <+: ds → (reportOn first).IsPartOf r
  /-- A report with an error never becomes one without. -/
  neverRecovers : ∀ first further, first <+: further → further <+: ds →
    (reportOn first).isSuccess = false →
      (reportOn further).isSuccess = false ∧ r.isSuccess = false

theorem contributesOnce_of_cases (d : Documented) :
    (d.outcome.record?.isSome = true ∧ d.isMarked = true ∧ d.outcome.errors = []) ∨
      (d.outcome.record? = none ∧ d.isMarked = false ∧ d.outcome.errors = []) ∨
      (d.outcome.record? = none ∧ d.isMarked = true ∧ d.outcome.errors ≠ []) := by
  obtain ⟨hm, ho⟩ | ⟨hm, f, ho⟩ | ⟨hm, e, es, ho⟩ := d.outcome_cases <;>
    simp [hm, ho]

theorem failed_ne_nil {d : Documented} {errors : List String} (h : d.outcome = .failed errors) :
    errors ≠ [] := by
  rintro rfl
  obtain ⟨_, ho⟩ | ⟨_, f, ho⟩ | ⟨_, e, es, ho⟩ := d.outcome_cases <;> simp [ho] at h

theorem isSuccess_reportOn_iff (ds : List Documented) :
    (reportOn ds).isSuccess = true ↔
      ∀ d ∈ ds, d.isMarked = true → ∀ errors, d.outcome ≠ .failed errors := by
  simp only [reportOn, Report.ofOutcomes_eq, Report.isSuccess, List.isEmpty_iff,
    List.flatMap_eq_nil_iff, List.mem_map, forall_exists_index, and_imp, forall_apply_eq_imp_iff₂]
  constructor
  · intro h d hd _ errors ho
    exact failed_ne_nil ho (by simpa [ho] using h d hd)
  · intro h d hd
    obtain ⟨_, ho⟩ | ⟨_, f, ho⟩ | ⟨hm, e, es, ho⟩ := d.outcome_cases
    · simp [ho]
    · simp [ho]
    · exact (h d hd hm _ ho).elim

theorem map_some_record? {ds : List Documented}
    (h : ∀ d ∈ ds, d.isMarked = true → ∀ errors, d.outcome ≠ .failed errors) :
    (ds.filterMap (·.outcome.record?)).map some =
      (ds.filter (·.isMarked)).map (·.outcome.record?) := by
  induction ds with
  | nil => rfl
  | cons d ds ih =>
    have hds := ih fun d' hd' => h d' (List.mem_cons_of_mem d hd')
    obtain ⟨hm, ho⟩ | ⟨hm, f, ho⟩ | ⟨hm, e, es, ho⟩ := d.outcome_cases
    · simp [hm, ho, hds]
    · simp [hm, ho, hds]
    · exact (h d (by simp) hm _ ho).elim

theorem filterMap_skippedName? (ds : List Documented) :
    (ds.map Documented.outcome).filterMap Outcome.skippedName? =
      (ds.filter (!·.isMarked)).map Documented.shownName := by
  induction ds with
  | nil => rfl
  | cons d ds ih =>
    rw [List.map_cons, List.filterMap_cons, ih, d.skippedName?_outcome]
    cases hm : d.isMarked <;> simp [hm]

theorem isPartOf_reportOn {first ds : List Documented} (h : first <+: ds) :
    (reportOn first).IsPartOf (reportOn ds) :=
  Report.isPartOf_ofOutcomes (h.map Documented.outcome)

theorem accounts_reportOn (ds : List Documented) : Accounts ds (reportOn ds) where
  functions := by rw [reportOn, Report.ofOutcomes_eq, List.filterMap_map]; rfl
  skipped := by rw [reportOn, Report.ofOutcomes_eq, filterMap_skippedName?]
  errors := by rw [reportOn, Report.ofOutcomes_eq, List.flatMap_map]
  contributesOnce d _ := contributesOnce_of_cases d
  failedHasError _ _ _ := failed_ne_nil
  manifest_isSome := by
    rw [← isSuccess_reportOn_iff, Report.manifest?]
    cases (reportOn ds).isSuccess <;> simp
  manifest_functions m hm := by
    rw [Report.manifest?] at hm
    split at hm
    · next hs =>
      cases hm
      have hf := map_some_record? ((isSuccess_reportOn_iff ds).mp hs)
      rw [← hf, reportOn, Report.ofOutcomes_eq, List.filterMap_map]
      rfl
    · cases hm
  grows _ h := isPartOf_reportOn h
  neverRecovers _ _ h h' hs :=
    have hfurther := (isPartOf_reportOn h).isSuccess_eq_false hs
    ⟨hfurther, (isPartOf_reportOn h').isSuccess_eq_false hfurther⟩

/-! ### The accounts of a script -/

/-- The top-level function declarations of a script, in the order of the text, each with its
documentation: those among the program's own items. -/
def topLevelDeclarations (source path : String) : List Documented :=
  (parse (Dialect.ofPath path) source).topLevel.map Declaration.documented

theorem extract_eq_reportOn (source path : String) :
    extract source path = reportOn (topLevelDeclarations source path) := by
  rw [extract, declarationsOf, declarations_parse]
  rfl

/-- No top-level declaration of a script is lost, counted twice or silently dropped. -/
theorem extract_accounts_for_declarations (source path : String) :
    Accounts (topLevelDeclarations source path) (extract source path) := by
  rw [extract_eq_reportOn]
  exact accounts_reportOn _

end ScriptManifest
