import Mathlib.Data.List.Forall2
import ScriptManifest.Proofs.Accounting
import ScriptManifest.Proofs.RecordDoc
import ScriptManifest.Proofs.SignatureReading

/-!
Records printed as a script. Every record becomes its documentation comment and, below it, a function
declaration that spells its types in one of the accepted ways (`Declares`). Extraction undoes the
printing: the report on such a script holds the records, in order, and nothing else
(`extract_printSource`).
-/

namespace ScriptManifest

open Doc Manifest Source Text

/-! ### Printing records -/

def ValueType.keyword? : ValueType → Option String
  | number => some "number"
  | string => some "string"
  | boolean => some "boolean"
  | any => none

/-- An annotation spells a mapping: a keyword on its own, and for a matrix `k[][]`, `Array<k>` or
`Array<Array<k>>`. -/
inductive Spells : DeclaredType → Mapping → Prop
  | scalar {t : ValueType} {k : String} (h : t.keyword? = some k) :
    Spells (.ofKeyword k) ⟨t, .scalar⟩
  | brackets {t : ValueType} {k : String} (h : t.keyword? = some k) :
    Spells (.arrayOf (.arrayOf (.ofKeyword k))) ⟨t, .matrix⟩
  | single {t : ValueType} {k : String} (h : t.keyword? = some k) :
    Spells (.reference "Array" [.ofKeyword k]) ⟨t, .matrix⟩
  | double {t : ValueType} {k : String} (h : t.keyword? = some k) :
    Spells (.reference "Array" [.reference "Array" [.ofKeyword k]]) ⟨t, .matrix⟩

/-- The annotation of a parameter: none for any value. -/
inductive SpellsParameter : Option DeclaredType → Mapping → Prop
  | untyped : SpellsParameter none ⟨.any, .scalar⟩
  | typed {a : DeclaredType} {m : Mapping} (h : Spells a m) : SpellsParameter (some a) m

/-- The annotation of a result: as that of a parameter, or inside `Promise<…>`. -/
inductive SpellsResult : Option DeclaredType → Mapping → Prop
  | direct {a : Option DeclaredType} {m : Mapping} (h : SpellsParameter a m) : SpellsResult a m
  | async {a : DeclaredType} {m : Mapping} (h : Spells a m) :
    SpellsResult (some (.reference "Promise" [a])) m

structure DeclaresParameter (r : ParameterRecord) (p : Parameter) : Prop where
  name : p.name = r.name
  type : SpellsParameter p.declaredType r.mapping

/-- A signature declares a record. That of a streaming function has the handler as a further
parameter, whose type argument spells the result, and declares no result or `void`. -/
inductive Declares (f : FunctionRecord) : Signature → Prop
  | returning {ps : List Parameter} {result : Option DeclaredType} (h : f.options.stream = false)
    (hps : List.Forall₂ DeclaresParameter f.parameters ps) (hresult : SpellsResult result f.result) :
    Declares f ⟨some f.name, ps, result⟩
  | streaming {ps : List Parameter} {handler n : String} {a : DeclaredType}
    {result : Option DeclaredType} (h : f.options.stream = true)
    (hps : List.Forall₂ DeclaresParameter f.parameters ps)
    (hhandler : handler ∈ DeclaredType.handlerNames) (hn : IsIdentifier n) (ha : Spells a f.result)
    (hresult : result = none ∨ result = some (.ofKeyword "void")) :
    Declares f ⟨some f.name, ps ++ [⟨n, some (.reference handler [a])⟩], result⟩

/-- A record that a script can declare. -/
structure IsPrintable (f : FunctionRecord) : Prop extends IsDocumentable f where
  name : IsIdentifier f.name
  id : f.id = f.name
  sync : f.options.sync = false
  cancelable : f.options.cancelable = f.options.stream
  parameterTypes : ∀ p ∈ f.parameters, p.mapping.type = .any → p.mapping.dimensionality = .scalar
  resultType : f.result.type = .any → f.result.dimensionality = .scalar
  streamResult : f.options.stream = true → f.result.type ≠ .any

instance (f : FunctionRecord) : Decidable (IsPrintable f) :=
  decidable_of_iff (IsDocumentable f ∧ IsIdentifier f.name ∧ f.id = f.name ∧
      f.options.sync = false ∧ f.options.cancelable = f.options.stream ∧
      (∀ p ∈ f.parameters, p.mapping.type = .any → p.mapping.dimensionality = .scalar) ∧
      (f.result.type = .any → f.result.dimensionality = .scalar) ∧
      (f.options.stream = true → f.result.type ≠ .any))
    ⟨fun ⟨hd, hn, hi, hs, hc, hp, hr, hstream⟩ => ⟨hd, hn, hi, hs, hc, hp, hr, hstream⟩, fun h =>
      ⟨h.toIsDocumentable, h.name, h.id, h.sync, h.cancelable, h.parameterTypes, h.resultType,
        h.streamResult⟩⟩

/-- Records, each with the signature that declares it, as the text of a script. -/
def printSource (fs : List FunctionRecord) (signatures : List Signature) : String :=
  printProgram (List.zipWith (fun f s => (docComment f, s)) fs signatures)

/-! ### Spellings -/

theorem mem_predefinedTypes {t : ValueType} {k : String} (h : t.keyword? = some k) :
    k ∈ predefinedTypes := by
  cases t <;> cases h <;> decide

theorem isTypeName_of_mem {w : String} (h : w ∈ ["Array", "Promise", "CustomFunctions",
    "IStreamingCustomFunctionHandler"]) : IsTypeName w := by
  simp only [List.mem_cons, List.not_mem_nil, or_false] at h
  obtain rfl | rfl | rfl | rfl := h <;>
    exact ⟨isWordText_cons (by decide) (by decide), by decide⟩

theorem exists_nameTokens {w : String} (h : IsTypeName w) (lead : List Lexeme) :
    ∃ ts, NameTokens lead w ts := ⟨_, .word h⟩

theorem exists_handlerTokens {handler : String} (h : handler ∈ DeclaredType.handlerNames)
    (lead : List Lexeme) : ∃ ts, NameTokens lead handler ts := by
  simp only [DeclaredType.handlerNames, List.mem_cons, List.not_mem_nil, or_false] at h
  obtain rfl | rfl := h
  · have hlast : IsWordText "StreamingHandler".toList := isWordText_cons (by decide) (by decide)
    exact ⟨_, .dotted (.word (isTypeName_of_mem (w := "CustomFunctions") (by decide))) hlast⟩
  · exact exists_nameTokens (isTypeName_of_mem (by decide)) lead

theorem Spells.isPlain {a : DeclaredType} {m : Mapping} (h : Spells a m) : IsPlain a := by
  have harray := exists_nameTokens (isTypeName_of_mem (w := "Array") (by decide))
  have hkeyword : ∀ {t : ValueType} {k : String}, t.keyword? = some k → IsPlain (.ofKeyword k) :=
    fun hk => isPlain_keyword (mem_predefinedTypes hk)
  cases h with
  | scalar hk => exact hkeyword hk
  | brackets hk => exact IsPlain.array (IsPlain.array (hkeyword hk))
  | single hk => exact IsPlain.reference (hkeyword hk) harray
  | double hk => exact IsPlain.reference (IsPlain.reference (hkeyword hk) harray) harray

theorem ofKeyword?_keyword? {t : ValueType} {k : String} (h : t.keyword? = some k) :
    ValueType.ofKeyword? k = some t := by
  cases t <;> cases h <;> rfl

theorem Spells.mapping {a : DeclaredType} {m : Mapping} (h : Spells a m) : a.mapping = .ok m := by
  cases h with
  | scalar hk =>
    simp [DeclaredType.mapping, DeclaredType.element?, DeclaredType.ofKeyword,
      DeclaredType.keywordType?, DeclaredType.dimensionality, ofKeyword?_keyword? hk]
  | brackets hk =>
    simp [DeclaredType.mapping, DeclaredType.element?, DeclaredType.arrayOf, DeclaredType.ofKeyword,
      DeclaredType.keywordType?, DeclaredType.dimensionality, ofKeyword?_keyword? hk]
  | single hk =>
    simp [DeclaredType.mapping, DeclaredType.element?, DeclaredType.reference,
      DeclaredType.ofKeyword, DeclaredType.arrayName, DeclaredType.keywordType?,
      DeclaredType.dimensionality, ofKeyword?_keyword? hk]
  | double hk =>
    simp [DeclaredType.mapping, DeclaredType.element?, DeclaredType.reference,
      DeclaredType.ofKeyword, DeclaredType.arrayName, DeclaredType.singleArray?,
      DeclaredType.onlyArgumentOf?, DeclaredType.keywordType?, DeclaredType.dimensionality,
      ofKeyword?_keyword? hk]

theorem Spells.isStreamingHandler {a : DeclaredType} {m : Mapping} (h : Spells a m) :
    a.isStreamingHandler = false := by
  cases h <;> rfl

theorem Spells.async? {a : DeclaredType} {m : Mapping} (h : Spells a m) : a.async? = none := by
  cases h <;> rfl

theorem SpellsParameter.resolveType {a : Option DeclaredType} {m : Mapping}
    (h : SpellsParameter a m) : resolveType a = .ok m := by
  cases h with
  | untyped => rfl
  | typed h => exact h.mapping

theorem SpellsParameter.isPlain {a : Option DeclaredType} {m : Mapping} (h : SpellsParameter a m) :
    ∀ b ∈ a, IsPlain b := by
  cases h with
  | untyped => simp
  | typed h => simpa using h.isPlain

theorem SpellsParameter.isStreamingHandler {a : Option DeclaredType} {m : Mapping}
    (h : SpellsParameter a m) : a.any DeclaredType.isStreamingHandler = false := by
  cases h with
  | untyped => rfl
  | typed h => exact h.isStreamingHandler

theorem SpellsResult.resolveReturn {a : Option DeclaredType} {m : Mapping} (h : SpellsResult a m) :
    resolveReturn a = .ok m := by
  cases h with
  | direct h =>
    cases h with
    | untyped => rfl
    | typed h =>
      rw [ScriptManifest.resolveReturn, h.async?]
      exact h.mapping
  | async h => exact h.mapping

theorem SpellsResult.isPlain {a : Option DeclaredType} {m : Mapping} (h : SpellsResult a m) :
    ∀ b ∈ a, IsPlain b := by
  have hpromise := exists_nameTokens (isTypeName_of_mem (w := "Promise") (by decide))
  cases h with
  | direct h => exact h.isPlain
  | async h => simpa using IsPlain.reference h.isPlain hpromise

/-! ### Signatures -/

theorem IsIdentifier.isParameterName {n : String} (h : IsIdentifier n) : IsParameterName n := by
  refine ⟨h.isWordText, fun hn => h.noKeyword ?_⟩
  have hsub : ∀ w ∈ parameterModifiers, w ∈ keywords := by decide
  exact hsub n hn

theorem parameters_isPrintable {rs : List ParameterRecord} {ps : List Parameter}
    (hrs : ∀ r ∈ rs, IsIdentifier r.name) (h : List.Forall₂ DeclaresParameter rs ps) :
    ∀ p ∈ ps, IsParameterName p.name ∧ ∀ a ∈ p.declaredType, IsPlain a := by
  induction h with
  | nil => simp
  | @cons r p rs ps hrp _ ih =>
    rw [List.forall_mem_cons] at hrs ⊢
    refine ⟨⟨?_, hrp.type.isPlain⟩, ih hrs.2⟩
    rw [hrp.name]
    exact hrs.1.isParameterName

theorem Declares.isPrintable {f : FunctionRecord} (hf : IsPrintable f) {s : Signature}
    (h : Declares f s) : s.IsPrintable := by
  have hname : ∃ n, some f.name = some n ∧ IsWordText n.toList := ⟨f.name, rfl, hf.name.isWordText⟩
  cases h with
  | returning _ hps hresult =>
    exact ⟨hname, parameters_isPrintable hf.parameterNames hps, hresult.isPlain⟩
  | streaming _ hps hhandler hn ha hresult =>
    refine ⟨hname, ?_, ?_⟩
    · rw [List.forall_mem_append]
      refine ⟨parameters_isPrintable hf.parameterNames hps, ?_⟩
      simpa using ⟨hn.isParameterName, IsPlain.reference ha.isPlain (exists_handlerTokens hhandler)⟩
    · obtain rfl | rfl := hresult
      · simp
      · simpa using isPlain_keyword (by decide)

theorem exists_spells {m : Mapping} (h : m.type ≠ .any) : ∃ a, Spells a m := by
  obtain ⟨t, d⟩ := m
  obtain ⟨k, hk⟩ : ∃ k, t.keyword? = some k := by
    cases t with
    | any => exact (h rfl).elim
    | number | string | boolean => exact ⟨_, rfl⟩
  cases d with
  | scalar => exact ⟨_, .scalar hk⟩
  | matrix => exact ⟨_, .single hk⟩

theorem exists_spellsParameter {m : Mapping} (h : m.type = .any → m.dimensionality = .scalar) :
    ∃ a, SpellsParameter a m := by
  by_cases hm : m.type = .any
  · obtain ⟨t, d⟩ := m
    cases hm
    cases h rfl
    exact ⟨none, .untyped⟩
  · obtain ⟨a, ha⟩ := exists_spells hm
    exact ⟨some a, .typed ha⟩

theorem exists_declaresParameters {rs : List ParameterRecord}
    (h : ∀ r ∈ rs, r.mapping.type = .any → r.mapping.dimensionality = .scalar) :
    ∃ ps, List.Forall₂ DeclaresParameter rs ps := by
  induction rs with
  | nil => exact ⟨[], .nil⟩
  | cons r rs ih =>
    rw [List.forall_mem_cons] at h
    obtain ⟨ps, hps⟩ := ih h.2
    obtain ⟨a, ha⟩ := exists_spellsParameter h.1
    exact ⟨⟨r.name, a⟩ :: ps, .cons ⟨rfl, ha⟩ hps⟩

theorem exists_declares {f : FunctionRecord} (h : IsPrintable f) : ∃ s, Declares f s := by
  obtain ⟨ps, hps⟩ := exists_declaresParameters h.parameterTypes
  cases hs : f.options.stream with
  | false =>
    obtain ⟨a, ha⟩ := exists_spellsParameter h.resultType
    exact ⟨_, .returning hs hps (.direct ha)⟩
  | true =>
    obtain ⟨a, ha⟩ := exists_spells (h.streamResult hs)
    have hn : IsIdentifier "handler" := by decide
    exact ⟨_, .streaming hs hps List.mem_cons_self hn ha (.inl rfl)⟩

/-! ### The outcome of a printed record -/

theorem map_parameterRecord {s : Summary} {rs : List ParameterRecord} {ps : List Parameter}
    (hs : ∀ r ∈ rs, s.paramDescription? r.name = r.description)
    (h : List.Forall₂ DeclaresParameter rs ps) : ps.map (parameterRecord s) = rs.map .ok := by
  induction h with
  | nil => rfl
  | @cons r p rs ps hrp _ ih =>
    rw [List.forall_mem_cons] at hs
    have hfirst : parameterRecord s p = .ok r := by
      rw [parameterRecord, hrp.type.resolveType, hrp.name]
      simp [hs.1]
    rw [List.map_cons, List.map_cons, hfirst, ih hs.2]

theorem getLast?_isStreamingHandler {rs : List ParameterRecord} {ps : List Parameter}
    (h : List.Forall₂ DeclaresParameter rs ps) :
    ∀ p ∈ ps.getLast?, p.declaredType.any DeclaredType.isStreamingHandler = false := by
  have hall : ∀ p ∈ ps, p.declaredType.any DeclaredType.isStreamingHandler = false := by
    induction h with
    | nil => simp
    | cons hrp _ ih =>
      rw [List.forall_mem_cons]
      exact ⟨hrp.type.isStreamingHandler, ih⟩
  exact fun p hp => hall p (List.mem_of_getLast? hp)

theorem Declares.facts {f : FunctionRecord} {s : Signature} (h : Declares f s) (blocks : List Block) :
    let d : Documented := ⟨blocks, s⟩
    s.name = some f.name ∧ List.Forall₂ DeclaresParameter f.parameters d.split.1 ∧
      d.result = .ok f.result ∧ d.split.2.isSome = f.options.stream := by
  cases h with
  | @returning ps result hstream hps hresult =>
    have hsplit := splitHandler_of_none (getLast?_isStreamingHandler hps)
    simp only [Documented.result, Documented.split, hsplit, hstream]
    exact ⟨trivial, hps, hresult.resolveReturn, rfl⟩
  | @streaming ps handler n a result hstream hps hhandler hn ha hresult =>
    have hany : (some (DeclaredType.reference handler [a])).any DeclaredType.isStreamingHandler =
        true := by
      simpa [DeclaredType.isStreamingHandler, DeclaredType.reference, DeclaredType.referenceName?]
        using hhandler
    have hsplit := splitHandler_append (p := ⟨n, some (.reference handler [a])⟩) hany ps
    have hvoid : result.any (!·.isVoid) = false := by
      obtain rfl | rfl := hresult
      · rfl
      · decide
    have hmapping : resolveStreaming (.reference handler [a]) result = .ok f.result := by
      simp [resolveStreaming, DeclaredType.reference, DeclaredType.typeArguments, hvoid, ha.mapping]
    simp only [Documented.result, Documented.split, hsplit, hstream]
    exact ⟨trivial, hps, hmapping, rfl⟩

theorem options_of_stream {o : Options} (hsync : o.sync = false) (hcancelable : o.cancelable = o.stream) :
    (if o.stream then Options.streaming else {}) = o := by
  obtain ⟨sync, cancelable, stream⟩ := o
  cases hsync
  cases hcancelable
  cases cancelable <;> rfl

theorem outcome_printed {f : FunctionRecord} (hf : IsPrintable f) {s : Signature} (h : Declares f s) :
    Documented.outcome ⟨[docBlock f], s⟩ = .accepted f := by
  obtain ⟨hname, hps, hresult, hstream⟩ := h.facts [docBlock f]
  have hsummary : Documented.summary ⟨[docBlock f], s⟩ = _ := ofBlocks_docBlock hf.toIsDocumentable
  have hdescriptions : ∀ r ∈ f.parameters,
      (Documented.summary ⟨[docBlock f], s⟩).paramDescription? r.name = r.description := by
    rw [hsummary]
    exact fun r hr => paramDescription?_described hf.distinctNames hr
  have hparameters : Documented.parameterResults ⟨[docBlock f], s⟩ = f.parameters.map .ok :=
    map_parameterRecord hdescriptions hps
  have hoptions : (if (Documented.split ⟨[docBlock f], s⟩).2.isSome then Options.streaming else {}) =
      f.options := by
    rw [hstream, options_of_stream hf.sync hf.cancelable]
  have hid := hf.id
  rw [Documented.outcome, hsummary, if_pos rfl]
  simp only [hname, Documented.outcomeOfMarked, hparameters, errorsOf_map_ok, oks_map_ok, hresult,
    hsummary, hoptions]
  obtain ⟨name, id, helpUrl, description, parameters, result, options⟩ := f
  cases hid
  rfl

/-! ### The report on a printed script -/

theorem zipWith_isPrintable {fs : List FunctionRecord} {signatures : List Signature}
    (hfs : ∀ f ∈ fs, IsPrintable f) (h : List.Forall₂ Declares fs signatures) :
    ∀ d ∈ List.zipWith (fun f s => (docComment f, s)) fs signatures,
      IsComment d.1 ∧ d.2.IsPrintable := by
  induction h with
  | nil => simp
  | cons hfs' _ ih =>
    rw [List.forall_mem_cons] at hfs
    rw [List.zipWith_cons_cons, List.forall_mem_cons]
    exact ⟨⟨isComment_docComment hfs.1.toIsDocumentable, hfs'.isPrintable hfs.1⟩, ih hfs.2⟩

theorem map_outcome_printed {fs : List FunctionRecord} {signatures : List Signature}
    (hfs : ∀ f ∈ fs, IsPrintable f) (h : List.Forall₂ Declares fs signatures) :
    (List.zipWith (fun f s => (docComment f, s)) fs signatures).map
        (fun d => (Declaration.documented ⟨[d.1], d.2⟩).outcome) = fs.map .accepted := by
  induction h with
  | nil => rfl
  | @cons f s fs signatures hfs' _ ih =>
    rw [List.forall_mem_cons] at hfs
    have hfirst : (Declaration.documented ⟨[docComment f], s⟩).outcome = .accepted f := by
      simpa [Declaration.documented, parse?_docComment hfs.1.toIsDocumentable] using
        outcome_printed hfs.1 hfs'
    rw [List.zipWith_cons_cons, List.map_cons, List.map_cons, hfirst, ih hfs.2]

theorem exists_forall₂_declares {fs : List FunctionRecord} (hfs : ∀ f ∈ fs, IsPrintable f) :
    ∃ signatures, List.Forall₂ Declares fs signatures := by
  induction fs with
  | nil => exact ⟨[], .nil⟩
  | cons f fs ih =>
    rw [List.forall_mem_cons] at hfs
    obtain ⟨signatures, h⟩ := ih hfs.2
    obtain ⟨s, hs⟩ := exists_declares hfs.1
    exact ⟨s :: signatures, .cons hs h⟩

theorem reportOn_accepted {ds : List Documented} {fs : List FunctionRecord}
    (h : ds.map Documented.outcome = fs.map .accepted) :
    reportOn ds = { functions := fs, skipped := [], errors := [] } := by
  rw [reportOn, h, Report.ofOutcomes_eq]
  simp [List.filterMap_map, Function.comp_def]

/-- Extraction undoes printing. Printable records can be printed as a script, and whatever spelling of
their types is chosen, the report on the script holds these records, in order, and nothing else. -/
theorem extract_printSource (fs : List FunctionRecord) (hfs : ∀ f ∈ fs, IsPrintable f)
    (path : String) (hpath : (Dialect.ofPath path).isTyped = true) :
    (∃ signatures, List.Forall₂ Declares fs signatures) ∧
      ∀ signatures, List.Forall₂ Declares fs signatures →
        extract (printSource fs signatures) path =
          { functions := fs, skipped := [], errors := [] } := by
  refine ⟨exists_forall₂_declares hfs, fun signatures h => ?_⟩
  have htopLevel := topLevel_printProgram hpath (zipWith_isPrintable hfs h)
  rw [extract_eq_reportOn]
  refine reportOn_accepted ?_
  rw [topLevelDeclarations, printSource, htopLevel, List.map_map, List.map_map]
  exact map_outcome_printed hfs h

def smoothRecord : FunctionRecord where
  name := "smooth"
  id := "smooth"
  helpUrl := "help/smooth.html"
  description := some "Smooths a table.\n\n  Every cell counts."
  parameters :=
    [⟨"cells", some "the table,\nrow by row", ⟨.number, .matrix⟩⟩, ⟨"window", none, ⟨.any, .scalar⟩⟩,
      ⟨"$unit", some "", ⟨.string, .scalar⟩⟩]
  result := ⟨.number, .matrix⟩
  options := {}

def smoothSignature : Signature where
  name := some "smooth"
  parameters :=
    [⟨"cells", some (.arrayOf (.arrayOf (.ofKeyword "number")))⟩, ⟨"window", none⟩,
      ⟨"$unit", some (.ofKeyword "string")⟩]
  result := some (.reference "Promise" [.reference "Array" [.reference "Array" [.ofKeyword "number"]]])

def clockRecord : FunctionRecord where
  name := "clock"
  id := "clock"
  helpUrl := ""
  description := none
  parameters := []
  result := ⟨.boolean, .scalar⟩
  options := .streaming

def clockSignature : Signature where
  name := some "clock"
  parameters := [⟨"tick", some (.reference "CustomFunctions.StreamingHandler" [.ofKeyword "boolean"])⟩]
  result := some (.ofKeyword "void")

theorem extract_printSource_smooth_clock :
    (∀ f ∈ [smoothRecord, clockRecord], IsPrintable f) ∧
      (Dialect.ofPath "functions.ts").isTyped = true ∧
      List.Forall₂ Declares [smoothRecord, clockRecord] [smoothSignature, clockSignature] ∧
      extract (printSource [smoothRecord, clockRecord] [smoothSignature, clockSignature])
          "functions.ts" =
        { functions := [smoothRecord, clockRecord], skipped := [], errors := [] } := by
  have hfs : ∀ f ∈ [smoothRecord, clockRecord], IsPrintable f := by decide +kernel
  have hpath : (Dialect.ofPath "functions.ts").isTyped = true := by decide +kernel
  have hsmooth : Declares smoothRecord smoothSignature :=
    .returning rfl (.cons ⟨rfl, .typed (.brackets rfl)⟩ (.cons ⟨rfl, .untyped⟩
      (.cons ⟨rfl, .typed (.scalar rfl)⟩ .nil))) (.async (.double rfl))
  have hnone : List.Forall₂ DeclaresParameter clockRecord.parameters [] := .nil
  have hclock : Declares clockRecord clockSignature :=
    .streaming rfl hnone List.mem_cons_self (by decide : IsIdentifier "tick") (.scalar rfl) (.inr rfl)
  have hsignatures : List.Forall₂ Declares [smoothRecord, clockRecord]
      [smoothSignature, clockSignature] := .cons hsmooth (.cons hclock .nil)
  exact ⟨hfs, hpath, hsignatures, (extract_printSource _ hfs _ hpath).2 _ hsignatures⟩

end ScriptManifest
