import ScriptManifest.Proofs.ManifestRoundTrip
import ScriptManifest.Proofs.RecordFields

/-!
The documents that a manifest is read from. A document shows a manifest if every record in it is an
object with the fields of the record in any order, among others that the record does not know
(`ShowsManifest`); it is damaged if a record in it misses a field, has one twice or names no type or
dimensionality (`DamagesManifest`). Every text of a document that shows a manifest is read as that
manifest, and no text of a damaged one is read as any (`manifest_is_read_from_any_order`).
-/

namespace ScriptManifest.Manifest

open Document

/-! ### The components of the records -/

def parameterComponents : List (Component ParameterFields) :=
  [⟨"name", (·.name), fun s v => { s with name := some v }, readText⟩,
    ⟨"description", (·.description), fun s v => { s with description := some v }, readOptional⟩,
    ⟨"type", (·.type), fun s v => { s with type := some v }, readValueType⟩,
    ⟨"dimensionality", (·.dimensionality), fun s v => { s with dimensionality := some v },
      readDimensionality⟩]

def resultComponents : List (Component ResultFields) :=
  [⟨"type", (·.type), fun s v => { s with type := some v }, readValueType⟩,
    ⟨"dimensionality", (·.dimensionality), fun s v => { s with dimensionality := some v },
      readDimensionality⟩]

def optionComponents : List (Component OptionFields) :=
  [⟨"sync", (·.sync), fun s v => { s with sync := some v }, readBool⟩,
    ⟨"cancelable", (·.cancelable), fun s v => { s with cancelable := some v }, readBool⟩,
    ⟨"stream", (·.stream), fun s v => { s with stream := some v }, readBool⟩]

def functionComponents : List (Component FunctionFields) :=
  [⟨"name", (·.name), fun s v => { s with name := some v }, readText⟩,
    ⟨"id", (·.id), fun s v => { s with id := some v }, readText⟩,
    ⟨"helpurl", (·.helpUrl), fun s v => { s with helpUrl := some v }, readText⟩,
    ⟨"description", (·.description), fun s v => { s with description := some v }, readOptional⟩,
    ⟨"parameters", (·.parameters), fun s v => { s with parameters := some v },
      readArray readParameter⟩,
    ⟨"result", (·.result), fun s v => { s with result := some v }, readResult⟩,
    ⟨"options", (·.options), fun s v => { s with options := some v }, readOptions⟩]

def manifestComponents : List (Component (Option (List FunctionRecord))) :=
  [⟨"functions", id, fun _ v => some v, readArray readFunction⟩]

theorem readsBy_parameter : ReadsBy parameterComponents {} parameterField where
  known := by simp [parameterComponents, parameterField]
  unknown := by
    intro k hk s
    simp only [parameterComponents, List.map_cons, List.map_nil, List.mem_cons, List.not_mem_nil,
      or_false, not_or] at hk
    simp [parameterField, hk]
  distinct := by decide
  empty := by simp [parameterComponents]
  get_set := by simp [parameterComponents]
  get_set_ne := by simp [parameterComponents]
  ext := by
    rintro ⟨⟩ ⟨⟩ h
    simpa [parameterComponents] using h
  aligned := by
    simp [parameterComponents, aligned_text, aligned_optional, readValueType, readDimensionality,
      aligned_word]

theorem aligned_parameter : Aligned readParameter :=
  aligned_record readsBy_parameter.fieldsAligned <|
    (partsAligned_part aligned_text true).andThen fun _ =>
    (partsAligned_part? aligned_optional).andThen fun _ =>
    (partsAligned_part (aligned_word typeOfWord?) false).andThen fun _ =>
    (partsAligned_part (aligned_word dimensionalityOfWord?) false).andThen fun _ =>
    partsAligned_pure _

theorem readsBy_result : ReadsBy resultComponents {} resultField where
  known := by simp [resultComponents, resultField]
  unknown := by
    intro k hk s
    simp only [resultComponents, List.map_cons, List.map_nil, List.mem_cons, List.not_mem_nil,
      or_false, not_or] at hk
    simp [resultField, hk]
  distinct := by decide
  empty := by simp [resultComponents]
  get_set := by simp [resultComponents]
  get_set_ne := by simp [resultComponents]
  ext := by
    rintro ⟨⟩ ⟨⟩ h
    simpa [resultComponents] using h
  aligned := by simp [resultComponents, readValueType, readDimensionality, aligned_word]

theorem aligned_result : Aligned readResult :=
  aligned_record readsBy_result.fieldsAligned <|
    (partsAligned_part (aligned_word typeOfWord?) true).andThen fun _ =>
    (partsAligned_part (aligned_word dimensionalityOfWord?) false).andThen fun _ =>
    partsAligned_pure _

theorem readsBy_options : ReadsBy optionComponents {} optionField where
  known := by simp [optionComponents, optionField]
  unknown := by
    intro k hk s
    simp only [optionComponents, List.map_cons, List.map_nil, List.mem_cons, List.not_mem_nil,
      or_false, not_or] at hk
    simp [optionField, hk]
  distinct := by decide
  empty := by simp [optionComponents]
  get_set := by simp [optionComponents]
  get_set_ne := by simp [optionComponents]
  ext := by
    rintro ⟨⟩ ⟨⟩ h
    simpa [optionComponents] using h
  aligned := by simp [optionComponents, aligned_bool]

theorem aligned_options : Aligned readOptions :=
  aligned_record readsBy_options.fieldsAligned <|
    (partsAligned_part aligned_bool true).andThen fun _ =>
    (partsAligned_part aligned_bool false).andThen fun _ =>
    (partsAligned_part aligned_bool false).andThen fun _ =>
    partsAligned_pure _

theorem readsBy_function : ReadsBy functionComponents {} functionField where
  known := by simp [functionComponents, functionField]
  unknown := by
    intro k hk s
    simp only [functionComponents, List.map_cons, List.map_nil, List.mem_cons, List.not_mem_nil,
      or_false, not_or] at hk
    simp [functionField, hk]
  distinct := by decide
  empty := by simp [functionComponents]
  get_set := by simp [functionComponents]
  get_set_ne := by simp [functionComponents]
  ext := by
    rintro ⟨⟩ ⟨⟩ h
    simpa [functionComponents] using h
  aligned := by
    simp [functionComponents, aligned_text, aligned_optional, aligned_array aligned_parameter,
      aligned_result, aligned_options]

theorem aligned_function : Aligned readFunction :=
  aligned_record readsBy_function.fieldsAligned <|
    (partsAligned_part aligned_text true).andThen fun _ =>
    (partsAligned_part aligned_text false).andThen fun _ =>
    (partsAligned_part aligned_text false).andThen fun _ =>
    (partsAligned_part? aligned_optional).andThen fun _ =>
    (partsAligned_part (aligned_array aligned_parameter) false).andThen fun _ =>
    (partsAligned_part aligned_result false).andThen fun _ =>
    (partsAligned_part aligned_options false).andThen fun _ =>
    partsAligned_pure _

theorem readsBy_manifest : ReadsBy manifestComponents none manifestField where
  known := by simp [manifestComponents, manifestField]
  unknown := by
    intro k hk s
    simp only [manifestComponents, List.map_cons, List.map_nil, List.mem_cons, List.not_mem_nil,
      or_false] at hk
    simp [manifestField]
  distinct := by decide
  empty := by simp [manifestComponents]
  get_set := by simp [manifestComponents]
  get_set_ne := by simp [manifestComponents]
  ext := by simp [manifestComponents]
  aligned := by simp [manifestComponents, aligned_array aligned_function]

/-! ### Documents that show a manifest -/

/-- A description is a field of its own; one that is absent is left out or written as `null`. -/
inductive ShowsDescription : Option String → List (Option String × Document) → Prop
  | given (s : String) : ShowsDescription (some s) [(some "description", .text (some s))]
  | omitted : ShowsDescription none []
  | null : ShowsDescription none [(some "description", .null)]

def mappingEntries (m : Mapping) : List (Option String × Document) :=
  [(some "type", .text (some (typeWord m.type))),
    (some "dimensionality", .text (some (dimensionalityWord m.dimensionality)))]

inductive ShowsParameter (p : ParameterRecord) (d : Document) : Prop
  | mk {description : List (Option String × Document)}
    (h : ShowsDescription p.description description)
    (hd : ShowsObject ["name", "description", "type", "dimensionality"]
      ((some "name", .text (some p.name)) :: mappingEntries p.mapping ++ description) d)

def ShowsResult (m : Mapping) (d : Document) : Prop :=
  ShowsObject ["type", "dimensionality"] (mappingEntries m) d

def ShowsOptions (o : Options) (d : Document) : Prop :=
  ShowsObject ["sync", "cancelable", "stream"]
    [(some "sync", .bool o.sync), (some "cancelable", .bool o.cancelable),
      (some "stream", .bool o.stream)] d

inductive ShowsFunction (f : FunctionRecord) (d : Document) : Prop
  | mk {description : List (Option String × Document)} {parameters : List Document}
    {result options : Document} (h : ShowsDescription f.description description)
    (hparameters : List.Forall₂ (fun d p => ShowsParameter p d) parameters f.parameters)
    (hresult : ShowsResult f.result result) (hoptions : ShowsOptions f.options options)
    (hd : ShowsObject
      ["name", "id", "helpurl", "description", "parameters", "result", "options"]
      ([(some "name", .text (some f.name)), (some "id", .text (some f.id)),
        (some "helpurl", .text (some f.helpUrl)), (some "parameters", .array parameters),
        (some "result", result), (some "options", options)] ++ description) d)

inductive ShowsManifest (m : Manifest) (d : Document) : Prop
  | mk {functions : List Document}
    (hfunctions : List.Forall₂ (fun d f => ShowsFunction f d) functions m.functions)
    (hd : ShowsObject ["functions"] [(some "functions", .array functions)] d)

theorem ShowsDescription.named_ne {description : Option String}
    {fs : List (Option String × Document)} (h : ShowsDescription description fs) {k : String}
    (hk : k ≠ "description") : named k fs = [] := by
  cases h <;> simp [named, Ne.symm hk]

theorem ShowsDescription.collects_append {description : Option String}
    {fs : List (Option String × Document)} (h : ShowsDescription description fs) {k : String}
    (hk : k ≠ "description") {α : Type} {read : Reader α} {gs : List (Option String × Document)}
    {old new : Option α} (hcollects : Collects k read gs old new) :
    Collects k read (gs ++ fs) old new :=
  hcollects.append (h.named_ne hk)

theorem ShowsDescription.exists_collects {description : Option String}
    {fs : List (Option String × Document)} (h : ShowsDescription description fs) :
    ∃ x, Collects "description" readOptional fs none x ∧ x.getD none = description := by
  cases h with
  | given s => exact ⟨some (some s), .once rfl (takes_optional s), rfl⟩
  | omitted => exact ⟨none, .missing rfl none, rfl⟩
  | null => exact ⟨some none, .once rfl takes_null, rfl⟩

theorem ShowsDescription.isSome_key {description : Option String}
    {fs : List (Option String × Document)} (h : ShowsDescription description fs) :
    ∀ f ∈ fs, ∃ k, f.1 = some k := by
  cases h <;> simp

theorem takes_valueType (t : ValueType) : Takes readValueType (.text (some (typeWord t))) t :=
  takes_word (typeOfWord?_typeWord t)

theorem takes_dimensionality (d : Dimensionality) :
    Takes readDimensionality (.text (some (dimensionalityWord d))) d :=
  takes_word (dimensionalityOfWord?_word d)

theorem takes_parameter {p : ParameterRecord} {d : Document} (h : ShowsParameter p d) :
    Takes readParameter d p := by
  obtain ⟨hdescription, hd⟩ := h
  obtain ⟨x, hx, hget⟩ := hdescription.exists_collects
  refine readsBy_parameter.takes_of_shows
    (s := ⟨some p.name, x, some p.mapping.type, some p.mapping.dimensionality⟩) ?_ ?_ ?_ hd
  · simpa [mappingEntries] using hdescription.isSome_key
  · simp only [parameterComponents, List.forall_mem_cons]
    refine ⟨?_, ?_, ?_, ?_, by simp⟩
    · exact hdescription.collects_append (by decide) (.once rfl (takes_text p.name))
    · exact Collects.prepend rfl hx
    · exact hdescription.collects_append (by decide) (.once rfl (takes_valueType _))
    · exact hdescription.collects_append (by decide) (.once rfl (takes_dimensionality _))
  · simp [ParameterFields.finish?, hget]

theorem takes_result {m : Mapping} {d : Document} (h : ShowsResult m d) : Takes readResult d m := by
  refine readsBy_result.takes_of_shows (s := ⟨some m.type, some m.dimensionality⟩) ?_ ?_ ?_ h
  · simp [mappingEntries]
  · simp only [resultComponents, List.forall_mem_cons]
    exact ⟨.once rfl (takes_valueType _), .once rfl (takes_dimensionality _), by simp⟩
  · rfl

theorem takes_options {o : Options} {d : Document} (h : ShowsOptions o d) :
    Takes readOptions d o := by
  refine readsBy_options.takes_of_shows (s := ⟨some o.sync, some o.cancelable, some o.stream⟩)
    ?_ ?_ ?_ h
  · simp
  · simp only [optionComponents, List.forall_mem_cons]
    exact ⟨.once rfl (takes_bool _), .once rfl (takes_bool _), .once rfl (takes_bool _), by simp⟩
  · rfl

theorem takes_function {f : FunctionRecord} {d : Document} (h : ShowsFunction f d) :
    Takes readFunction d f := by
  obtain ⟨hdescription, hparameters, hresult, hoptions, hd⟩ := h
  obtain ⟨x, hx, hget⟩ := hdescription.exists_collects
  have htakes := takes_array (hparameters.imp fun _ _ => takes_parameter)
  refine readsBy_function.takes_of_shows
    (s := ⟨some f.name, some f.id, some f.helpUrl, x, some f.parameters, some f.result,
      some f.options⟩) ?_ ?_ ?_ hd
  · simpa using hdescription.isSome_key
  · simp only [functionComponents, List.forall_mem_cons]
    refine ⟨?_, ?_, ?_, ?_, ?_, ?_, ?_, by simp⟩
    · exact hdescription.collects_append (by decide) (.once rfl (takes_text _))
    · exact hdescription.collects_append (by decide) (.once rfl (takes_text _))
    · exact hdescription.collects_append (by decide) (.once rfl (takes_text _))
    · exact Collects.prepend rfl hx
    · exact hdescription.collects_append (by decide) (.once rfl htakes)
    · exact hdescription.collects_append (by decide) (.once rfl (takes_result hresult))
    · exact hdescription.collects_append (by decide) (.once rfl (takes_options hoptions))
  · simp [FunctionFields.finish?, hget]

theorem takes_manifest {m : Manifest} {d : Document} (h : ShowsManifest m d) :
    Takes readManifest d m := by
  obtain ⟨hfunctions, hd⟩ := h
  have htakes := takes_array (hfunctions.imp fun _ _ => takes_function)
  refine readsBy_manifest.takes_of_shows (s := some m.functions) ?_ ?_ ?_ hd
  · simp
  · simp only [manifestComponents, List.forall_mem_cons]
    exact ⟨.once rfl htakes, by simp⟩
  · rfl

/-! ### Damaged documents -/

/-- A word is replaced by one that names no type, or no dimensionality. -/
inductive ReplacesWord : String → Document → Document → Prop
  | type {w w' : String} (h : ∀ t, typeWord t ≠ w') :
    ReplacesWord "type" (.text (some w)) (.text (some w'))
  | dimensionality {w w' : String} (h : ∀ d, dimensionalityWord d ≠ w') :
    ReplacesWord "dimensionality" (.text (some w)) (.text (some w'))

inductive DamagesItem (damages : Document → Document → Prop) : Document → Document → Prop
  | mk {d d' : Document} (h : damages d d') (front back : List Document) :
    DamagesItem damages (.array (front ++ d :: back)) (.array (front ++ d' :: back))

def DamagesParameter : Document → Document → Prop :=
  DamagesObject ["name", "type", "dimensionality"]
    ["name", "description", "type", "dimensionality"] ReplacesWord

def DamagesResult : Document → Document → Prop :=
  DamagesObject ["type", "dimensionality"] ["type", "dimensionality"] ReplacesWord

def DamagesOptions : Document → Document → Prop :=
  DamagesObject ["sync", "cancelable", "stream"] ["sync", "cancelable", "stream"]
    fun _ _ _ => False

inductive DamagesPart : String → Document → Document → Prop
  | parameters {d d' : Document} (h : DamagesItem DamagesParameter d d') :
    DamagesPart "parameters" d d'
  | result {d d' : Document} (h : DamagesResult d d') : DamagesPart "result" d d'
  | options {d d' : Document} (h : DamagesOptions d d') : DamagesPart "options" d d'

def DamagesFunction : Document → Document → Prop :=
  DamagesObject ["name", "id", "helpurl", "parameters", "result", "options"]
    ["name", "id", "helpurl", "description", "parameters", "result", "options"] DamagesPart

def DamagesManifest : Document → Document → Prop :=
  DamagesObject ["functions"] ["functions"]
    fun k d d' => k = "functions" ∧ DamagesItem DamagesFunction d d'

theorem typeOfWord?_eq_none {w : String} (h : ∀ t, typeWord t ≠ w) : typeOfWord? w = none := by
  unfold typeOfWord?
  split
  · exact (h .number rfl).elim
  · exact (h .string rfl).elim
  · exact (h .boolean rfl).elim
  · exact (h .any rfl).elim
  · rfl

theorem dimensionalityOfWord?_eq_none {w : String} (h : ∀ d, dimensionalityWord d ≠ w) :
    dimensionalityOfWord? w = none := by
  unfold dimensionalityOfWord?
  split
  · exact (h .scalar rfl).elim
  · exact (h .matrix rfl).elim
  · rfl

theorem refuses_item {α : Type} {item : Reader α} (hitem : Aligned item)
    {damages : Document → Document → Prop} (h : ∀ d d', damages d d' → Refuses item d')
    {d d' : Document} (hd : DamagesItem damages d d') : Refuses (readArray item) d' := by
  obtain ⟨hdamages, front, back⟩ := hd
  exact refuses_array hitem (by simp) (h _ _ hdamages)

theorem parameter_finish?_eq_none_iff {s : ParameterFields} :
    s.finish? = none ↔ s.name = none ∨ s.type = none ∨ s.dimensionality = none := by
  obtain ⟨name, description, type, dimensionality⟩ := s
  cases name <;> cases type <;> cases dimensionality <;> simp [ParameterFields.finish?]

theorem result_finish?_eq_none_iff {s : ResultFields} :
    s.finish? = none ↔ s.type = none ∨ s.dimensionality = none := by
  obtain ⟨type, dimensionality⟩ := s
  cases type <;> cases dimensionality <;> simp [ResultFields.finish?]

theorem options_finish?_eq_none_iff {s : OptionFields} :
    s.finish? = none ↔ s.sync = none ∨ s.cancelable = none ∨ s.stream = none := by
  obtain ⟨sync, cancelable, stream⟩ := s
  cases sync <;> cases cancelable <;> cases stream <;> simp [OptionFields.finish?]

theorem function_finish?_eq_none_iff {s : FunctionFields} :
    s.finish? = none ↔ s.name = none ∨ s.id = none ∨ s.helpUrl = none ∨ s.parameters = none ∨
      s.result = none ∨ s.options = none := by
  obtain ⟨name, id, helpUrl, description, parameters, result, options⟩ := s
  cases name <;> cases id <;> cases helpUrl <;> cases parameters <;> cases result <;>
    cases options <;> simp [FunctionFields.finish?]

theorem refuses_parameter {d d' : Document} (h : DamagesParameter d d') :
    Refuses readParameter d' := by
  refine readsBy_parameter.refuses_of_damages (by decide) ?_ ?_ h
  · simp +contextual [parameterComponents, parameter_finish?_eq_none_iff]
  · rintro k d d' (⟨hw⟩ | ⟨hw⟩)
    · exact ⟨parameterComponents[2], List.getElem_mem _, rfl,
        refuses_word (typeOfWord?_eq_none hw)⟩
    · exact ⟨parameterComponents[3], List.getElem_mem _, rfl,
        refuses_word (dimensionalityOfWord?_eq_none hw)⟩

theorem refuses_result {d d' : Document} (h : DamagesResult d d') : Refuses readResult d' := by
  refine readsBy_result.refuses_of_damages (by decide) ?_ ?_ h
  · simp +contextual [resultComponents, result_finish?_eq_none_iff]
  · rintro k d d' (⟨hw⟩ | ⟨hw⟩)
    · exact ⟨resultComponents[0], List.getElem_mem _, rfl,
        refuses_word (typeOfWord?_eq_none hw)⟩
    · exact ⟨resultComponents[1], List.getElem_mem _, rfl,
        refuses_word (dimensionalityOfWord?_eq_none hw)⟩

theorem refuses_options {d d' : Document} (h : DamagesOptions d d') : Refuses readOptions d' := by
  refine readsBy_options.refuses_of_damages (by decide) ?_ ?_ h
  · simp +contextual [optionComponents, options_finish?_eq_none_iff]
  · rintro k d d' ⟨⟩

theorem refuses_function {d d' : Document} (h : DamagesFunction d d') :
    Refuses readFunction d' := by
  refine readsBy_function.refuses_of_damages (by decide) ?_ ?_ h
  · simp +contextual [functionComponents, function_finish?_eq_none_iff]
  · intro k d d' hpart
    cases hpart with
    | parameters hd =>
      refine ⟨functionComponents[4], List.getElem_mem _, rfl, ?_⟩
      exact refuses_item aligned_parameter (fun _ _ => refuses_parameter) hd
    | result hd =>
      exact ⟨functionComponents[5], List.getElem_mem _, rfl, refuses_result hd⟩
    | options hd =>
      exact ⟨functionComponents[6], List.getElem_mem _, rfl, refuses_options hd⟩

theorem refuses_manifest {d d' : Document} (h : DamagesManifest d d') :
    Refuses readManifest d' := by
  refine readsBy_manifest.refuses_of_damages (by decide) ?_ ?_ h
  · simp +contextual [manifestComponents]
  · rintro k d d' ⟨rfl, hd⟩
    refine ⟨manifestComponents[0], List.getElem_mem _, rfl, ?_⟩
    exact refuses_item aligned_function (fun _ _ => refuses_function) hd

/-! ### Texts -/

theorem ofText_of_takes {m : Manifest} {d : Document} (h : Takes readManifest d m) {text : String}
    (htext : Lays d.tokens text.toList) : Manifest.ofText text = .ok m := by
  have hread := h []
  rw [List.append_nil] at hread
  simp only [Manifest.ofText, readAll, jsonTokens_of_document htext, hread]

theorem ofText_of_refuses {d : Document} (h : Refuses readManifest d) {text : String}
    (htext : Lays d.tokens text.toList) : ∃ f, Manifest.ofText text = .error f := by
  obtain ⟨f, hf⟩ := h []
  rw [List.append_nil] at hf
  exact ⟨f, by simp only [Manifest.ofText, readAll, jsonTokens_of_document htext, hf]⟩

/-- What a manifest is read as depends neither on the order of the fields of its records, nor on fields
that they do not know, nor on blanks; and a record that misses a field, has one twice or has an
unknown word for its type or dimensionality is not read. -/
theorem manifest_is_read_from_any_order (m : Manifest) (d : Document) (h : ShowsManifest m d) :
    (∀ text : String, Lays d.tokens text.toList → Manifest.ofText text = .ok m) ∧
      ∀ (d' : Document) (text : String), DamagesManifest d d' → Lays d'.tokens text.toList →
        ∃ f, Manifest.ofText text = .error f :=
  ⟨fun _ htext => ofText_of_takes (takes_manifest h) htext,
    fun _ _ hd htext => ofText_of_refuses (refuses_manifest hd) htext⟩

def rateManifest : Manifest :=
  { functions :=
      [{ name := "RATE", id := "RATE", helpUrl := "https://example.com", description := none
         parameters := [⟨"at", some "The day", ⟨.string, .scalar⟩⟩]
         result := ⟨.number, .matrix⟩, options := .streaming }] }

def rateDocument (resultType : String) : Document :=
  .object [(some "version", .number), (some "functions", .array [function])]
where
  options := .object
    [(some "volatile", .bool false), (some "stream", .bool true), (some "cancelable", .bool true),
      (some "sync", .bool false)]
  result := .object
    [(some "description", .text none), (some "dimensionality", .text (some "matrix")),
      (some "type", .text (some resultType))]
  parameter := .object
    [(some "optional", .bool true), (some "description", .text (some "The day")),
      (some "dimensionality", .text (some "scalar")), (some "type", .text (some "string")),
      (some "name", .text (some "at"))]
  function := .object
    [(some "since", .array [.number, .object [(none, .null)]]), (some "description", .null),
      (some "options", options), (some "result", result),
      (some "parameters", .array [parameter]),
      (some "helpurl", .text (some "https://example.com")), (some "id", .text (some "RATE")),
      (some "name", .text (some "RATE"))]

theorem showsObject_reverse {known : List String} {fields : List (Option String × Document)}
    {k : String} (hk : k ∉ known) (d : Document) :
    ShowsObject known fields (.object ((some k, d) :: fields.reverse)) := by
  have hperm : ((some k, d) :: fields.reverse).Perm (fields ++ [(some k, d)]) :=
    (List.perm_append_singleton _ _).symm.trans (fields.reverse_perm.append_right _)
  exact .mk hperm (by simpa using hk)

theorem showsManifest_rate : ShowsManifest rateManifest (rateDocument "number") := by
  have hparameter : ShowsParameter ⟨"at", some "The day", ⟨.string, .scalar⟩⟩
      rateDocument.parameter := .mk (.given "The day") (showsObject_reverse (by decide) _)
  have hresult : ShowsResult ⟨.number, .matrix⟩ (rateDocument.result "number") :=
    showsObject_reverse (by decide) _
  have hoptions : ShowsOptions .streaming rateDocument.options := showsObject_reverse (by decide) _
  exact .mk (.cons (.mk .null (.cons hparameter .nil) hresult hoptions
    (showsObject_reverse (by decide) _)) .nil) (showsObject_reverse (by decide) _)

theorem damagesManifest_rate : DamagesManifest (rateDocument "number") (rateDocument "date") := by
  have htype : ReplacesWord "type" (.text (some "number")) (.text (some "date")) :=
    .type fun t => by cases t <;> decide
  have hresult : DamagesResult (rateDocument.result "number") (rateDocument.result "date") :=
    .replace htype [_, _] []
  have hfunction : DamagesFunction (rateDocument.function "number") (rateDocument.function "date") :=
    .replace (.result hresult) [_, _, _] [_, _, _, _]
  exact .replace ⟨rfl, .mk hfunction [] []⟩ [_] []

theorem lays_rate (resultType : String) : Lays (rateDocument resultType).tokens
    (String.ofList (spaced (rateDocument resultType).tokens)).toList := by
  rw [String.toList_ofList]
  have hall : ((rateDocument resultType).tokens.all fun t => (spelling? t).isSome) = true := rfl
  exact lays_spaced (List.all_eq_true.mp hall)

theorem manifest_is_read_from_any_order_rate :
    Manifest.ofText (String.ofList (spaced (rateDocument "number").tokens)) = .ok rateManifest ∧
      ∃ f, Manifest.ofText (String.ofList (spaced (rateDocument "date").tokens)) = .error f := by
  obtain ⟨hshown, hdamaged⟩ :=
    manifest_is_read_from_any_order rateManifest (rateDocument "number") showsManifest_rate
  exact ⟨hshown _ (lays_rate _), hdamaged _ _ damagesManifest_rate (lays_rate _)⟩

end ScriptManifest.Manifest
