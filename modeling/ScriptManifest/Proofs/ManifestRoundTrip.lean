import ScriptManifest.Manifest.Reading
import ScriptManifest.Proofs.JsonText

/-!
Manifests read back from the text they are written as. `Reads` says that a reader takes a value off
the front of any tokens; there is one such fact for every reader, from texts up to whole manifests.
With the tokens of the two layouts being the same, both give back the manifest.
-/

namespace ScriptManifest.Manifest

open Json

/-- A reader finds `a` in the tokens of the value `j` and leaves all that follows. -/
def Reads {α : Type} (r : Reader α) (j : Json) (a : α) : Prop :=
  ∀ rest, r (j.tokens ++ rest) = .ok (a, rest)

/-! ### Simple values -/

theorem reads_text (s : String) : Reads readText (.text s) s := fun _ => rfl

theorem reads_bool (b : Bool) : Reads readBool (.bool b) b := fun _ => rfl

theorem reads_optional (s : String) : Reads readOptional (.text s) (some s) := fun _ => rfl

theorem reads_word {α : Type} {meaning : String → Option α} {w : String} {a : α}
    (h : meaning w = some a) : Reads (readWord meaning) (.text w) a := by
  intro rest
  simp [tokens, readWord, h]

theorem typeOfWord?_typeWord (t : ValueType) : typeOfWord? (typeWord t) = some t := by
  cases t <;> rfl

theorem dimensionalityOfWord?_word (d : Dimensionality) :
    dimensionalityOfWord? (dimensionalityWord d) = some d := by
  cases d <;> rfl

theorem reads_valueType (t : ValueType) : Reads readValueType (.text (typeWord t)) t :=
  reads_word (typeOfWord?_typeWord t)

theorem reads_dimensionality (d : Dimensionality) :
    Reads readDimensionality (.text (dimensionalityWord d)) d :=
  reads_word (dimensionalityOfWord?_word d)

/-! ### Arrays -/

theorem tokens_eq_cons (j : Json) : ∃ t ts, j.tokens = t :: ts ∧ t ≠ .closeBracket := by
  cases j with
  | null => exact ⟨.null, [], rfl, by decide⟩
  | bool b => exact ⟨.bool b, [], rfl, by simp⟩
  | number s => exact ⟨.number, [], rfl, by decide⟩
  | text s => exact ⟨.text (some s), [], rfl, by simp⟩
  | array items => exact ⟨.openBracket, _, rfl, by decide⟩
  | object fields => exact ⟨.openBrace, _, rfl, by decide⟩

theorem nextItem?_first (j : Json) (rest : List JsonToken) :
    nextItem? true (j.tokens ++ rest) = .ok (some (j.tokens ++ rest)) := by
  obtain ⟨t, ts, ht, hne⟩ := tokens_eq_cons j
  rw [ht, List.cons_append]
  cases t <;> simp_all [nextItem?]

theorem nextItem?_further (j : Json) (rest : List JsonToken) :
    nextItem? false (.comma :: (j.tokens ++ rest)) = .ok (some (j.tokens ++ rest)) := by
  obtain ⟨t, ts, ht, hne⟩ := tokens_eq_cons j
  rw [ht, List.cons_append]
  cases t <;> simp_all [nextItem?]

section Items
variable {α : Type} {item : Reader α} {toJson : α → Json}

theorem readItems_further (as : List α) (h : ∀ a ∈ as, Reads item (toJson a) a) {fuel : Nat}
    (hf : as.length < fuel) (rest : List JsonToken) :
    readItems item fuel false (furtherItemTokens (as.map toJson) ++ .closeBracket :: rest) =
      .ok (as, rest) := by
  induction as generalizing fuel with
  | nil =>
    obtain ⟨n, rfl⟩ : ∃ n, fuel = n + 1 := ⟨fuel - 1, by simp at hf; omega⟩
    rfl
  | cons a as ih =>
    obtain ⟨n, rfl⟩ : ∃ n, fuel = n + 1 := ⟨fuel - 1, by simp at hf; omega⟩
    have hn : as.length < n := by simp at hf; omega
    have hrest := ih (fun b hb => h b (List.mem_cons_of_mem a hb)) hn
    simp only [List.map_cons, furtherItemTokens, List.cons_append, List.append_assoc]
    rw [readItems, nextItem?_further]
    simp only [h a (by simp) _, hrest]

theorem readItems_first (as : List α) (h : ∀ a ∈ as, Reads item (toJson a) a) {fuel : Nat}
    (hf : as.length < fuel) (rest : List JsonToken) :
    readItems item fuel true (itemTokens (as.map toJson) ++ .closeBracket :: rest) =
      .ok (as, rest) := by
  obtain ⟨n, rfl⟩ : ∃ n, fuel = n + 1 := ⟨fuel - 1, by omega⟩
  cases as with
  | nil => rfl
  | cons a as =>
    have hn : as.length < n := by simp at hf; omega
    have hrest := readItems_further as (fun b hb => h b (List.mem_cons_of_mem a hb)) hn rest
    simp only [List.map_cons, itemTokens, List.append_assoc]
    rw [readItems, nextItem?_first]
    simp only [h a (by simp) _, hrest]

theorem length_le_furtherItemTokens (js : List Json) :
    js.length ≤ (furtherItemTokens js).length := by
  induction js with
  | nil => exact Nat.zero_le _
  | cons j js ih =>
    simp only [furtherItemTokens, List.length_cons, List.length_append, List.cons_append]
    omega

theorem length_le_itemTokens (js : List Json) : js.length ≤ (itemTokens js).length := by
  cases js with
  | nil => exact Nat.zero_le _
  | cons j js =>
    obtain ⟨t, ts, ht, -⟩ := tokens_eq_cons j
    have hrest := length_le_furtherItemTokens js
    simp only [itemTokens, ht, List.length_cons, List.length_append, List.cons_append]
    omega

theorem reads_array {as : List α} (h : ∀ a ∈ as, Reads item (toJson a) a) :
    Reads (readArray item) (.array (as.map toJson)) as := by
  intro rest
  have hlen := length_le_itemTokens (as.map toJson)
  rw [List.length_map] at hlen
  simp only [tokens, List.cons_append, List.append_assoc, List.nil_append, readArray]
  exact readItems_first as h (by simp only [List.length_append]; omega) rest

end Items

/-! ### Objects -/

inductive FieldSteps {σ : Type} (field : String → σ → Reader σ) : σ → List (String × Json) → σ → Prop
  | nil (s : σ) : FieldSteps field s [] s
  | cons {s s' s'' : σ} {k : String} {j : Json} {fs : List (String × Json)}
      (h : ∀ rest, field k s (.colon :: (j.tokens ++ rest)) = .ok (s', rest))
      (hs : FieldSteps field s' fs s'') : FieldSteps field s ((k, j) :: fs) s''

section Fields
variable {σ : Type} {field : String → σ → Reader σ}

theorem FieldSteps.append {s s' s'' : σ} {fs gs : List (String × Json)}
    (h : FieldSteps field s fs s') (h' : FieldSteps field s' gs s'') :
    FieldSteps field s (fs ++ gs) s'' := by
  induction h with
  | nil => exact h'
  | cons hf _ ih => exact .cons hf (ih h')

theorem FieldSteps.single {s s' : σ} {k : String} {j : Json}
    (h : ∀ rest, field k s (.colon :: (j.tokens ++ rest)) = .ok (s', rest)) :
    FieldSteps field s [(k, j)] s' :=
  .cons h (.nil s')

theorem readFields_further {s s' : σ} {fs : List (String × Json)} (h : FieldSteps field s fs s')
    {fuel : Nat} (hf : fs.length < fuel) (rest : List JsonToken) :
    readFields field fuel false s (furtherFieldTokens fs ++ .closeBrace :: rest) =
      .ok (s', rest) := by
  induction h generalizing fuel with
  | nil s =>
    obtain ⟨n, rfl⟩ : ∃ n, fuel = n + 1 := ⟨fuel - 1, by simp at hf; omega⟩
    rfl
  | cons hk _ ih =>
    obtain ⟨n, rfl⟩ : ∃ n, fuel = n + 1 := ⟨fuel - 1, by simp at hf; omega⟩
    have hrest := ih (show _ < n by simp at hf; omega)
    simp [furtherFieldTokens, readFields, hk, hrest]

theorem readFields_first {s s' : σ} {fs : List (String × Json)} (h : FieldSteps field s fs s')
    {fuel : Nat} (hf : fs.length < fuel) (rest : List JsonToken) :
    readFields field fuel true s (fieldTokens fs ++ .closeBrace :: rest) = .ok (s', rest) := by
  obtain ⟨n, rfl⟩ : ∃ n, fuel = n + 1 := ⟨fuel - 1, by omega⟩
  cases h with
  | nil => rfl
  | cons hk hs =>
    have hrest := readFields_further hs (show _ < n by simp at hf; omega) rest
    simp [fieldTokens, readFields, hk, hrest]

theorem length_le_furtherFieldTokens (fs : List (String × Json)) :
    fs.length ≤ (furtherFieldTokens fs).length := by
  induction fs with
  | nil => exact Nat.zero_le _
  | cons f fs ih =>
    simp only [furtherFieldTokens, List.length_cons, List.length_append, List.cons_append]
    omega

theorem length_le_fieldTokens (fs : List (String × Json)) : fs.length ≤ (fieldTokens fs).length := by
  cases fs with
  | nil => exact Nat.zero_le _
  | cons f fs =>
    have hrest := length_le_furtherFieldTokens fs
    simp only [fieldTokens, List.length_cons, List.length_append, List.cons_append]
    omega

theorem reads_record {α : Type} {start s : σ} {finish : σ → Option α} {a : α} {parts : Reader α}
    {fs : List (String × Json)} (h : FieldSteps field start fs s) (ha : finish s = some a) :
    Reads (readRecord start field finish parts) (.object fs) a := by
  intro rest
  have hlen := length_le_fieldTokens fs
  have hf : fs.length < (fieldTokens fs ++ JsonToken.closeBrace :: rest).length + 1 := by
    simp only [List.length_append]
    omega
  have hread := readFields_first h hf rest
  simp only [tokens, List.cons_append, List.append_assoc, List.nil_append, readRecord, hread, ha]

theorem FieldSteps.set {α : Type} {old : Option α} {read : Reader α} {set : α → σ} {s s' : σ}
    {k : String} {j : Json} {a : α} (hfield : field k s = setField old read set)
    (hold : old = none) (h : Reads read j a) (hs : set a = s') :
    FieldSteps field s [(k, j)] s' := by
  refine .single fun rest => ?_
  simp [hfield, setField, hold, h rest, hs]

theorem FieldSteps.description {old : Option (Option String)} {set : Option String → σ} {s s' : σ}
    (hfield : field "description" s = setField old readOptional set) (hold : old = none)
    (d : Option String) (hs : (d.map fun t => set (some t)).getD s = s') :
    FieldSteps field s (descriptionFields d) s' := by
  cases d with
  | none => exact hs ▸ .nil s
  | some t => exact .set hfield hold (reads_optional t) hs

end Fields

/-! ### Records -/

theorem steps_parameter_mapping (s : ParameterFields) (ht : s.type = none)
    (hd : s.dimensionality = none) (m : Mapping) :
    FieldSteps parameterField s (mappingFields m)
      { s with type := some m.type, dimensionality := some m.dimensionality } :=
  FieldSteps.append (.set rfl ht (reads_valueType m.type) rfl)
    (.set rfl hd (reads_dimensionality m.dimensionality) rfl)

theorem reads_parameter (p : ParameterRecord) : Reads readParameter p.json p := by
  have hname : FieldSteps parameterField {} [("name", .text p.name)] { name := some p.name } :=
    .set rfl rfl (reads_text p.name) rfl
  have hdescription : FieldSteps parameterField { name := some p.name }
      (descriptionFields p.description)
      { name := some p.name, description := p.description.map some } :=
    .description rfl rfl p.description (by cases p.description <;> rfl)
  have hmapping := steps_parameter_mapping
    { name := some p.name, description := p.description.map some } rfl rfl p.mapping
  refine reads_record ((hname.append hdescription).append hmapping) ?_
  obtain ⟨name, description, mapping⟩ := p
  cases description <;> rfl

theorem reads_result (m : Mapping) : Reads readResult (.object (mappingFields m)) m := by
  have htype : FieldSteps resultField {} [("type", .text (typeWord m.type))]
      { type := some m.type } := .set rfl rfl (reads_valueType m.type) rfl
  have hdim : FieldSteps resultField { type := some m.type }
      [("dimensionality", .text (dimensionalityWord m.dimensionality))]
      { type := some m.type, dimensionality := some m.dimensionality } :=
    .set rfl rfl (reads_dimensionality m.dimensionality) rfl
  exact reads_record (htype.append hdim) rfl

theorem reads_options (o : Options) : Reads readOptions o.json o := by
  have hsync : FieldSteps optionField {} [("sync", .bool o.sync)] { sync := some o.sync } :=
    .set rfl rfl (reads_bool o.sync) rfl
  have hcancelable : FieldSteps optionField { sync := some o.sync }
      [("cancelable", .bool o.cancelable)]
      { sync := some o.sync, cancelable := some o.cancelable } :=
    .set rfl rfl (reads_bool o.cancelable) rfl
  have hstream : FieldSteps optionField { sync := some o.sync, cancelable := some o.cancelable }
      [("stream", .bool o.stream)]
      { sync := some o.sync, cancelable := some o.cancelable, stream := some o.stream } :=
    .set rfl rfl (reads_bool o.stream) rfl
  exact reads_record ((hsync.append hcancelable).append hstream) rfl

theorem steps_function_names (f : FunctionRecord) :
    FieldSteps functionField {}
      [("name", .text f.name), ("id", .text f.id), ("helpurl", .text f.helpUrl)]
      { name := some f.name, id := some f.id, helpUrl := some f.helpUrl } :=
  FieldSteps.append (.set rfl rfl (reads_text f.name) rfl)
    (FieldSteps.append (.set rfl rfl (reads_text f.id) rfl)
      (.set rfl rfl (reads_text f.helpUrl) rfl))

theorem steps_function_signature (s : FunctionFields) (hp : s.parameters = none)
    (hr : s.result = none) (ho : s.options = none) (f : FunctionRecord) :
    FieldSteps functionField s
      [("parameters", .array (f.parameters.map ParameterRecord.json)),
        ("result", .object (mappingFields f.result)), ("options", f.options.json)]
      { s with
        parameters := some f.parameters
        result := some f.result
        options := some f.options } :=
  FieldSteps.append (.set rfl hp (reads_array fun p _ => reads_parameter p) rfl)
    (FieldSteps.append (.set rfl hr (reads_result f.result) rfl)
      (.set rfl ho (reads_options f.options) rfl))

theorem reads_function (f : FunctionRecord) : Reads readFunction f.json f := by
  have hdescription : FieldSteps functionField
      { name := some f.name, id := some f.id, helpUrl := some f.helpUrl }
      (descriptionFields f.description)
      { name := some f.name, id := some f.id, helpUrl := some f.helpUrl,
        description := f.description.map some } :=
    .description rfl rfl f.description (by cases f.description <;> rfl)
  have hsignature := steps_function_signature
    { name := some f.name, id := some f.id, helpUrl := some f.helpUrl,
      description := f.description.map some } rfl rfl rfl f
  refine reads_record (((steps_function_names f).append hdescription).append hsignature) ?_
  obtain ⟨name, id, helpUrl, description, parameters, result, options⟩ := f
  cases description <;> rfl

theorem reads_manifest (m : Manifest) : Reads readManifest m.json m := by
  have hfunctions : FieldSteps manifestField none
      [("functions", .array (m.functions.map FunctionRecord.json))] (some m.functions) :=
    .set rfl rfl (reads_array fun f _ => reads_function f) rfl
  exact reads_record hfunctions rfl

/-! ### Written manifests -/

theorem itemsHaveNoNumber_map {α : Type} {toJson : α → Json} (as : List α)
    (h : ∀ a ∈ as, (toJson a).hasNoNumber = true) : itemsHaveNoNumber (as.map toJson) = true := by
  induction as with
  | nil => rfl
  | cons a as ih =>
    rw [List.map_cons, itemsHaveNoNumber, h a (by simp), ih fun b hb => h b (List.mem_cons_of_mem a hb)]
    rfl

theorem hasNoNumber_parameter (p : ParameterRecord) : p.json.hasNoNumber = true := by
  obtain ⟨name, description, mapping⟩ := p
  cases description <;> rfl

theorem hasNoNumber_function (f : FunctionRecord) : f.json.hasNoNumber = true := by
  have hparameters := itemsHaveNoNumber_map f.parameters fun p _ => hasNoNumber_parameter p
  obtain ⟨name, id, helpUrl, description, parameters, result, options⟩ := f
  cases description <;>
    simp_all [FunctionRecord.json, descriptionFields, mappingFields, Options.json, hasNoNumber,
      fieldsHaveNoNumber]

theorem hasNoNumber_manifest (m : Manifest) : m.json.hasNoNumber = true := by
  have hfunctions := itemsHaveNoNumber_map m.functions fun f _ => hasNoNumber_function f
  simp [Manifest.json, hasNoNumber, fieldsHaveNoNumber, hfunctions]

theorem ofText_render (m : Manifest) (pretty : Bool) : Manifest.ofText (m.render pretty) = .ok m := by
  have hread : readManifest m.json.tokens = .ok (m, []) := by simpa using reads_manifest m []
  simp [Manifest.ofText, readAll, Manifest.render,
    jsonTokens_render pretty m.json (hasNoNumber_manifest m), hread]

/-- Both layouts of a manifest read back as the manifest, so that writing what was read from either
text gives the two texts again. -/
theorem manifest_round_trips (m : Manifest) :
    Manifest.ofText (m.render false) = .ok m ∧ Manifest.ofText (m.render true) = .ok m ∧
      ∀ pretty pretty' : Bool,
        (Manifest.ofText (m.render pretty)).map (·.render pretty') = .ok (m.render pretty') := by
  refine ⟨ofText_render m false, ofText_render m true, fun pretty pretty' => ?_⟩
  rw [ofText_render m pretty]
  rfl

end ScriptManifest.Manifest
