import ScriptManifest.Proofs.Accounting
import ScriptManifest.Proofs.DocLayout
import ScriptManifest.Proofs.SignatureOrigin

/-!
What every record of a report satisfies, whatever the script. The texts of a record were trimmed when
its documentation was read (`isTrimmed_ofBlocks`), a declared type never maps to `any`
(`ne_any_of_mapping`), and a name is the text of a token. In a dialect without types no annotation is
read, so nothing but a missing name can be wrong with a declaration (`errors_of_isUntyped`).
-/

namespace ScriptManifest.Text

/-- A text that neither starts nor ends with a blank. -/
def HasNoOuterBlank (s : String) : Prop :=
  (∀ c ∈ s.toList.head?, isBlank c = false) ∧ ∀ c ∈ s.toList.getLast?, isBlank c = false

theorem isBlank_of_mem_head?_trim {s : List Char} {c : Char} (h : c ∈ (trim s).head?) :
    isBlank c = false := by
  rw [trim] at h
  cases hs : trimStart s with
  | nil =>
    rw [hs] at h
    cases h
  | cons c' cs =>
    have hc' : isBlank c' = false := by
      apply isBlank_of_mem_head?_dropWhile (s := s)
      rw [← trimStart, hs]
      rfl
    -- trimming the end keeps the first character, which is no blank
    have hend : trimEnd (c' :: cs) = c' :: trimEnd cs := trimEnd_append (s := []) hc' cs
    rw [hs, hend] at h
    cases h
    exact hc'

theorem hasNoOuterBlank_trim (s : List Char) : HasNoOuterBlank (String.ofList (trim s)) := by
  rw [HasNoOuterBlank, String.toList_ofList]
  exact ⟨fun _ => isBlank_of_mem_head?_trim, fun _ => isBlank_of_mem_getLast?_trimEnd⟩

theorem hasNoOuterBlank_empty : HasNoOuterBlank "" := hasNoOuterBlank_trim []

theorem eq_of_nonempty? {cs : List Char} {s : String} (h : nonempty? cs = some s) :
    s = String.ofList cs ∧ s ≠ "" := by
  unfold nonempty? at h
  split at h
  · cases h
  · next hcs =>
    cases h
    refine ⟨rfl, fun hempty => hcs ?_⟩
    have hnil := congrArg String.toList hempty
    rw [String.toList_ofList] at hnil
    rw [hnil]
    rfl

end ScriptManifest.Text

namespace ScriptManifest.Doc

open Text

/-! ### Documentation is read without outer blanks -/

structure Block.IsTrimmed (b : Block) : Prop where
  comment : ∀ s ∈ b.comment, s ≠ "" ∧ HasNoOuterBlank s
  tags : ∀ t ∈ b.tags, HasNoOuterBlank t.text

theorem isTrimmed_ofLines (ls : List (List Char)) : (Block.ofLines ls).IsTrimmed where
  comment s hs := by
    obtain ⟨rfl, hne⟩ := eq_of_nonempty? hs
    exact ⟨hne, hasNoOuterBlank_trim _⟩
  tags t ht := by
    obtain ⟨lines, _, rfl⟩ := List.mem_map.mp ht
    exact hasNoOuterBlank_trim _

theorem isTrimmed_of_parse? {raw : String} {b : Block} (h : Block.parse? raw = some b) :
    b.IsTrimmed := by
  obtain ⟨body, _, rfl⟩ := Option.map_eq_some_iff.mp h
  exact isTrimmed_ofLines _

structure Summary.IsTrimmed (s : Summary) : Prop where
  helpUrl : HasNoOuterBlank s.helpUrl
  description : ∀ text ∈ s.description, text ≠ "" ∧ HasNoOuterBlank text
  parameters : ∀ p ∈ s.parameters, HasNoOuterBlank p.2

theorem hasNoOuterBlank_described (p : ParamTag) : HasNoOuterBlank p.described.2 := by
  rw [ParamTag.described]
  cases p.comment with
  | none => exact hasNoOuterBlank_empty
  | some comment => exact hasNoOuterBlank_trim _

theorem hasNoOuterBlank_helpUrl {tags : List Tag} (h : ∀ t ∈ tags, HasNoOuterBlank t.text) :
    HasNoOuterBlank (((tags.filterMap Tag.comment?).getLast?).getD "") := by
  cases hlast : (tags.filterMap Tag.comment?).getLast? with
  | none => exact hasNoOuterBlank_empty
  | some url =>
    obtain ⟨t, ht, htext⟩ := List.mem_filterMap.mp (List.mem_of_getLast? hlast)
    obtain ⟨hurl, _⟩ := eq_of_nonempty? htext
    rw [String.ofList_toList] at hurl
    rw [Option.getD_some, hurl]
    exact h t ht

theorem isTrimmed_ofBlocks {blocks : List Block} (h : ∀ b ∈ blocks, b.IsTrimmed) :
    (Summary.ofBlocks blocks).IsTrimmed := by
  have htags : ∀ t ∈ blocks.flatMap Block.tags, HasNoOuterBlank t.text := by
    intro t ht
    obtain ⟨b, hb, hbt⟩ := List.mem_flatMap.mp ht
    exact (h b hb).tags t hbt
  rw [Summary.ofBlocks]
  split
  · refine ⟨?_, ?_, ?_⟩
    · exact hasNoOuterBlank_helpUrl fun t ht => htags t (List.mem_filter.mp ht).1
    · intro text htext
      obtain ⟨b, hb, hcomment⟩ := Option.bind_eq_some_iff.mp htext
      exact (h b (List.mem_of_head? hb)).comment text hcomment
    · intro p hp
      obtain ⟨tag, _, rfl⟩ := List.mem_map.mp hp
      exact hasNoOuterBlank_described tag
  · exact ⟨hasNoOuterBlank_empty, by simp, by simp⟩

theorem Summary.IsTrimmed.paramDescription? {s : Summary} (h : s.IsTrimmed) {name text : String}
    (htext : s.paramDescription? name = some text) : HasNoOuterBlank text := by
  rw [Summary.paramDescription?, List.findRev?_eq_find?_reverse] at htext
  obtain ⟨p, hp, rfl⟩ := Option.map_eq_some_iff.mp htext
  exact h.parameters p (List.mem_reverse.mp (List.mem_of_find?_eq_some hp))

end ScriptManifest.Doc

namespace ScriptManifest

open Doc Manifest Source Text

/-! ### Declared types are never `any` -/

/-- Values of an undeclared type come one at a time. -/
def Mapping.IsWellFormed (m : Mapping) : Prop := m.type = .any → m.dimensionality = .scalar

theorem ne_any_of_ofKeyword? {keyword : String} {type : ValueType}
    (h : ValueType.ofKeyword? keyword = some type) : type ≠ .any := by
  unfold ValueType.ofKeyword? at h
  split at h <;> cases h <;> decide

theorem ne_any_of_mapping {a : DeclaredType} {m : Mapping} (h : a.mapping = .ok m) :
    m.type ≠ .any := by
  unfold DeclaredType.mapping at h
  split at h
  · cases h
  · next e _ =>
    split at h
    · next type htype =>
      cases h
      cases e with
      | primitive keyword text => exact ne_any_of_ofKeyword? htype
      | array element text => cases htype
      | named name arguments text => cases htype
      | other text => cases htype
    · cases h

theorem isWellFormed_of_ne_any {m : Mapping} (h : m.type ≠ .any) : m.IsWellFormed :=
  fun hany => (h hany).elim

theorem isWellFormed_untyped : Mapping.untyped.IsWellFormed := fun _ => rfl

theorem isWellFormed_of_resolveType {a : Option DeclaredType} {m : Mapping}
    (h : resolveType a = .ok m) : m.IsWellFormed := by
  cases a with
  | none =>
    cases h
    exact isWellFormed_untyped
  | some a => exact isWellFormed_of_ne_any (ne_any_of_mapping h)

theorem isWellFormed_of_resolveReturn {a : Option DeclaredType} {m : Mapping}
    (h : resolveReturn a = .ok m) : m.IsWellFormed := by
  cases a with
  | none =>
    cases h
    exact isWellFormed_untyped
  | some a => exact isWellFormed_of_ne_any (ne_any_of_mapping h)

theorem ne_any_of_resolveStreaming {handler : DeclaredType} {declared : Option DeclaredType}
    {m : Mapping} (h : resolveStreaming handler declared = .ok m) : m.type ≠ .any := by
  unfold resolveStreaming at h
  split at h
  · split at h
    · cases h
    · exact ne_any_of_mapping h
  · cases h

/-! ### Records -/

structure Manifest.ParameterRecord.IsWellFormed (p : ParameterRecord) : Prop where
  mapping : p.mapping.IsWellFormed
  description : ∀ s ∈ p.description, HasNoOuterBlank s

/-- What a host that registers a function relies on. -/
structure Manifest.FunctionRecord.IsWellFormed (f : FunctionRecord) : Prop where
  id_eq_name : f.id = f.name
  name_ne_empty : f.name ≠ ""
  not_sync : f.options.sync = false
  cancelable_eq_stream : f.options.cancelable = f.options.stream
  parameters : ∀ p ∈ f.parameters, p.IsWellFormed
  result : f.result.IsWellFormed
  /-- What is streamed has a declared type. -/
  streamed : f.options.stream = true → f.result.type ≠ .any
  helpUrl : HasNoOuterBlank f.helpUrl
  description : ∀ s ∈ f.description, s ≠ "" ∧ HasNoOuterBlank s

structure Manifest.FunctionRecord.IsUntyped (f : FunctionRecord) : Prop where
  parameters : ∀ p ∈ f.parameters, p.mapping = ⟨.any, .scalar⟩
  result : f.result = ⟨.any, .scalar⟩
  not_streamed : f.options.stream = false

theorem options_of_streamed (streamed : Bool) :
    (if streamed then Options.streaming else {}).sync = false ∧
      (if streamed then Options.streaming else {}).cancelable = streamed ∧
      (if streamed then Options.streaming else {}).stream = streamed := by
  cases streamed with
  | false => exact ⟨rfl, rfl, rfl⟩
  | true => exact ⟨rfl, rfl, rfl⟩

theorem mem_of_mem_oks {ε α : Type} {xs : List (Except ε α)} {a : α} (h : a ∈ oks xs) :
    .ok a ∈ xs := by
  obtain ⟨x, hx, ha⟩ := List.mem_filterMap.mp h
  cases x with
  | ok a' =>
    cases ha
    exact hx
  | error e => cases ha

namespace Documented

/-- What reading a script makes sure of before a declaration is analysed. -/
structure IsRead (d : Documented) : Prop where
  name : ∀ name, d.signature.name = some name → name ≠ ""
  blocks : ∀ b ∈ d.blocks, b.IsTrimmed

theorem IsRead.isTrimmed_summary {d : Documented} (h : d.IsRead) : d.summary.IsTrimmed :=
  isTrimmed_ofBlocks h.blocks

theorem IsRead.isWellFormed_parameter {d : Documented} (h : d.IsRead) {p : ParameterRecord}
    (hp : p ∈ oks d.parameterResults) : p.IsWellFormed := by
  obtain ⟨q, _, hq⟩ := List.mem_map.mp (mem_of_mem_oks hp)
  unfold parameterRecord at hq
  split at hq
  · next m hm =>
    cases hq
    exact ⟨isWellFormed_of_resolveType hm, fun s hs => h.isTrimmed_summary.paramDescription? hs⟩
  · cases hq

theorem isWellFormed_of_result {d : Documented} {m : Mapping} (h : d.result = .ok m) :
    m.IsWellFormed := by
  unfold result at h
  split at h
  · exact isWellFormed_of_ne_any (ne_any_of_resolveStreaming h)
  · exact isWellFormed_of_resolveReturn h

theorem ne_any_of_result {d : Documented} {m : Mapping} (h : d.result = .ok m)
    (hstream : d.split.2.isSome = true) : m.type ≠ .any := by
  obtain ⟨handler, hhandler⟩ := Option.isSome_iff_exists.mp hstream
  rw [result, hhandler] at h
  exact ne_any_of_resolveStreaming h

theorem IsRead.isWellFormed {d : Documented} (h : d.IsRead) {f : FunctionRecord}
    (hf : d.outcome = .accepted f) : f.IsWellFormed := by
  obtain ⟨name, m, hname, _, hm, rfl⟩ := of_accepted hf
  obtain ⟨hsync, hcancelable, hstream⟩ := options_of_streamed d.split.2.isSome
  exact
    { id_eq_name := rfl
      name_ne_empty := h.name name hname
      not_sync := hsync
      cancelable_eq_stream := hcancelable.trans hstream.symm
      parameters := fun p hp => h.isWellFormed_parameter hp
      result := isWellFormed_of_result hm
      streamed := fun hs => ne_any_of_result hm (hstream.symm.trans hs)
      helpUrl := h.isTrimmed_summary.helpUrl
      description := h.isTrimmed_summary.description }

/-! ### Declarations without annotations -/

theorem split_of_isUntyped {d : Documented} (h : d.signature.IsUntyped) :
    d.split = (d.signature.parameters, none) := by
  apply splitHandler_of_none
  intro p hp
  rw [h.parameters p (List.mem_of_getLast? hp)]
  rfl

theorem result_of_isUntyped {d : Documented} (h : d.signature.IsUntyped) :
    d.result = .ok .untyped := by
  rw [result, split_of_isUntyped h, h.result]
  rfl

theorem parameterResults_of_isUntyped {d : Documented} (h : d.signature.IsUntyped) :
    d.parameterResults =
      (d.signature.parameters.map fun p =>
        ⟨p.name, d.summary.paramDescription? p.name, .untyped⟩).map .ok := by
  rw [parameterResults, split_of_isUntyped h, List.map_map]
  apply List.map_congr_left
  intro p hp
  rw [parameterRecord, h.parameters p hp]
  rfl

theorem errors_of_isUntyped {d : Documented} (h : d.signature.IsUntyped) {e : String}
    (he : e ∈ d.outcome.errors) : e = ShapeError.anonymousFunction.message := by
  have hnone : errorsOf d.parameterResults = [] := by
    rw [parameterResults_of_isUntyped h, errorsOf_map_ok]
  unfold outcome at he
  split at he
  · split at he
    · simpa using he
    · -- with a name the analysis succeeds
      rw [outcomeOfMarked, hnone, result_of_isUntyped h] at he
      cases he
  · cases he

theorem isUntyped_of_accepted {d : Documented} (h : d.signature.IsUntyped) {f : FunctionRecord}
    (hf : d.outcome = .accepted f) : f.IsUntyped := by
  obtain ⟨name, m, _, _, hm, rfl⟩ := of_accepted hf
  rw [result_of_isUntyped h] at hm
  cases hm
  refine ⟨?_, rfl, ?_⟩
  · intro p hp
    rw [parameterResults_of_isUntyped h, oks_map_ok] at hp
    obtain ⟨q, _, rfl⟩ := List.mem_map.mp hp
    rfl
  · rw [split_of_isUntyped h]
    rfl

end Documented

/-! ### The records of a script -/

theorem isRead_of_mem {source path : String} {d : Documented}
    (h : d ∈ topLevelDeclarations source path) : d.IsRead := by
  obtain ⟨x, hx, rfl⟩ := List.mem_map.mp h
  refine ⟨?_, ?_⟩
  · intro name hname
    obtain ⟨ts, r, hts, hr, hsignature⟩ := exists_readSignature_of_mem_topLevel hx
    have hread : r.signature.name = some name := by
      rw [hsignature]
      exact hname
    obtain ⟨t, ht, -, rfl⟩ := exists_token_of_readSignature hr hread
    exact text_ne_empty_of_mem_tokensOf (hts.subset ht)
  · intro b hb
    obtain ⟨raw, _, hraw⟩ := List.mem_filterMap.mp hb
    exact isTrimmed_of_parse? hraw

theorem isUntyped_of_mem {source path : String} (hpath : (Dialect.ofPath path).isTyped = false)
    {d : Documented} (h : d ∈ topLevelDeclarations source path) : d.signature.IsUntyped := by
  obtain ⟨x, hx, rfl⟩ := List.mem_map.mp h
  obtain ⟨ts, r, _, hr, hsignature⟩ := exists_readSignature_of_mem_topLevel hx
  rw [hpath] at hr
  have huntyped := isUntyped_of_readSignature hr
  rw [hsignature] at huntyped
  exact huntyped

theorem exists_accepted_of_mem_functions {source path : String} {f : FunctionRecord}
    (h : f ∈ (extract source path).functions) :
    ∃ d ∈ topLevelDeclarations source path, d.outcome = .accepted f := by
  rw [extract_eq_reportOn, (accounts_reportOn _).functions] at h
  obtain ⟨d, hd, hf⟩ := List.mem_filterMap.mp h
  exact ⟨d, hd, Outcome.eq_accepted_of_record? hf⟩

theorem exists_error_of_mem_errors {source path : String} {e : String}
    (h : e ∈ (extract source path).errors) :
    ∃ d ∈ topLevelDeclarations source path, e ∈ d.outcome.errors := by
  rw [extract_eq_reportOn, (accounts_reportOn _).errors] at h
  exact List.mem_flatMap.mp h

def javaScriptExtensions : List String := ["js", "mjs", "cjs", "jsx"]

theorem isTyped_ofPath {path extension : String} (h : extension ∈ javaScriptExtensions)
    (hpath : Path.extension? path = some extension) : (Dialect.ofPath path).isTyped = false := by
  rw [Dialect.ofPath, hpath]
  simp only [javaScriptExtensions, List.mem_cons, List.not_mem_nil, or_false] at h
  obtain rfl | rfl | rfl | rfl := h <;> rfl

/-- Every record of a report is well formed. In a script without types every value is any scalar,
nothing is streamed, and only a missing name is an error. -/
theorem extract_records_are_well_formed (source path : String) :
    (∀ f ∈ (extract source path).functions, f.IsWellFormed) ∧
      ∀ extension ∈ javaScriptExtensions, Path.extension? path = some extension →
        (∀ f ∈ (extract source path).functions, f.IsUntyped) ∧
          ∀ e ∈ (extract source path).errors, e = ShapeError.anonymousFunction.message := by
  refine ⟨?_, ?_⟩
  · intro f hf
    obtain ⟨d, hd, haccepted⟩ := exists_accepted_of_mem_functions hf
    exact (isRead_of_mem hd).isWellFormed haccepted
  · intro extension hextension hpath
    have htyped := isTyped_ofPath hextension hpath
    refine ⟨?_, ?_⟩
    · intro f hf
      obtain ⟨d, hd, haccepted⟩ := exists_accepted_of_mem_functions hf
      exact Documented.isUntyped_of_accepted (isUntyped_of_mem htyped hd) haccepted
    · intro e he
      obtain ⟨d, hd, herror⟩ := exists_error_of_mem_errors he
      exact Documented.errors_of_isUntyped (isUntyped_of_mem htyped hd) herror

def untypedScript : String :=
  "/** Doubles.\n * @customfunction\n * @param x - The number. */\nfunction double(x) {}\n" ++
    "/** @customfunction */\nexport default function () {}\n"

theorem extract_untypedScript :
    extract untypedScript "functions.js" =
      { functions :=
          [{ name := "double"
             id := "double"
             helpUrl := ""
             description := some "Doubles."
             parameters := [⟨"x", some "The number.", .untyped⟩]
             result := .untyped
             options := {} }]
        errors := [ShapeError.anonymousFunction.message] } := by
  decide +kernel

theorem extract_records_are_well_formed_untypedScript :
    (extract untypedScript "functions.js").functions.length = 1 ∧
      (extract untypedScript "functions.js").errors.length = 1 ∧
      (∀ f ∈ (extract untypedScript "functions.js").functions, f.IsWellFormed ∧ f.IsUntyped) ∧
      ∀ e ∈ (extract untypedScript "functions.js").errors,
        e = ShapeError.anonymousFunction.message := by
  obtain ⟨hwellFormed, hjavaScript⟩ := extract_records_are_well_formed untypedScript "functions.js"
  obtain ⟨huntyped, herrors⟩ := hjavaScript "js" (by decide) (by decide)
  refine ⟨?_, ?_, fun f hf => ⟨hwellFormed f hf, huntyped f hf⟩, herrors⟩
  · rw [extract_untypedScript]
    rfl
  · rw [extract_untypedScript]
    rfl

end ScriptManifest
