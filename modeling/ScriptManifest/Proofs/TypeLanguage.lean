import ScriptManifest.Signature.Mapping

/-!
The language of types that can be registered. `Registrable` lists the annotations of the language
with their mappings, `Rejected` all others with what is wrong with them; an annotation is in exactly
one of the two (`mapping_eq_ok_iff`, `mapping_eq_error_iff`). The three resolvers accept what the
language allows in their place (`resolvers_accept_type_language`).
-/

namespace ScriptManifest

namespace DeclaredType

/-- A predefined type that a value may have, whatever its text. -/
inductive IsElement : DeclaredType → ValueType → Prop
  | number (text : String) : IsElement (.primitive "number" text) .number
  | string (text : String) : IsElement (.primitive "string" text) .string
  | boolean (text : String) : IsElement (.primitive "boolean" text) .boolean

/-- The annotations that can be registered: an element alone is a scalar, and there are three ways
to write a matrix of it. -/
inductive Registrable : DeclaredType → Mapping → Prop
  | scalar {a : DeclaredType} {v : ValueType} (h : IsElement a v) : Registrable a ⟨v, .scalar⟩
  | brackets {a : DeclaredType} {v : ValueType} (h : IsElement a v) (inner outer : String) :
    Registrable (.array (.array a inner) outer) ⟨v, .matrix⟩
  | generic {a : DeclaredType} {v : ValueType} (h : IsElement a v) (text : String) :
    Registrable (.named "Array" [a] text) ⟨v, .matrix⟩
  | nested {a : DeclaredType} {v : ValueType} (h : IsElement a v) (inner outer : String) :
    Registrable (.named "Array" [.named "Array" [a] inner] outer) ⟨v, .matrix⟩

def IsReference (a : DeclaredType) : Prop := ∃ name args text, a = .named name args text

def IsNativeArray (a : DeclaredType) : Prop := ∃ element text, a = .array element text

/-- The reference `Array` with one type argument. -/
def IsGenericArray (a : DeclaredType) : Prop := ∃ element text, a = .named "Array" [element] text

/-- The annotations that cannot be registered, each with the first thing that is wrong with it. -/
inductive Rejected : DeclaredType → ShapeError → Prop
  | reference {name : String} (h : name ≠ "Array") (args : List DeclaredType) (text : String) :
    Rejected (.named name args text) (.invalidType name)
  | argument {a : DeclaredType} (h : IsReference a) (hno : ¬IsGenericArray a) (text : String) :
    Rejected (.named "Array" [a] text) (.invalidTypeArray a.text)
  | row {a : DeclaredType} (h : ¬IsNativeArray a) (text : String) :
    Rejected (.array a text) (.invalidArrayTypeNode a.text)
  | keyword {k : String} (h : ValueType.ofKeyword? k = none) (text : String) :
    Rejected (.primitive k text) .unmappedType
  | other (text : String) : Rejected (.other text) .unmappedType
  /-- The number of type arguments is not one. -/
  | arity {args : List DeclaredType} (h : args.length ≠ 1) (text : String) :
    Rejected (.named "Array" args text) .unmappedType
  | bracketElement {a : DeclaredType} (h : ∀ v, ¬IsElement a v) (inner outer : String) :
    Rejected (.array (.array a inner) outer) .unmappedType
  | genericElement {a : DeclaredType} (hno : ¬IsReference a) (h : ∀ v, ¬IsElement a v)
    (text : String) : Rejected (.named "Array" [a] text) .unmappedType
  | nestedElement {a : DeclaredType} (h : ∀ v, ¬IsElement a v) (inner outer : String) :
    Rejected (.named "Array" [.named "Array" [a] inner] outer) .unmappedType

/-! ### Elements -/

theorem keywordType?_eq_some_iff {a : DeclaredType} {v : ValueType} :
    a.keywordType? = some v ↔ IsElement a v := by
  constructor
  · intro h
    cases a with
    | primitive k text =>
      simp only [keywordType?, ValueType.ofKeyword?] at h
      split at h
      · cases h
        exact .number text
      · cases h
        exact .string text
      · cases h
        exact .boolean text
      · cases h
    | array | named | other => cases h
  · intro h
    cases h <;> rfl

theorem keywordType?_eq_none_iff {a : DeclaredType} :
    a.keywordType? = none ↔ ∀ v, ¬IsElement a v := by
  rw [Option.eq_none_iff_forall_ne_some]
  exact forall_congr' fun v => not_congr keywordType?_eq_some_iff

theorem IsElement.dimensionality {a : DeclaredType} {v : ValueType} (h : IsElement a v) :
    a.dimensionality = .scalar := by
  cases h <;> rfl

theorem IsElement.not_isReference {a : DeclaredType} {v : ValueType} (h : IsElement a v) :
    ¬IsReference a := by
  rintro ⟨name, args, text, rfl⟩
  cases h

theorem IsElement.element? {a : DeclaredType} {v : ValueType} (h : IsElement a v) :
    a.element? = .ok a := by
  cases h <;> rfl

/-! ### The annotation that decides the value type -/

theorem mapping_of_element {a e : DeclaredType} (h : a.element? = .ok e) {v : ValueType}
    (he : IsElement e v) : a.mapping = .ok ⟨v, a.dimensionality⟩ := by
  simp only [mapping, h, keywordType?_eq_some_iff.mpr he]

theorem mapping_of_no_element {a e : DeclaredType} (h : a.element? = .ok e)
    (he : ∀ v, ¬IsElement e v) : a.mapping = .error .unmappedType := by
  simp only [mapping, h, keywordType?_eq_none_iff.mpr he]

theorem mapping_of_error {a : DeclaredType} {e : ShapeError} (h : a.element? = .error e) :
    a.mapping = .error e := by
  simp only [mapping, h]

theorem element?_reference {name : String} (h : name ≠ "Array") (args : List DeclaredType)
    (text : String) : (named name args text).element? = .error (.invalidType name) := by
  have hname : name ≠ arrayName := h
  match args with
  | [] => simp [element?, hname]
  | [.named ..] => simp [element?, hname]
  | [.primitive ..] => simp [element?, hname]
  | [.array ..] => simp [element?, hname]
  | [.other ..] => simp [element?, hname]
  | _ :: _ :: _ => simp [element?, hname]

theorem element?_generic {a : DeclaredType} (h : ¬IsReference a) (text : String) :
    (named "Array" [a] text).element? = .ok a := by
  cases a with
  | named name args inner => exact (h ⟨name, args, inner, rfl⟩).elim
  | primitive | array | other => rfl

theorem element?_nested (a : DeclaredType) (inner outer : String) :
    (named "Array" [.named "Array" [a] inner] outer).element? = .ok a := rfl

theorem singleArray?_eq_none {a : DeclaredType} (h : ¬IsGenericArray a) : a.singleArray? = none := by
  unfold singleArray? onlyArgumentOf?
  split
  · next name e text =>
    split
    · next hname =>
      subst hname
      exact (h ⟨e, text, rfl⟩).elim
    · rfl
  · rfl

theorem element?_argument {a : DeclaredType} (h : IsReference a) (hno : ¬IsGenericArray a)
    (text : String) : (named "Array" [a] text).element? = .error (.invalidTypeArray a.text) := by
  have hsingle := singleArray?_eq_none hno
  obtain ⟨name, args, inner, rfl⟩ := h
  simp [element?, arrayName, hsingle]

theorem element?_arity {args : List DeclaredType} (h : args.length ≠ 1) (text : String) :
    (named "Array" args text).element? = .ok (named "Array" args text) := by
  match args, h with
  | [], _ => rfl
  | [_], h => exact (h rfl).elim
  | _ :: _ :: _, _ => simp [element?, arrayName]

theorem element?_row {a : DeclaredType} (h : ¬IsNativeArray a) (text : String) :
    (array a text).element? = .error (.invalidArrayTypeNode a.text) := by
  cases a with
  | array e inner => exact (h ⟨e, inner, rfl⟩).elim
  | primitive | named | other => rfl

/-! ### Registrable or rejected -/

theorem Registrable.mapping {a : DeclaredType} {m : Mapping} (h : Registrable a m) :
    a.mapping = .ok m := by
  cases h with
  | scalar h => rw [mapping_of_element h.element? h, h.dimensionality]
  | brackets h inner outer => exact mapping_of_element rfl h
  | generic h text => exact mapping_of_element (element?_generic h.not_isReference text) h
  | nested h inner outer => exact mapping_of_element (element?_nested _ inner outer) h

theorem Rejected.mapping {a : DeclaredType} {e : ShapeError} (h : Rejected a e) :
    a.mapping = .error e := by
  cases h with
  | reference h args text => exact mapping_of_error (element?_reference h args text)
  | argument h hno text => exact mapping_of_error (element?_argument h hno text)
  | row h text => exact mapping_of_error (element?_row h text)
  | keyword h text => exact mapping_of_no_element rfl (keywordType?_eq_none_iff.mp h)
  | other text => exact mapping_of_no_element rfl (keywordType?_eq_none_iff.mp rfl)
  | arity h text => exact mapping_of_no_element (element?_arity h text) (keywordType?_eq_none_iff.mp rfl)
  | bracketElement h inner outer => exact mapping_of_no_element rfl h
  | genericElement hno h text => exact mapping_of_no_element (element?_generic hno text) h
  | nestedElement h inner outer => exact mapping_of_no_element (element?_nested _ inner outer) h

theorem registrable_or_rejected (a : DeclaredType) :
    (∃ m, Registrable a m) ∨ ∃ e, Rejected a e := by
  have helement (e : DeclaredType) : (∃ v, IsElement e v) ∨ ∀ v, ¬IsElement e v := by
    rw [← not_exists]
    exact Classical.em _
  cases a with
  | primitive k text =>
    obtain ⟨v, hv⟩ | hno := helement (.primitive k text)
    · exact .inl ⟨_, .scalar hv⟩
    · exact .inr ⟨_, .keyword (keywordType?_eq_none_iff.mpr hno) text⟩
  | other text => exact .inr ⟨_, .other text⟩
  | array inner outer =>
    by_cases hinner : IsNativeArray inner
    · obtain ⟨e, text, rfl⟩ := hinner
      obtain ⟨v, hv⟩ | hno := helement e
      · exact .inl ⟨_, .brackets hv text outer⟩
      · exact .inr ⟨_, .bracketElement hno text outer⟩
    · exact .inr ⟨_, .row hinner outer⟩
  | named name args outer =>
    by_cases hname : name = "Array"
    case neg => exact .inr ⟨_, .reference hname args outer⟩
    subst hname
    by_cases hone : args.length = 1
    case neg => exact .inr ⟨_, .arity hone outer⟩
    obtain ⟨inner, rfl⟩ := List.length_eq_one_iff.mp hone
    by_cases harray : IsGenericArray inner
    · obtain ⟨e, text, rfl⟩ := harray
      obtain ⟨v, hv⟩ | hno := helement e
      · exact .inl ⟨_, .nested hv text outer⟩
      · exact .inr ⟨_, .nestedElement hno text outer⟩
    · by_cases hreference : IsReference inner
      · exact .inr ⟨_, .argument hreference harray outer⟩
      · obtain ⟨v, hv⟩ | hno := helement inner
        · exact .inl ⟨_, .generic hv outer⟩
        · exact .inr ⟨_, .genericElement hreference hno outer⟩

theorem mapping_eq_ok_iff {a : DeclaredType} {m : Mapping} : a.mapping = .ok m ↔ Registrable a m := by
  constructor
  · intro h
    obtain ⟨m', hm⟩ | ⟨e, he⟩ := registrable_or_rejected a
    · rw [hm.mapping] at h
      cases h
      exact hm
    · rw [he.mapping] at h
      cases h
  · exact Registrable.mapping

theorem mapping_eq_error_iff {a : DeclaredType} {e : ShapeError} :
    a.mapping = .error e ↔ Rejected a e := by
  constructor
  · intro h
    obtain ⟨m, hm⟩ | ⟨e', he⟩ := registrable_or_rejected a
    · rw [hm.mapping] at h
      cases h
    · rw [he.mapping] at h
      cases h
      exact he
  · exact Rejected.mapping

/-! ### What is wrong with an annotation -/

theorem rejected_invalidType_iff {a : DeclaredType} {name : String} :
    Rejected a (.invalidType name) ↔ ∃ args text, a = .named name args text ∧ name ≠ "Array" := by
  constructor
  · intro h
    cases h with
    | reference h args text => exact ⟨args, text, rfl, h⟩
  · rintro ⟨args, text, rfl, h⟩
    exact .reference h args text

theorem rejected_invalidTypeArray_iff {a : DeclaredType} {text : String} :
    Rejected a (.invalidTypeArray text) ↔
      ∃ b outer, a = .named "Array" [b] outer ∧ IsReference b ∧ ¬IsGenericArray b ∧ text = b.text := by
  constructor
  · intro h
    cases h with
    | argument h hno outer => exact ⟨_, outer, rfl, h, hno, rfl⟩
  · rintro ⟨b, outer, rfl, h, hno, rfl⟩
    exact .argument h hno outer

theorem rejected_invalidArrayTypeNode_iff {a : DeclaredType} {text : String} :
    Rejected a (.invalidArrayTypeNode text) ↔
      ∃ b outer, a = .array b outer ∧ ¬IsNativeArray b ∧ text = b.text := by
  constructor
  · intro h
    cases h with
    | row h outer => exact ⟨_, outer, rfl, h, rfl⟩
  · rintro ⟨b, outer, rfl, h, rfl⟩
    exact .row h outer

theorem Rejected.unique {a : DeclaredType} {e e' : ShapeError} (h : Rejected a e)
    (h' : Rejected a e') : e = e' := by
  have heq := h.mapping.symm.trans h'.mapping
  cases heq
  rfl

theorem rejected_unmappedType_iff {a : DeclaredType} :
    Rejected a .unmappedType ↔
      (∀ m, ¬Registrable a m) ∧ (∀ name args text, a = .named name args text → name = "Array") ∧
        (∀ b outer, a = .named "Array" [b] outer → IsReference b → IsGenericArray b) ∧
        ∀ b outer, a = .array b outer → IsNativeArray b := by
  constructor
  · intro h
    refine ⟨fun m hm => ?_, ?_, ?_, ?_⟩
    · have heq := h.mapping.symm.trans hm.mapping
      cases heq
    · rintro name args text rfl
      refine Classical.byContradiction fun hname => ?_
      cases h.unique (.reference hname args text)
    · rintro b outer rfl href
      refine Classical.byContradiction fun hno => ?_
      cases h.unique (.argument href hno outer)
    · rintro b outer rfl
      refine Classical.byContradiction fun hno => ?_
      cases h.unique (.row hno outer)
  · rintro ⟨hm, hname, hargument, hrow⟩
    obtain ⟨m, h⟩ | ⟨e, h⟩ := registrable_or_rejected a
    · exact (hm m h).elim
    · cases h with
      | reference h args text => exact (h (hname _ args text rfl)).elim
      | argument h hno text => exact (hno (hargument _ text rfl h)).elim
      | row h text => exact (h (hrow _ text rfl)).elim
      | keyword h text => exact .keyword h text
      | other text => exact .other text
      | arity h text => exact .arity h text
      | bracketElement h inner outer => exact .bracketElement h inner outer
      | genericElement hno h text => exact .genericElement hno h text
      | nestedElement h inner outer => exact .nestedElement h inner outer

/-! ### Results -/

theorem async?_eq_some_iff {a b : DeclaredType} :
    a.async? = some b ↔ ∃ text, a = .named "Promise" [b] text := by
  constructor
  · intro h
    unfold async? onlyArgumentOf? at h
    split at h
    · next name arg text =>
      split at h
      · next hname =>
        cases h
        exact ⟨text, by rw [hname]; rfl⟩
      · cases h
    · cases h
  · rintro ⟨text, rfl⟩
    rfl

theorem Registrable.async? {a : DeclaredType} {m : Mapping} (h : Registrable a m) :
    a.async? = none := by
  cases h with
  | scalar h => cases h <;> rfl
  | brackets | generic | nested => rfl

end DeclaredType

open DeclaredType

theorem resolveReturn_eq_ok_iff {a : DeclaredType} {m : Mapping} :
    resolveReturn (some a) = .ok m ↔
      Registrable a m ∨ ∃ b text, a = .named "Promise" [b] text ∧ Registrable b m := by
  cases hasync : a.async? with
  | none =>
    have hno : ¬∃ b text, a = .named "Promise" [b] text ∧ Registrable b m := by
      rintro ⟨b, text, rfl, -⟩
      cases hasync
    simp only [resolveReturn, hasync, Option.getD_none, mapping_eq_ok_iff, hno, or_false]
  | some b =>
    obtain ⟨text, rfl⟩ := async?_eq_some_iff.mp hasync
    have hno : ¬Registrable (.named "Promise" [b] text) m := fun h => by simp [h.async?] at hasync
    simp only [resolveReturn, hasync, Option.getD_some, mapping_eq_ok_iff, hno, false_or]
    constructor
    · intro h
      exact ⟨b, text, rfl, h⟩
    · rintro ⟨c, text', heq, h⟩
      cases heq
      exact h

theorem any_not_isVoid_eq_false_iff {declared : Option DeclaredType} :
    declared.any (!·.isVoid) = false ↔
      ∀ r ∈ declared, Text.trim r.text.toList = "void".toList := by
  cases declared with
  | none => simp
  | some r => simp [isVoid]

theorem resolveStreaming_eq_ok_iff {handler : DeclaredType} {declared : Option DeclaredType}
    {m : Mapping} :
    resolveStreaming handler declared = .ok m ↔
      (∃ b, handler.typeArguments = [b] ∧ Registrable b m) ∧
        ∀ r ∈ declared, Text.trim r.text.toList = "void".toList := by
  rw [← any_not_isVoid_eq_false_iff]
  unfold resolveStreaming
  split
  · next b hargs =>
    cases hvoid : declared.any (!·.isVoid) with
    | true => simp
    | false => simp [hargs, mapping_eq_ok_iff]
  · next hargs =>
    have hno : ¬∃ b, handler.typeArguments = [b] ∧ Registrable b m := by
      rintro ⟨b, hb, -⟩
      exact hargs b hb
    simp [hno]

/-- The resolvers accept exactly the language of types, and say what is wrong with anything else. -/
theorem resolvers_accept_type_language (a : DeclaredType) :
    (∀ m, resolveType (some a) = .ok m ↔ Registrable a m) ∧
      (∀ m, resolveReturn (some a) = .ok m ↔
        Registrable a m ∨ ∃ b text, a = .named "Promise" [b] text ∧ Registrable b m) ∧
      (∀ declared m, resolveStreaming a declared = .ok m ↔
        (∃ b, a.typeArguments = [b] ∧ Registrable b m) ∧
          ∀ r ∈ declared, Text.trim r.text.toList = "void".toList) ∧
      (∀ name, resolveType (some a) = .error (.invalidType name) ↔
        ∃ args text, a = .named name args text ∧ name ≠ "Array") ∧
      (∀ text, resolveType (some a) = .error (.invalidTypeArray text) ↔
        ∃ b outer, a = .named "Array" [b] outer ∧ IsReference b ∧ ¬IsGenericArray b ∧
          text = b.text) ∧
      (∀ text, resolveType (some a) = .error (.invalidArrayTypeNode text) ↔
        ∃ b outer, a = .array b outer ∧ ¬IsNativeArray b ∧ text = b.text) ∧
      (resolveType (some a) = .error .unmappedType ↔
        (∀ m, ¬Registrable a m) ∧ (∀ name args text, a = .named name args text → name = "Array") ∧
          (∀ b outer, a = .named "Array" [b] outer → IsReference b → IsGenericArray b) ∧
          ∀ b outer, a = .array b outer → IsNativeArray b) := by
  refine ⟨fun m => mapping_eq_ok_iff, fun m => resolveReturn_eq_ok_iff,
    fun declared m => resolveStreaming_eq_ok_iff, fun name => ?_, fun text => ?_, fun text => ?_, ?_⟩
  · exact mapping_eq_error_iff.trans rejected_invalidType_iff
  · exact mapping_eq_error_iff.trans rejected_invalidTypeArray_iff
  · exact mapping_eq_error_iff.trans rejected_invalidArrayTypeNode_iff
  · exact mapping_eq_error_iff.trans rejected_unmappedType_iff

end ScriptManifest
