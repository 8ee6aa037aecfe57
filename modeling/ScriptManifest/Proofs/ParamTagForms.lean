import ScriptManifest.Doc.ParamTag
import ScriptManifest.Proofs.BlockRoundTrip

/-!
The forms of a parameter's tag. A text in one of the forms `{type} name comment`,
`name {type} comment`, `{type} [name] comment` and `{type} [name=default] comment`, with any blanks
between its parts, is read as its name and its comment, and a text is refused if and only if no name
stands behind its type (`param_forms_are_read`).
-/

namespace ScriptManifest.Doc

open Text

/-! ### Type expressions -/

/-- Texts whose braces match. -/
inductive Nested : List Char → Prop
  | nil : Nested []
  | char {c : Char} {s : List Char} (hopen : c ≠ '{') (hclose : c ≠ '}') (h : Nested s) :
      Nested (c :: s)
  | braces {s t : List Char} (hs : Nested s) (ht : Nested t) : Nested ('{' :: (s ++ '}' :: t))

/-- Braces around a text whose own braces match, so that only the last character closes the first. -/
def IsTypeExpression (type : List Char) : Prop :=
  ∃ inner, Nested inner ∧ type = '{' :: (inner ++ ['}'])

theorem afterBraces_of_ne {c : Char} (hopen : c ≠ '{') (hclose : c ≠ '}') (depth : Nat)
    (rest : List Char) : afterBraces depth (c :: rest) = afterBraces depth rest := by
  simp [afterBraces, hclose]

theorem Nested.afterBraces {s : List Char} (h : Nested s) (depth : Nat) (rest : List Char) :
    Doc.afterBraces depth (s ++ rest) = Doc.afterBraces depth rest := by
  induction h generalizing depth rest with
  | nil => rfl
  | char hopen hclose _ ih => rw [List.cons_append, afterBraces_of_ne hopen hclose, ih]
  | braces _ _ ihs iht =>
    rw [List.cons_append, List.append_assoc, List.cons_append, Doc.afterBraces, ihs, Doc.afterBraces,
      iht]

theorem nested_or_unclosed (text : List Char) :
    (∃ s rest, Nested s ∧ text = s ++ '}' :: rest) ∨ ∀ depth, afterBraces depth text = [] := by
  -- a closing brace ends the text in front of it, so the induction needs all shorter texts
  induction hlength : text.length using Nat.strong_induction_on generalizing text with
  | _ n ih =>
    subst hlength
    cases text with
    | nil => exact .inr fun depth => by cases depth <;> rfl
    | cons c cs =>
      have hcs := ih cs.length (by simp) cs rfl
      by_cases hopen : c = '{'
      · subst hopen
        obtain ⟨s, rest, hs, rfl⟩ | hunclosed := hcs
        · obtain ⟨t, rest', ht, rfl⟩ | hunclosed := ih rest.length (by simp; omega) rest rfl
          · exact .inl ⟨_, rest', .braces hs ht, by simp⟩
          · refine .inr fun depth => ?_
            rw [afterBraces, hs.afterBraces, afterBraces, hunclosed]
        · exact .inr fun depth => by rw [afterBraces, hunclosed]
      · by_cases hclose : c = '}'
        · exact .inl ⟨[], cs, .nil, by rw [hclose]; rfl⟩
        · obtain ⟨s, rest, hs, rfl⟩ | hunclosed := hcs
          · exact .inl ⟨_, rest, .char hopen hclose hs, rfl⟩
          · exact .inr fun depth => by rw [afterBraces_of_ne hopen hclose, hunclosed]

theorem IsTypeExpression.skipType {type : List Char} (h : IsTypeExpression type) (rest : List Char) :
    Doc.skipType (type ++ rest) = trimStart rest := by
  obtain ⟨inner, hinner, rfl⟩ := h
  rw [List.cons_append, List.append_assoc, Doc.skipType, hinner.afterBraces]
  rfl

theorem skipType_of_head? {cs : List Char} (h : cs.head? ≠ some '{') : skipType cs = cs := by
  unfold skipType
  split
  · next heq => simp at h
  · rfl

/-! ### Parts set apart by blanks -/

/-- Parts of a text in their order, with blanks between any two of them that are not empty. -/
inductive Spaced : List (List Char) → List Char → Prop
  | done {gap : List Char} (hgap : ∀ c ∈ gap, isBlank c = true) : Spaced [] gap
  | skip {parts : List (List Char)} {text : List Char} (h : Spaced parts text) :
      Spaced ([] :: parts) text
  | part {gap part text : List Char} {parts : List (List Char)}
      (hgap : ∀ c ∈ gap, isBlank c = true) (hpart : part ≠ [])
      (hnext : ∀ c ∈ text.head?, isBlank c = true) (h : Spaced parts text) :
      Spaced (part :: parts) (gap ++ part ++ text)

namespace Spaced

variable {part text : List Char} {parts : List (List Char)}

theorem tail_of_empty (h : Spaced ([] :: parts) text) : Spaced parts text := by
  cases h with
  | skip h => exact h
  | part _ hpart _ _ => exact (hpart rfl).elim

theorem insert_empty (front : List (List Char)) {back : List (List Char)} (h : Spaced (front ++ back) text) :
    Spaced (front ++ [] :: back) text := by
  induction front generalizing text with
  | nil => exact .skip h
  | cons part front ih =>
    cases h with
    | skip h => exact .skip (ih h)
    | part hgap hpart hnext h => exact .part hgap hpart hnext (ih h)

theorem exists_trimStart (h : Spaced (part :: parts) text) (hne : part ≠ [])
    (hstart : ∀ c ∈ part.head?, isBlank c = false) :
    ∃ rest, Spaced parts rest ∧ (∀ c ∈ rest.head?, isBlank c = true) ∧
      trimStart text = part ++ rest := by
  cases h with
  | skip => exact (hne rfl).elim
  | part hgap _ hnext h =>
    refine ⟨_, h, hnext, ?_⟩
    obtain ⟨c, cs, rfl⟩ := List.exists_cons_of_ne_nil hne
    rw [List.append_assoc, List.cons_append, trimStart_of_gap hgap (hstart c (by simp))]

theorem head?_trimStart (h : Spaced [part] text)
    (hstart : ∀ c ∈ part.head?, isBlank c = false) : (trimStart text).head? = part.head? := by
  by_cases hpart : part = []
  · subst hpart
    cases h.tail_of_empty with
    | done hgap => rw [trimStart_of_blank hgap]
  · obtain ⟨rest, -, -, htrim⟩ := h.exists_trimStart hpart hstart
    obtain ⟨c, cs, rfl⟩ := List.exists_cons_of_ne_nil hpart
    rw [htrim]
    rfl

theorem exists_skipType (h : Spaced (part :: parts) text) (htype : part = [] ∨ IsTypeExpression part)
    (hstart : part = [] → (trimStart text).head? ≠ some '{') :
    ∃ rest, Spaced parts rest ∧ skipType (trimStart text) = trimStart rest := by
  obtain rfl | htype := htype
  · exact ⟨text, h.tail_of_empty, skipType_of_head? (hstart rfl)⟩
  · obtain ⟨inner, -, hinner⟩ := id htype
    obtain ⟨rest, hrest, -, htrim⟩ := h.exists_trimStart (by simp [hinner]) (by simp [hinner, isBlank])
    exact ⟨rest, hrest, by rw [htrim, htype.skipType]⟩

theorem trim_eq (h : Spaced [part] text) (htrim : trim part = part) : trim text = part := by
  cases h with
  | skip h =>
    cases h with
    | done hgap => rw [trim, trimStart_of_blank hgap, trimEnd_of_blank (by simp)]
  | part hgap _ _ h =>
    cases h with
    | done hend => rw [trim_append_of_blank _ hend, trim_blank_append hgap, htrim]

end Spaced

/-! ### Names -/

/-- A name that can be told from a type and from a bracket. -/
structure IsParamName (name : List Char) : Prop where
  nonempty : name ≠ []
  noBlank : ∀ c ∈ name, isBlank c = false
  noType : name.head? ≠ some '{'
  noBracket : name.head? ≠ some '['

/-- The ways to write a name: by itself, in brackets, and in brackets with a default. -/
inductive NamePart (name : List Char) : List Char → Prop
  | plain : NamePart name name
  | bracketed {left right : List Char} (hname : '=' ∉ name ∧ ']' ∉ name)
      (hleft : ∀ c ∈ left, isBlank c = true) (hright : ∀ c ∈ right, isBlank c = true) :
      NamePart name ('[' :: (left ++ name ++ right ++ [']']))
  | defaulted {left right default : List Char} (hname : '=' ∉ name ∧ ']' ∉ name)
      (hleft : ∀ c ∈ left, isBlank c = true) (hright : ∀ c ∈ right, isBlank c = true)
      (hdefault : ']' ∉ default) :
      NamePart name ('[' :: (left ++ name ++ right ++ '=' :: (default ++ [']'])))

theorem splitAtFirst_of_head? {p : Char → Bool} {s t : List Char} (hs : ∀ c ∈ s, p c = false)
    (ht : ∀ c ∈ t.head?, p c = true) : splitAtFirst p (s ++ t) = (s, t) := by
  have hs' : ∀ c ∈ s, (!p c) = true := fun c hc => by simp [hs c hc]
  rw [splitAtFirst, List.takeWhile_append_of_pos hs', List.dropWhile_append_of_pos hs']
  cases t with
  | nil => simp
  | cons c t => simp [ht c (by simp)]

theorem nameAndRest?_of_head? {cs : List Char} (h : cs.head? ≠ some '[') :
    nameAndRest? cs = some (splitAtFirst isBlank cs) := by
  unfold nameAndRest?
  split
  · simp at h
  · rfl

theorem beq_eq_false_of_not_mem {x : Char} {s : List Char} (h : x ∉ s) : ∀ c ∈ s, (c == x) = false := by
  intro c hc
  rw [beq_eq_false_iff_ne]
  rintro rfl
  exact h hc

theorem nameAndRest?_bracket {inner : List Char} (hinner : ']' ∉ inner) (rest : List Char) :
    nameAndRest? ('[' :: (inner ++ ']' :: rest)) =
      some (trim (splitAtFirst (· == '=') inner).1, rest) := by
  have hsplit : splitAtFirst (· == ']') (inner ++ ']' :: rest) = (inner, ']' :: rest) :=
    splitAtFirst_of_head? (beq_eq_false_of_not_mem hinner) (by simp)
  rw [nameAndRest?, hsplit]

theorem trim_of_noBlank {s : List Char} (h : ∀ c ∈ s, isBlank c = false) : trim s = s := by
  have hstart : trimStart s = s := by
    cases s with
    | nil => rfl
    | cons c s => simp [trimStart, h c (by simp)]
  rw [trim, hstart, trimEnd_eq_self_iff]
  exact fun c hc => h c (List.mem_of_getLast? hc)

theorem not_mem_of_blank {gap : List Char} (hgap : ∀ c ∈ gap, isBlank c = true) {c : Char}
    (hc : isBlank c = false) : c ∉ gap := by
  intro hmem
  rw [hgap c hmem] at hc
  cases hc

theorem trim_splitAtFirst_bracket {left name right : List Char} (tail : List Char)
    (hleft : ∀ c ∈ left, isBlank c = true) (hright : ∀ c ∈ right, isBlank c = true)
    (hname : ∀ c ∈ name, isBlank c = false) (hfree : '=' ∉ name) (htail : ∀ c ∈ tail.head?, c = '=') :
    trim (splitAtFirst (· == '=') (left ++ name ++ right ++ tail)).1 = name := by
  have hequals : '=' ∉ left ++ name ++ right := by
    simp [hfree, not_mem_of_blank hleft, not_mem_of_blank hright, isBlank]
  rw [splitAtFirst_of_head? (beq_eq_false_of_not_mem hequals) (by simpa using htail),
    trim_append_of_blank _ hright, trim_blank_append hleft, trim_of_noBlank hname]

theorem trim_splitAtFirst_blank {gap : List Char} (tail : List Char)
    (hgap : ∀ c ∈ gap, isBlank c = true) (htail : ∀ c ∈ tail.head?, c = '=') :
    trim (splitAtFirst (· == '=') (gap ++ tail)).1 = [] := by
  simpa using @trim_splitAtFirst_bracket gap [] [] tail hgap (by simp) (by simp) (by simp) htail

theorem NamePart.nameAndRest? {name part : List Char} (h : NamePart name part)
    (hname : IsParamName name) {rest : List Char} (hrest : ∀ c ∈ rest.head?, isBlank c = true) :
    Doc.nameAndRest? (part ++ rest) = some (name, rest) := by
  cases h with
  | plain =>
    rw [nameAndRest?_of_head?, splitAtFirst_of_head? hname.noBlank hrest]
    obtain ⟨c, cs, rfl⟩ := List.exists_cons_of_ne_nil hname.nonempty
    exact hname.noBracket
  | @bracketed left right hfree hleft hright =>
    have hclose : ']' ∉ left ++ name ++ right := by
      simp [hfree.2, not_mem_of_blank hleft, not_mem_of_blank hright, isBlank]
    have hread := trim_splitAtFirst_bracket [] hleft hright hname.noBlank hfree.1 (by simp)
    rw [List.append_nil] at hread
    rw [List.cons_append, List.append_assoc, List.singleton_append, nameAndRest?_bracket hclose, hread]
  | @defaulted left right default hfree hleft hright hdefault =>
    have hclose : ']' ∉ left ++ name ++ right ++ '=' :: default := by
      simp [hfree.2, hdefault, not_mem_of_blank hleft, not_mem_of_blank hright, isBlank]
    have hread := trim_splitAtFirst_bracket ('=' :: default) hleft hright hname.noBlank hfree.1 (by simp)
    have hsplit : '[' :: (left ++ name ++ right ++ '=' :: (default ++ [']'])) ++ rest =
        '[' :: ((left ++ name ++ right ++ '=' :: default) ++ ']' :: rest) := by simp
    rw [hsplit, nameAndRest?_bracket hclose, hread]

theorem NamePart.exists_cons {name part : List Char} (h : NamePart name part)
    (hname : IsParamName name) : ∃ c cs, part = c :: cs ∧ isBlank c = false ∧ c ≠ '{' := by
  cases h with
  | plain =>
    obtain ⟨c, cs, rfl⟩ := List.exists_cons_of_ne_nil hname.nonempty
    exact ⟨c, cs, rfl, hname.noBlank c (by simp), by simpa using hname.noType⟩
  | bracketed => exact ⟨'[', _, rfl, by decide, by decide⟩
  | defaulted => exact ⟨'[', _, rfl, by decide, by decide⟩

/-! ### Reading the forms -/

/-- A trimmed text, or none at all, that can be told from a type. -/
structure IsParamComment (comment : List Char) : Prop where
  trimmed : trim comment = comment
  noType : comment.head? ≠ some '{'

/-- The forms of a parameter's tag: the type in front of the name, however that is written, or behind
a name that stands by itself. -/
inductive ParamForm (name type comment : List Char) : List Char → Prop
  | typeFirst {part text : List Char} (hpart : NamePart name part)
      (h : Spaced [type, part, comment] text) : ParamForm name type comment text
  | nameFirst {text : List Char} (h : Spaced [name, type, comment] text) :
      ParamForm name type comment text

theorem IsParamComment.head? {comment : List Char} (h : IsParamComment comment) :
    ∀ c ∈ comment.head?, isBlank c = false := by
  have htrim := h.trimmed
  cases comment with
  | nil => simp
  | cons c cs => simpa using isBlank_head_of_trim_eq htrim

theorem parse?_eq_some {text : String} {name rest : List Char} (hne : name ≠ [])
    (h : nameAndRest? (skipType (trimStart text.toList)) = some (name, rest)) :
    ParamTag.parse? text =
      some ⟨String.ofList name, nonempty? (trim (skipType (trimStart rest)))⟩ := by
  rw [ParamTag.parse?, h]
  cases name with
  | nil => exact (hne rfl).elim
  | cons c cs => rfl

theorem Spaced.comment_eq {type comment rest : List Char} (h : Spaced [type, comment] rest)
    (htype : type = [] ∨ IsTypeExpression type) (hcomment : IsParamComment comment) :
    trim (skipType (trimStart rest)) = comment := by
  have hstart : type = [] → (trimStart rest).head? ≠ some '{' := by
    rintro rfl
    rw [h.tail_of_empty.head?_trimStart hcomment.head?]
    exact hcomment.noType
  obtain ⟨last, hlast, hskip⟩ := h.exists_skipType htype hstart
  have htrim : trim (trimStart last) = trim last := by
    rw [trim, trimStart, trimStart, List.dropWhile_idempotent]
    rfl
  rw [hskip, htrim, hlast.trim_eq hcomment.trimmed]

theorem parse?_of_spaced {name comment part type₁ type₂ : List Char} {text : String}
    (hname : IsParamName name) (hcomment : IsParamComment comment) (hpart : NamePart name part)
    (htype₁ : type₁ = [] ∨ IsTypeExpression type₁) (htype₂ : type₂ = [] ∨ IsTypeExpression type₂)
    (h : Spaced [type₁, part, type₂, comment] text.toList) :
    ParamTag.parse? text = some ⟨String.ofList name, nonempty? comment⟩ := by
  obtain ⟨c, cs, hcons, hblank, hbrace⟩ := hpart.exists_cons hname
  have hne : part ≠ [] := by simp [hcons]
  have hhead : ∀ x ∈ part.head?, isBlank x = false := by simpa [hcons] using hblank
  have hstart : type₁ = [] → (trimStart text.toList).head? ≠ some '{' := by
    rintro rfl
    obtain ⟨rest, -, -, htrim⟩ := h.tail_of_empty.exists_trimStart hne hhead
    simpa [htrim, hcons] using hbrace
  obtain ⟨behindType, hparts, hskip⟩ := h.exists_skipType htype₁ hstart
  obtain ⟨behindName, hrest, hnext, htrim⟩ := hparts.exists_trimStart hne hhead
  have hread := hpart.nameAndRest? hname hnext
  rw [← htrim, ← hskip] at hread
  rw [parse?_eq_some hname.nonempty hread, hrest.comment_eq htype₂ hcomment]

theorem ParamForm.parse? {name type comment : List Char} {text : String}
    (hname : IsParamName name) (htype : type = [] ∨ IsTypeExpression type)
    (hcomment : IsParamComment comment) (h : ParamForm name type comment text.toList) :
    ParamTag.parse? text = some ⟨String.ofList name, nonempty? comment⟩ := by
  -- both forms have room for two types, one of which is empty
  cases h with
  | @typeFirst part _ hpart h =>
    exact parse?_of_spaced hname hcomment hpart htype (.inl rfl) (h.insert_empty [type, part])
  | nameFirst h => exact parse?_of_spaced hname hcomment .plain (.inl rfl) htype (.skip h)

/-! ### Texts without a name -/

/-- What stands behind the optional type at the front of a text. A type that is never closed takes
all the text. -/
inductive BehindType : List Char → List Char → Prop
  | untyped {gap rest : List Char} (hgap : ∀ c ∈ gap, isBlank c = true)
      (hrest : ∀ c ∈ rest.head?, isBlank c = false ∧ c ≠ '{') : BehindType (gap ++ rest) rest
  | typed {gap type between rest : List Char} (hgap : ∀ c ∈ gap, isBlank c = true)
      (htype : IsTypeExpression type) (hbetween : ∀ c ∈ between, isBlank c = true)
      (hrest : ∀ c ∈ rest.head?, isBlank c = false) :
      BehindType (gap ++ (type ++ (between ++ rest))) rest
  | unclosed {gap inner : List Char} (hgap : ∀ c ∈ gap, isBlank c = true)
      (hinner : ∀ s rest, Nested s → inner ≠ s ++ '}' :: rest) : BehindType (gap ++ '{' :: inner) []

/-- Nothing, a bracket that is not closed, or a bracket with a blank name. -/
inductive LacksName : List Char → Prop
  | empty : LacksName []
  | unclosed {inner : List Char} (h : ']' ∉ inner) : LacksName ('[' :: inner)
  | blank {gap after : List Char} (hgap : ∀ c ∈ gap, isBlank c = true) :
      LacksName ('[' :: (gap ++ ']' :: after))
  | blankDefault {gap default after : List Char} (hgap : ∀ c ∈ gap, isBlank c = true)
      (hdefault : ']' ∉ default) : LacksName ('[' :: (gap ++ '=' :: (default ++ ']' :: after)))

theorem trimStart_of_head? {gap rest : List Char} (hgap : ∀ c ∈ gap, isBlank c = true)
    (hrest : ∀ c ∈ rest.head?, isBlank c = false) : trimStart (gap ++ rest) = rest := by
  cases rest with
  | nil => rw [List.append_nil, trimStart_of_blank hgap]
  | cons c rest => rw [trimStart_of_gap hgap (hrest c (by simp))]

theorem BehindType.skipType_eq {text rest : List Char} (h : BehindType text rest) :
    skipType (trimStart text) = rest := by
  have hbrace : isBlank '{' = false := by decide
  cases h with
  | untyped hgap hrest =>
    rw [trimStart_of_head? hgap fun c hc => (hrest c hc).1]
    exact skipType_of_head? fun hhead => (hrest '{' hhead).2 rfl
  | typed hgap htype hbetween hrest =>
    obtain ⟨inner, -, hinner⟩ := id htype
    rw [trimStart_of_head? hgap (by simp [hinner, hbrace]), htype.skipType,
      trimStart_of_head? hbetween hrest]
  | @unclosed gap inner hgap hinner =>
    obtain ⟨s, rest, hs, hsplit⟩ | hunclosed := nested_or_unclosed inner
    · exact (hinner s rest hs hsplit).elim
    · rw [trimStart_of_gap hgap hbrace, skipType, hunclosed]

theorem exists_behindType (text : List Char) : ∃ rest, BehindType text rest := by
  obtain hblank | ⟨gap, c, tail, rfl, hgap, hc⟩ := blank_or_exists text
  · exact ⟨[], by simpa using @BehindType.untyped text [] hblank (by simp)⟩
  · by_cases hopen : c = '{'
    · subst hopen
      by_cases hclosed : ∃ s rest, Nested s ∧ tail = s ++ '}' :: rest
      · obtain ⟨s, rest, hs, rfl⟩ := hclosed
        have hsplit : gap ++ '{' :: (s ++ '}' :: rest) =
            gap ++ (('{' :: (s ++ ['}'])) ++ (rest.takeWhile isBlank ++ trimStart rest)) := by
          simp [trimStart, List.takeWhile_append_dropWhile]
        rw [hsplit]
        exact ⟨_, .typed hgap ⟨s, hs, rfl⟩ (fun c hc => List.mem_takeWhile_imp hc)
          fun c hc => isBlank_of_mem_head?_dropWhile hc⟩
      · exact ⟨[], .unclosed hgap fun s rest hs heq => hclosed ⟨s, rest, hs, heq⟩⟩
    · exact ⟨c :: tail, .untyped hgap (by simpa using ⟨hc, hopen⟩)⟩

theorem BehindType.head? {text rest : List Char} (h : BehindType text rest) :
    ∀ c ∈ rest.head?, isBlank c = false := by
  cases h with
  | untyped _ hrest => exact fun c hc => (hrest c hc).1
  | typed _ _ _ hrest => exact hrest
  | unclosed => simp

theorem parse?_eq_none_iff {text : String} :
    ParamTag.parse? text = none ↔
      nameAndRest? (skipType (trimStart text.toList)) = none ∨
        ∃ rest, nameAndRest? (skipType (trimStart text.toList)) = some ([], rest) := by
  rw [ParamTag.parse?]
  split
  · next h => simp [h]
  · next rest h => simp [h]
  · next name rest hname h =>
    simp only [h, reduceCtorEq, Option.some.injEq, Prod.mk.injEq, exists_and_left, exists_eq',
      and_true, false_or, false_iff]
    exact hname

theorem blank_of_trim_eq_nil {s : List Char} (h : trim s = []) : ∀ c ∈ s, isBlank c = true := by
  obtain hblank | ⟨gap, c, t, rfl, hgap, hc⟩ := blank_or_exists s
  · exact hblank
  · rw [trim_of_gap hgap hc] at h
    cases h

theorem splitAtFirst_fst_append_snd (p : Char → Bool) (s : List Char) :
    (splitAtFirst p s).1 ++ (splitAtFirst p s).2 = s := List.takeWhile_append_dropWhile

theorem LacksName.nameAndRest? {rest : List Char} (h : LacksName rest) :
    Doc.nameAndRest? rest = none ∨ ∃ after, Doc.nameAndRest? rest = some ([], after) := by
  cases h with
  | empty => exact .inr ⟨[], rfl⟩
  | @unclosed inner h =>
    have hsplit : splitAtFirst (· == ']') (inner ++ []) = (inner, []) :=
      splitAtFirst_of_head? (beq_eq_false_of_not_mem h) (by simp)
    rw [List.append_nil] at hsplit
    exact .inl (by rw [Doc.nameAndRest?, hsplit])
  | @blank gap after hgap =>
    have hread := trim_splitAtFirst_blank [] hgap (by simp)
    have hclose := not_mem_of_blank hgap (by decide : isBlank ']' = false)
    rw [List.append_nil] at hread
    exact .inr ⟨after, by rw [nameAndRest?_bracket hclose, hread]⟩
  | @blankDefault gap default after hgap hdefault =>
    have hread := trim_splitAtFirst_blank ('=' :: default) hgap (by simp)
    have hclose : ']' ∉ gap ++ '=' :: default := by
      simp [not_mem_of_blank hgap, hdefault, isBlank]
    have hsplit : gap ++ '=' :: (default ++ ']' :: after) =
        (gap ++ '=' :: default) ++ ']' :: after := by simp
    exact .inr ⟨after, by rw [hsplit, nameAndRest?_bracket hclose, hread]⟩

theorem lacksName_bracket {inner : List Char} (hclose : ']' ∉ inner) (after : List Char)
    (h : trim (splitAtFirst (· == '=') inner).1 = []) :
    LacksName ('[' :: (inner ++ ']' :: after)) := by
  have hsplit := splitAtFirst_fst_append_snd (· == '=') inner
  have hblank := blank_of_trim_eq_nil h
  cases hback : (splitAtFirst (· == '=') inner).2 with
  | nil =>
    rw [hback, List.append_nil] at hsplit
    rw [hsplit] at hblank
    exact .blank hblank
  | cons c default =>
    have hc : c = '=' := by
      have hstop := List.head?_dropWhile_not (fun c => !(c == '=')) inner
      rw [show inner.dropWhile _ = c :: default from hback] at hstop
      simpa using hstop
    rw [hback, hc] at hsplit
    rw [← hsplit] at hclose ⊢
    rw [List.append_assoc, List.cons_append]
    rw [List.mem_append, List.mem_cons, not_or, not_or] at hclose
    exact .blankDefault hblank hclose.2.2

theorem lacksName_of_nameAndRest? {rest : List Char} (hhead : ∀ c ∈ rest.head?, isBlank c = false)
    (h : nameAndRest? rest = none ∨ ∃ after, nameAndRest? rest = some ([], after)) :
    LacksName rest := by
  cases rest with
  | nil => exact .empty
  | cons c cs =>
    by_cases hc : c = '['
    · subst hc
      by_cases hclose : ']' ∈ cs
      · obtain ⟨inner, after, rfl, hinner⟩ := List.eq_append_cons_of_mem hclose
        rw [nameAndRest?_bracket hinner] at h
        refine lacksName_bracket hinner after ?_
        simpa using h
      · exact .unclosed hclose
    · -- a name that does not stand in a bracket has at least one character
      rw [nameAndRest?_of_head? (by simpa using hc)] at h
      simp [splitAtFirst, hhead c (by simp)] at h

theorem parse?_eq_none_iff_lacksName {text : String} :
    ParamTag.parse? text = none ↔ ∃ rest, BehindType text.toList rest ∧ LacksName rest := by
  rw [parse?_eq_none_iff]
  constructor
  · intro h
    obtain ⟨rest, hrest⟩ := exists_behindType text.toList
    rw [hrest.skipType_eq] at h
    exact ⟨rest, hrest, lacksName_of_nameAndRest? hrest.head? h⟩
  · rintro ⟨rest, hrest, hlacks⟩
    rw [hrest.skipType_eq]
    exact hlacks.nameAndRest?

/-- The forms of a parameter's tag are read as the name and the comment that they are made of, and a
text is refused if and only if what stands behind its type is empty, a bracket that is not closed or
a bracket with a blank name. -/
theorem param_forms_are_read :
    (∀ (name comment text : String) (type : List Char), IsParamName name.toList →
      (type = [] ∨ IsTypeExpression type) → IsParamComment comment.toList →
      ParamForm name.toList type comment.toList text.toList →
      ParamTag.parse? text = some ⟨name, if comment = "" then none else some comment⟩) ∧
    ∀ text : String, ParamTag.parse? text = none ↔
      ∃ rest, BehindType text.toList rest ∧ LacksName rest := by
  refine ⟨fun name comment text type hname htype hcomment hform => ?_,
    fun text => parse?_eq_none_iff_lacksName⟩
  rw [hform.parse? hname htype hcomment]
  simp [nonempty?]

/-- A nested type on a line of its own, a default and a comment; and a bracket with a default but no
name. -/
theorem param_forms_are_read_defaulted :
    ParamTag.parse? "\x7b\x7ba\x7d\x7d\n[ n =[]  - sum" = some ⟨"n", some "- sum"⟩ ∧
    ParamTag.parse? "\x7ba\x7d [ =0]" = none := by
  have hname : IsParamName ['n'] := ⟨by decide, by simp [isBlank], by decide, by decide⟩
  have hcomment : IsParamComment "- sum".toList := ⟨by decide, by decide⟩
  have ha : Nested ['a'] := .char (by decide) (by decide) .nil
  have hgap : ∀ c ∈ [' '], isBlank c = true := by simp [isBlank]
  have hpart : NamePart ['n'] "[ n =[]".toList :=
    @NamePart.defaulted _ [' '] [' '] ['['] (by decide) hgap hgap (by decide)
  have hspaced : Spaced ["\x7b\x7ba\x7d\x7d".toList, "[ n =[]".toList, "- sum".toList]
      "\x7b\x7ba\x7d\x7d\n[ n =[]  - sum".toList :=
    @Spaced.part [] _ "\n[ n =[]  - sum".toList _ (by simp) (by decide) (by simp [isBlank])
      (@Spaced.part ['\n'] _ "  - sum".toList _ (by simp [isBlank]) (by decide) (by simp [isBlank])
        (@Spaced.part [' ', ' '] _ [] _ (by simp [isBlank]) (by decide) (by simp) (.done (by simp))))
  have hbehind : BehindType "\x7ba\x7d [ =0]".toList "[ =0]".toList :=
    @BehindType.typed [] _ [' '] "[ =0]".toList (by simp) ⟨_, ha, rfl⟩ hgap (by simp [isBlank])
  have hlacks : LacksName "[ =0]".toList :=
    @LacksName.blankDefault [' '] ['0'] [] hgap (by decide)
  exact ⟨param_forms_are_read.1 "n" "- sum" _ _ hname (.inr ⟨_, .braces ha .nil, rfl⟩) hcomment
    (.typeFirst hpart hspaced), (param_forms_are_read.2 _).mpr ⟨_, hbehind, hlacks⟩⟩

end ScriptManifest.Doc
