import ScriptManifest.Proofs.TokenLayout

/-!
Types under a change of layout. Tokens that differ in layout only have the same extent as a type
(`typeLength_relaid`) and are read, level by level, as types of the same shape, with tokens behind
them that again differ in layout only (`readsAlike_types`, `readResult_relaid`). If a statement may
end with the type, brackets have to be held where they go on with the type itself (`resultStops`).
-/

namespace ScriptManifest.Source

variable {held : Nat → Bool}

/-! ### Brackets that go on with a type -/

def Extent.mayEnd (e : Extent) : Bool := e.atEnd && !e.operand && e.depth == 0 && e.angles.isEmpty

/-- The places of a type where a statement may end with it, each as the number of tokens from there
on. -/
def extentStops (e : Extent) : List Token → List Nat
  | [] => []
  | t :: ts =>
    (if e.mayEnd then [ts.length + 1] else []) ++
      match e.step t ts.head? with
      | none => []
      | some e' => extentStops e' ts

/-- The same for the places behind an operand and behind every bracket that goes on with it. -/
def suffixStops : (fuel : Nat) → List Token → List Nat
  | 0, _ => []
  | _ + 1, [] => []
  | fuel + 1, t :: ts =>
    (ts.length + 1) ::
      if continuesArray true t then suffixStops fuel (splitPiece (t :: ts)).2 else []

/-- The places where a square bracket would go on with a type as a whole, and not with one inside of
it: as far as the extent of the type goes, and behind its operand if it is read level by level. -/
def typeStops (ts : List Token) : List Nat :=
  extentStops { atEnd := true } ts ++
    match readOperand (4 * ts.length + 3) ts with
    | none => []
    | some (_, rest) => suffixStops rest.length rest

def resultStops : List Token → List Nat
  | [] => []
  | _ :: ts => typeStops ts

theorem continuesArray_relaid {t t' : Token} {ts ts' : List Token}
    (h : Relaid held (t :: ts) (t' :: ts')) {atEnd : Bool}
    (hheld : atEnd = true → held (ts.length + 1) = true) :
    continuesArray atEnd t' = continuesArray atEnd t := by
  cases h with
  | cons hbare _ hbracket _ _ =>
    rw [continuesArray, continuesArray, opens_of_bare hbare]
    cases atEnd with
    | false => rfl
    | true =>
      by_cases hopens : t.opens "[" = true
      · rw [hbracket (hheld rfl) hopens]
      · simp [hopens]

/-! ### The extent of a type -/

theorem startsOperand_of_bare {t t' : Token} (h : t'.bare = t.bare) :
    startsOperand t' = startsOperand t := by
  rw [startsOperand, startsOperand, kind_of_bare h, text_of_bare h]

theorem isTypeOperator_relaid {t t' : Token} {ts ts' : List Token}
    (h : Relaid held (t :: ts) (t' :: ts')) (ht : t.kind = .word) :
    isTypeOperator t'.text ts'.head? = isTypeOperator t.text ts.head? := by
  cases h with
  | cons hbare _ _ hnext hts =>
    rw [text_of_bare hbare]
    cases hts with
    | nil => rfl
    | @cons u u' us us' hu _ _ _ _ =>
      have hline : t.text = "asserts" → u.kind = .word → u'.startsLine = u.startsLine := by
        intro htext hkind
        have hasserts : t.isWord "asserts" = true := by simp [Token.isWord, ht, htext]
        exact (hnext u (by simp) u' (by simp)).startsLine (gapIn_asserts hasserts hkind _)
      simp only [List.head?_cons, isTypeOperator, startsOperand_of_bare hu, kind_of_bare hu,
        isWord_of_bare hu]
      split
      · rfl
      · rfl
      · rfl
      · rfl
      · rfl
      · rfl
      · next htext =>
        by_cases hkind : u.kind = .word
        · rw [hline htext hkind]
        · simp [beq_eq_false_iff_ne.mpr hkind]
      all_goals rfl

theorem atEnd_of_step {e e' : Extent} {t : Token} {next : Option Token}
    (h : e.step t next = some e') : e'.atEnd = e.atEnd := by
  unfold Extent.step at h
  dsimp only at h
  grind

theorem extentStops_inside {e : Extent} (h : e.atEnd = false) (ts : List Token) :
    extentStops e ts = [] := by
  induction ts generalizing e with
  | nil => rfl
  | cons t ts ih =>
    have hend : e.mayEnd = false := by simp [Extent.mayEnd, h]
    rw [extentStops, hend, if_neg (by simp), List.nil_append]
    split
    · rfl
    · next e' hstep => exact ih ((atEnd_of_step hstep).trans h)

theorem extentStops_held {atEnd : Bool} {ts : List Token}
    (h : atEnd = true → ∀ n ∈ typeStops ts, held n = true) :
    ∀ n ∈ extentStops { atEnd := atEnd } ts, held n = true := by
  cases atEnd with
  | false =>
    have hnone : extentStops {} ts = [] := extentStops_inside rfl ts
    simp [hnone]
  | true => exact fun n hn => h rfl n (List.mem_append_left _ hn)

theorem step_relaid {t t' : Token} {ts ts' : List Token} (h : Relaid held (t :: ts) (t' :: ts'))
    {e : Extent} (hheld : e.mayEnd = true → held (ts.length + 1) = true) :
    e.step t' ts'.head? = e.step t ts.head? := by
  have hoperator := isTypeOperator_relaid h
  have harray (hoperand : ¬ e.operand = true) (hdepth : ¬ 0 < e.depth) :
      continuesArray (e.atEnd && e.angles.isEmpty) t' =
        continuesArray (e.atEnd && e.angles.isEmpty) t := by
    refine continuesArray_relaid h fun hend => hheld ?_
    rw [Bool.and_eq_true] at hend
    simp [Extent.mayEnd, hend, hoperand, Nat.eq_zero_of_not_pos hdepth]
  cases h with
  | cons hbare hline _ _ _ =>
    rw [text_of_bare hbare] at hoperator
    simp only [Extent.step, kind_of_bare hbare, text_of_bare hbare]
    split
    · rfl
    · next hdepth =>
      split
      · split
        · next hword => rw [hoperator hword]
        all_goals rfl
      · next hoperand =>
        split
        · next hword =>
          by_cases his : t.text = "is"
          · have hwordIs : t.isWord "is" = true := by simp [Token.isWord, hword, his]
            rw [hline hwordIs]
          · simp [his]
        · rw [harray hoperand hdepth]
        all_goals rfl

/-- The extent of a type does not depend on layout. -/
theorem typeLength_relaid {ts ts' : List Token} (h : Relaid held ts ts') {e : Extent}
    (hheld : ∀ n ∈ extentStops e ts, held n = true) : typeLength e ts' = typeLength e ts := by
  induction h generalizing e with
  | nil => rfl
  | @cons t t' ts ts' hbare hline hbracket hnext hts ih =>
    rw [extentStops] at hheld
    have hstep := step_relaid (.cons hbare hline hbracket hnext hts) (e := e) fun hend =>
      hheld _ (by simp [hend])
    rw [typeLength, typeLength, hstep]
    split
    · rfl
    · next e' hnext =>
      rw [ih fun n hn => hheld n (by simp [hnext, hn])]

end ScriptManifest.Source

namespace ScriptManifest

/-- The shape of a type: keywords, names and arguments at every level, without the texts. -/
def DeclaredType.shape : DeclaredType → DeclaredType
  | .primitive keyword _ => .primitive keyword ""
  | .array element _ => .array element.shape ""
  | .named name arguments _ => .named name (shapes arguments) ""
  | .other _ => .other ""
where
  shapes : List DeclaredType → List DeclaredType
    | [] => []
    | a :: as => a.shape :: shapes as

theorem shapes_eq_map (as : List DeclaredType) :
    DeclaredType.shape.shapes as = as.map DeclaredType.shape := by
  induction as with
  | nil => rfl
  | cons a as ih => rw [DeclaredType.shape.shapes, ih, List.map_cons]

end ScriptManifest

namespace ScriptManifest.Source

variable {held : Nat → Bool}

/-! ### Types of the same shape -/

def TypeNode.shape (node : TypeNode) : DeclaredType := node.lower.shape

@[simp] theorem shape_other (text : String) : (TypeNode.other text).shape = .other "" := by
  rw [TypeNode.shape, TypeNode.lower, DeclaredType.shape]

@[simp] theorem shape_array (element : TypeNode) (text : String) :
    (TypeNode.array element text).shape = .array element.shape "" := by
  rw [TypeNode.shape, TypeNode.lower, DeclaredType.shape, TypeNode.shape]

theorem shape_generic (head : String) (arguments : List TypeNode) (text : String) :
    (TypeNode.generic head arguments text).shape = .named head (arguments.map TypeNode.shape) "" := by
  rw [TypeNode.shape, TypeNode.lower, DeclaredType.shape, shapes_eq_map, TypeNode.lowerAll_eq_map,
    List.map_map]
  rfl

/-- Two readings that agree on what was read, and leave tokens that differ in layout only. -/
inductive ReadAlike (held : Nat → Bool) {α β : Type} (view : α → β) :
    Option (α × List Token) → Option (α × List Token) → Prop
  | none : ReadAlike held view none none
  | some {a a' : α} {rest rest' : List Token} (h : view a' = view a) (hrest : Relaid held rest rest') :
    ReadAlike held view (some (a, rest)) (some (a', rest'))

def ReadsAlike (held : Nat → Bool) {α β : Type} (view : α → β)
    (read : List Token → Option (α × List Token)) : Prop :=
  ∀ ts ts', Relaid held ts ts' → ReadAlike held view (read ts) (read ts')

theorem Relaid.any_head {p : Token → Bool} (hp : ∀ t t' : Token, t'.bare = t.bare → p t' = p t)
    {ts ts' : List Token} (h : Relaid held ts ts') : ts'.head?.any p = ts.head?.any p := by
  cases h with
  | nil => rfl
  | cons hbare _ _ _ _ => exact hp _ _ hbare

theorem startsFunctionType_relaid {ts ts' : List Token} (h : Relaid held ts ts') :
    startsFunctionType ts' = startsFunctionType ts := by
  have harrow := h.splitPiece.any_head (p := (·.isMark "=>")) fun t t' hb => isMark_of_bare hb _
  cases h with
  | nil => rfl
  | cons hbare _ _ _ _ =>
    rw [startsFunctionType, startsFunctionType, isMark_of_bare hbare, opens_of_bare hbare, harrow]

theorem continuesType_relaid {ts ts' : List Token} (h : Relaid held ts ts') :
    continuesType ts' = continuesType ts := by
  cases h with
  | nil => rfl
  | @cons t t' _ _ hbare hline _ _ _ =>
    have his : (t.isWord "is" && !t'.startsLine) = (t.isWord "is" && !t.startsLine) := by
      by_cases hword : t.isWord "is" = true
      · rw [hline hword]
      · simp [hword]
    rw [continuesType, continuesType, isMark_of_bare hbare, isMark_of_bare hbare, isWord_of_bare hbare,
      isWord_of_bare hbare, his]

theorem readWholeType_relaid {atEnd : Bool} {ts ts' : List Token} (h : Relaid held ts ts')
    (hheld : ∀ n ∈ extentStops { atEnd := atEnd } ts, held n = true) :
    ReadAlike held TypeNode.shape (readWholeType atEnd ts) (readWholeType atEnd ts') := by
  rw [readWholeType, readWholeType, typeLength_relaid h hheld]
  split
  · exact .none
  · refine .some (by simp) (h.suffix (List.drop_suffix _ ts) (List.drop_suffix _ ts') ?_)
    rw [List.length_drop, List.length_drop, h.length]

theorem readSuffixes_relaid {atEnd : Bool} (fuel : Nat) {a a' : TypeNode}
    (ha : a'.shape = a.shape) {ts ts' : List Token} (h : Relaid held ts ts')
    (hheld : atEnd = true → ∀ n ∈ suffixStops fuel ts, held n = true) :
    (readSuffixes atEnd fuel a' ts').1.shape = (readSuffixes atEnd fuel a ts).1.shape ∧
      Relaid held (readSuffixes atEnd fuel a ts).2 (readSuffixes atEnd fuel a' ts').2 := by
  induction fuel generalizing a a' ts ts' with
  | zero => exact ⟨ha, h⟩
  | succ fuel ih =>
    have hpiece := h.splitPiece
    have hgroup : (splitPiece ts').1.length = (splitPiece ts).1.length := by
      have hmap := congrArg (fun r => r.1.length) (congrArg splitPiece h.map_bare)
      simpa [splitPiece_bare] using hmap
    cases h with
    | nil => exact ⟨ha, .nil⟩
    | @cons t t' ts ts' hbare hline hbracket hnext hts =>
      have hwhole := Relaid.cons hbare hline hbracket hnext hts
      rw [readSuffixes, readSuffixes,
        continuesArray_relaid hwhole fun hend => hheld hend _ (by simp [suffixStops])]
      split
      · next hcontinues =>
        have hheld' : atEnd = true → ∀ n ∈ suffixStops fuel (splitPiece (t :: ts)).2, held n = true := by
          rintro rfl n hn
          exact hheld rfl n (by simp [suffixStops, hcontinues, hn])
        simp only [hgroup]
        split
        · exact ih (by simp [ha]) hpiece hheld'
        · exact ih (by simp) hpiece hheld'
      · exact ⟨ha, hwhole⟩

/-! ### Dotted names -/

def DotHeld (ts ts' : List Token) : Prop :=
  ∀ u ∈ ts.head?, ∀ u' ∈ ts'.head?, u.isMark "." = true → u' = u

theorem Relaid.dotHeld {t t' : Token} {ts ts' rest rest' : List Token}
    (h : Relaid held (t :: ts) (t' :: ts')) (hr : rest <:+ ts) (hr' : rest' <:+ ts')
    (hlength : rest'.length = rest.length) : DotHeld rest rest' := by
  induction ts generalizing t t' ts' with
  | nil =>
    rw [List.suffix_nil] at hr
    simp [hr, DotHeld]
  | cons u us ih =>
    cases h with
    | cons _ _ _ hnext hts =>
      cases hts with
      | @cons u u' us us' hbare hline hbracket hnext' hus =>
        have htail := hus.length
        obtain rfl | hr := List.suffix_cons_iff.mp hr
        · have hwhole : rest' = u' :: us' := hr'.eq_of_length (by simp [hlength, htail])
          intro v hv v' hv' hdot
          obtain rfl : u = v := by simpa using hv
          obtain rfl : u' = v' := by simpa [hwhole] using hv'
          have hgap := hnext u (by simp) u' (by simp)
          rwa [gapIn_dot (.inr hdot)] at hgap
        · obtain rfl | hr' := List.suffix_cons_iff.mp hr'
          · have hle := hr.length_le
            simp only [List.length_cons] at hlength
            omega
          · exact ih (.cons hbare hline hbracket hnext' hus) hr hr'

theorem upTo_cons {t : Token} {ts rest : List Token} (h : rest.length ≤ ts.length) :
    upTo (t :: ts) rest = t :: upTo ts rest := by
  have hlength : (t :: ts).length - rest.length = (ts.length - rest.length) + 1 := by
    rw [List.length_cons]
    omega
  rw [upTo, upTo, hlength, List.take_succ_cons]

theorem upTo_whole {ts rest : List Token} (h : rest.length = ts.length) : upTo ts rest = [] := by
  rw [upTo, h, Nat.sub_self, List.take_zero]

theorem upTo_dropDotted_relaid {ts ts' : List Token} (h : Relaid held ts ts') (hdot : DotHeld ts ts') :
    upTo ts' (dropDotted ts') = upTo ts (dropDotted ts) := by
  fun_induction dropDotted ts generalizing ts' with
  | case1 dot part ts hcond ih =>
    cases h with
    | @cons _ dot' _ _ hdots _ _ hnext hparts =>
      cases hparts with
      | @cons _ part' _ ts' hpart hline hbracket hnext' hts =>
        simp only [Bool.and_eq_true, beq_iff_eq] at hcond
        obtain rfl : dot' = dot := hdot dot (by simp) dot' (by simp) hcond.1
        obtain rfl : part' = part := by
          have hgap := hnext part (by simp) part' (by simp)
          rwa [gapIn_dot (.inl hcond.1)] at hgap
        have hrest := ih hts ((Relaid.cons hpart hline hbracket hnext' hts).dotHeld (List.suffix_refl _)
          (List.suffix_refl _) hts.length)
        have hle := (dropDotted_suffix ts).length_le
        have hle' := (dropDotted_suffix ts').length_le
        rw [dropDotted, if_pos (by simp [hcond.1, hcond.2]),
          upTo_cons (by rw [List.length_cons]; omega), upTo_cons hle',
          upTo_cons (by rw [List.length_cons]; omega), upTo_cons hle, hrest]
  | case2 dot part ts hcond =>
    have hlength := h.dropDotted.length
    rw [dropDotted, if_neg hcond] at hlength
    rw [upTo_whole (hlength.trans h.length.symm), upTo_whole rfl]
  | case3 ts hshort =>
    have hlength := h.dropDotted.length
    have hsame : dropDotted ts = ts := by
      cases ts with
      | nil => rfl
      | cons dot ts =>
        cases ts with
        | nil => rfl
        | cons part ts => exact (hshort dot part ts rfl).elim
    rw [hsame] at hlength
    rw [upTo_whole (hlength.trans h.length.symm), upTo_whole rfl]

/-! ### Types read level by level -/

theorem ReadAlike.whole {α β : Type} {view : α → β} {r r' : Option (α × List Token)}
    (h : ReadAlike held view r r') (f f' : List Token → String) :
    ReadAlike held TypeNode.shape (r.map fun x => (.other (f x.2), x.2))
      (r'.map fun x => (.other (f' x.2), x.2)) := by
  cases h with
  | none => exact .none
  | some _ hrest => exact .some (by simp) hrest

def ReferencesAlike (held : Nat → Bool) (fuel : Nat) : Prop :=
  ∀ (t t' : Token) ts ts', t'.text = t.text → Relaid held ts ts' → DotHeld ts ts' →
    ReadAlike held TypeNode.shape (readReference fuel t ts) (readReference fuel t' ts')

theorem ReadsAlike.readReference {fuel : Nat}
    (h : ReadsAlike held (List.map TypeNode.shape) (readArguments fuel)) :
    ReferencesAlike held (fuel + 1) := by
  intro t t' ts ts' htext hts hdot
  have hname : spell (t' :: upTo ts' (dropDotted ts')) = spell (t :: upTo ts (dropDotted ts)) := by
    rw [spell, spell, htext, upTo_dropDotted_relaid hts hdot]
  have hrest := hts.dropDotted
  rw [Source.readReference, Source.readReference]
  simp only [hname]
  generalize spell (t :: upTo ts (dropDotted ts)) = name
  generalize dropDotted ts = rest at hrest
  generalize dropDotted ts' = rest' at hrest
  cases hrest with
  | nil => exact .some rfl .nil
  | @cons angle angle' inner inner' hbare hline hbracket hnext hinner =>
    simp only [isMark_of_bare hbare]
    split
    · have hinner := h inner inner' hinner
      generalize Source.readArguments fuel inner = r at hinner
      generalize Source.readArguments fuel inner' = r' at hinner
      cases hinner with
      | none => exact .none
      | some hargs hrest =>
        refine .some ?_ hrest
        rw [shape_generic, shape_generic, hargs]
    · exact .some rfl (.cons hbare hline hbracket hnext hinner)

theorem ReadsAlike.readArguments {fuel : Nat}
    (htype : ReadsAlike held TypeNode.shape (readType false fuel))
    (h : ReadsAlike held (List.map TypeNode.shape) (Source.readArguments fuel)) :
    ReadsAlike held (List.map TypeNode.shape) (Source.readArguments (fuel + 1)) := by
  intro ts ts' hts
  rw [Source.readArguments, Source.readArguments]
  have hfirst := htype ts ts' hts
  generalize readType false fuel ts = r at hfirst
  generalize readType false fuel ts' = r' at hfirst
  cases hfirst with
  | none => exact .none
  | @some a a' us us' ha hus =>
    have hcomma := hus.dropFinalComma
    simp only
    generalize dropFinalComma us = vs at hcomma
    generalize dropFinalComma us' = vs' at hcomma
    cases hcomma with
    | nil => exact .none
    | @cons t t' vs vs' hbare _ _ _ hvs =>
      simp only [isMark_of_bare hbare]
      split
      · exact .some (by simp [ha]) hvs
      · split
        · have hmore := h vs vs' hvs
          generalize Source.readArguments fuel vs = r at hmore
          generalize Source.readArguments fuel vs' = r' at hmore
          cases hmore with
          | none => exact .none
          | some has hrest => exact .some (by simp [ha, has]) hrest
        · exact .none

theorem readOperand_keyword {t : Token} (hk : t.kind = .word) (fuel : Nat) (ts : List Token)
    (h : t.text ∈ predefinedTypes) :
    readOperand (fuel + 1) (t :: ts) = some (.predefined t.text, ts) := by
  rw [readOperand.eq_def]
  simp only [hk, h, if_true]

theorem readOperand_literal {t : Token} (hk : t.kind = .word) (fuel : Nat) (ts : List Token)
    (hp : t.text ∉ predefinedTypes) (h : t.text ∈ literalTypes) :
    readOperand (fuel + 1) (t :: ts) = some (.other t.text, ts) := by
  rw [readOperand.eq_def]
  simp only [hk, hp, h, if_true, if_false]

theorem readOperand_name {t : Token} (hk : t.kind = .word) (fuel : Nat) (ts : List Token)
    (hp : t.text ∉ predefinedTypes) (hl : t.text ∉ literalTypes)
    (h : t.text ∉ ["unique", "typeof", "import"]) :
    readOperand (fuel + 1) (t :: ts) =
      if isTypeOperator t.text ts.head? then none else readReference fuel t ts := by
  rw [readOperand.eq_def]
  simp only [hk, hp, hl, if_false]
  split
  · next htext => simp [htext] at h
  · next htext => simp [htext] at h
  · next htext => simp [htext] at h
  · rfl

theorem readOperand_last {t : Token} (hk : t.kind = .word) (fuel : Nat)
    (hp : t.text ∉ predefinedTypes) (hl : t.text ∉ literalTypes) :
    readOperand (fuel + 1) [t] = readReference fuel t [] := by
  rw [readOperand.eq_def]
  simp only [hk, hp, hl, if_false]
  split
  · simp_all
  · simp_all
  · simp_all
  · simp [isTypeOperator]

theorem readOperand_unique {t : Token} (hk : t.kind = .word) (h : t.text = "unique") (fuel : Nat)
    (s : Token) (ts : List Token) :
    readOperand (fuel + 1) (t :: s :: ts) =
      if s.isWord "symbol" then some (.predefined (spell [t, s]), ts)
      else readReference fuel t (s :: ts) := by
  rw [readOperand.eq_def]
  have hp : "unique" ∉ predefinedTypes := by decide
  have hl : "unique" ∉ literalTypes := by decide
  simp only [hk, h, hp, hl, if_false]

theorem readOperand_typeof {t : Token} (hk : t.kind = .word) (h : t.text = "typeof") (fuel : Nat)
    (w : Token) (ts : List Token) :
    readOperand (fuel + 1) (t :: w :: ts) =
      if w.kind == .word then
        (readReference fuel w (if w.isWord "import" then dropCall ts else ts)).map
          fun r => (.other (spell (upTo (t :: w :: ts) r.2)), r.2)
      else none := by
  rw [readOperand.eq_def]
  have hp : "typeof" ∉ predefinedTypes := by decide
  have hl : "typeof" ∉ literalTypes := by decide
  simp only [hk, h, hp, hl, if_false]
  split
  · split
    · next heq => simp [heq]
    · next heq => simp [heq]
  · rfl

theorem readOperand_import {t : Token} (hk : t.kind = .word) (h : t.text = "import") (fuel : Nat)
    (p : Token) (ts : List Token) :
    readOperand (fuel + 1) (t :: p :: ts) =
      if p.opens "(" then (readReference fuel t (splitPiece (p :: ts)).2).map
        fun r => (.other (spell (upTo (t :: p :: ts) r.2)), r.2)
      else readReference fuel t (p :: ts) := by
  rw [readOperand.eq_def]
  have hp : "import" ∉ predefinedTypes := by decide
  have hl : "import" ∉ literalTypes := by decide
  simp only [hk, h, hp, hl, if_false]
  split
  · split
    · next heq => simp [heq]
    · next heq => simp [heq]
  · rfl

theorem ReferencesAlike.readOperand_word {fuel : Nat} (h : ReferencesAlike held fuel) {t t' : Token}
    {ts ts' : List Token} (hts : Relaid held (t :: ts) (t' :: ts')) (hk : t.kind = .word) :
    ReadAlike held TypeNode.shape (readOperand (fuel + 1) (t :: ts))
      (readOperand (fuel + 1) (t' :: ts')) := by
  have hheld : ∀ {rest rest' : List Token}, rest <:+ ts → rest' <:+ ts' →
      rest'.length = rest.length → DotHeld rest rest' := hts.dotHeld
  have hoperator := isTypeOperator_relaid hts hk
  cases hts with
  | cons hbare _ _ hnext htail =>
    have hk' := (kind_of_bare hbare).trans hk
    have htext := text_of_bare hbare
    have hname := h t t' ts ts' htext htail
      (hheld (List.suffix_refl _) (List.suffix_refl _) htail.length)
    by_cases hp : t.text ∈ predefinedTypes
    · rw [readOperand_keyword hk _ _ hp, readOperand_keyword hk' _ _ (htext ▸ hp), htext]
      exact .some rfl htail
    by_cases hl : t.text ∈ literalTypes
    · rw [readOperand_literal hk _ _ hp hl, readOperand_literal hk' _ _ (htext ▸ hp) (htext ▸ hl)]
      exact .some rfl htail
    by_cases hwords : t.text ∈ ["unique", "typeof", "import"]
    case neg =>
      rw [readOperand_name hk _ _ hp hl hwords,
        readOperand_name hk' _ _ (htext ▸ hp) (htext ▸ hl) (htext ▸ hwords), hoperator]
      split
      · exact .none
      · exact hname
    cases htail with
    | nil =>
      rw [readOperand_last hk _ hp hl, readOperand_last hk' _ (htext ▸ hp) (htext ▸ hl)]
      exact hname
    | @cons u u' us us' hu huline hubracket hunext hus =>
      have hwhole {first first' : Token} {ts ts' : List Token} (hfirst : first'.text = first.text)
          (hts : Relaid held ts ts') (hsuffix : ts <:+ u :: us) (hsuffix' : ts' <:+ u' :: us') :=
        (h first first' ts ts' hfirst hts (hheld hsuffix hsuffix' hts.length)).whole
          (fun rest => spell (upTo (t :: u :: us) rest))
          (fun rest => spell (upTo (t' :: u' :: us') rest))
      simp only [List.mem_cons, List.not_mem_nil, or_false] at hwords
      obtain hunique | htypeof | himport := hwords
      · rw [readOperand_unique hk hunique, readOperand_unique hk' (htext.trans hunique),
          isWord_of_bare hu]
        split
        · next hsymbol =>
          have hgap := hnext u (by simp) u' (by simp)
          rw [gapIn_unique (by simp [Token.isWord, hk, hunique]) hsymbol] at hgap
          have hspell : spell [t', u'] = spell [t, u] := by
            rw [hgap]
            simp [spell, htext]
          rw [hspell]
          exact .some rfl hus
        · exact hname
      · rw [readOperand_typeof hk htypeof, readOperand_typeof hk' (htext.trans htypeof),
          isWord_of_bare hu, kind_of_bare hu]
        split
        case isFalse => exact .none
        split
        · exact hwhole (text_of_bare hu) hus.dropCall
            ((dropCall_suffix us).trans (List.suffix_cons u us))
            ((dropCall_suffix us').trans (List.suffix_cons u' us'))
        · exact hwhole (text_of_bare hu) hus (List.suffix_cons u us) (List.suffix_cons u' us')
      · rw [readOperand_import hk himport, readOperand_import hk' (htext.trans himport),
          opens_of_bare hu]
        split
        · exact hwhole htext (Relaid.cons hu huline hubracket hunext hus).splitPiece (splitPiece_suffix _)
            (splitPiece_suffix _)
        · exact hname

theorem ReferencesAlike.readOperand {fuel : Nat} (h : ReferencesAlike held fuel) :
    ReadsAlike held TypeNode.shape (readOperand (fuel + 1)) := by
  intro ts ts' hts
  have hpiece := hts.splitPiece
  cases hts with
  | nil => exact .none
  | @cons t t' ts ts' hbare hline hbracket hnext htail =>
    by_cases hword : t.kind = .word
    · exact h.readOperand_word (.cons hbare hline hbracket hnext htail) hword
    have hk' := kind_of_bare hbare
    rw [Source.readOperand.eq_def, Source.readOperand.eq_def]
    cases hk : t.kind with
    | word => exact (hword hk).elim
    | number =>
      simp only [hk', hk]
      exact .some (by simp) htail
    | text =>
      simp only [hk', hk]
      exact .some (by simp) htail
    | opener =>
      simp only [hk', hk]
      exact .some (by simp) hpiece
    | mark =>
      simp only [hk', hk]
      cases htail with
      | nil => exact .none
      | cons hn _ _ _ hrest =>
        simp only [isMark_of_bare hbare, kind_of_bare hn]
        split
        · exact .some (by simp) hrest
        · exact .none
    | _ =>
      simp only [hk', hk]
      exact .none

theorem ReadsAlike.readType {fuel : Nat} (h : ReadsAlike held TypeNode.shape (readOperand fuel))
    {atEnd : Bool} {ts ts' : List Token} (hts : Relaid held ts ts')
    (hextent : ∀ n ∈ extentStops { atEnd := atEnd } ts, held n = true)
    (hsuffixes : atEnd = true → ∀ a rest, readOperand fuel ts = some (a, rest) →
      ∀ n ∈ suffixStops rest.length rest, held n = true) :
    ReadAlike held TypeNode.shape (readType atEnd (fuel + 1) ts)
      (Source.readType atEnd (fuel + 1) ts') := by
  have hwhole := readWholeType_relaid hts hextent
  rw [Source.readType, Source.readType, startsFunctionType_relaid hts]
  split
  · exact hwhole
  · have hfirst := h ts ts' hts
    generalize readOperand fuel ts = r at hfirst hsuffixes
    generalize readOperand fuel ts' = r' at hfirst
    cases hfirst with
    | none => exact hwhole
    | @some a a' rest rest' ha hrest =>
      obtain ⟨hshape, hbehind⟩ :=
        readSuffixes_relaid rest.length ha hrest fun hend => hsuffixes hend a rest rfl
      simp only [hrest.length, continuesType_relaid hbehind]
      split
      · exact hwhole
      · exact .some hshape hbehind

/-- The four readers of types, which call each other; no statement ends with a type inside of
another one. -/
theorem readsAlike_types (fuel : Nat) :
    ReadsAlike held TypeNode.shape (readType false fuel) ∧
      ReadsAlike held TypeNode.shape (readOperand fuel) ∧ ReferencesAlike held fuel ∧
      ReadsAlike held (List.map TypeNode.shape) (readArguments fuel) := by
  induction fuel with
  | zero =>
    refine ⟨fun ts ts' _ => .none, fun ts ts' _ => ?_, fun t t' ts ts' _ _ _ => .none,
      fun ts ts' _ => .none⟩
    rw [readOperand.eq_def, readOperand.eq_def]
    exact .none
  | succ fuel ih =>
    obtain ⟨htype, hoperand, hreference, harguments⟩ := ih
    exact ⟨fun ts ts' hts => hoperand.readType hts (extentStops_held (by simp)) (by simp),
      hreference.readOperand, harguments.readReference, htype.readArguments harguments⟩

theorem ReadAlike.lower {r r' : Option (TypeNode × List Token)}
    (h : ReadAlike held TypeNode.shape r r') :
    ReadAlike held DeclaredType.shape (r.map fun x => (x.1.lower, x.2))
      (r'.map fun x => (x.1.lower, x.2)) := by
  cases h with
  | none => exact .none
  | some hshape hrest => exact .some hshape hrest

theorem readDeclaredType_relaid {atEnd : Bool} {ts ts' : List Token} (h : Relaid held ts ts')
    (hheld : atEnd = true → ∀ n ∈ typeStops ts, held n = true) :
    ReadAlike held DeclaredType.shape (readDeclaredType atEnd ts) (readDeclaredType atEnd ts') := by
  rw [readDeclaredType, readDeclaredType, h.length]
  refine ((readsAlike_types _).2.1.readType h ?_ ?_).lower
  · exact extentStops_held hheld
  · intro hend a rest hread n hn
    exact hheld hend n (by simp [typeStops, hread, hn])

/-! ### Annotations -/

theorem startsPredicate_relaid {ts ts' : List Token} (h : Relaid held ts ts') :
    startsPredicate ts' = startsPredicate ts := by
  cases h with
  | nil => rfl
  | @cons a a' _ _ ha _ _ hnext hts =>
    cases hts with
    | nil => rfl
    | @cons b b' _ _ hb hline _ _ _ =>
      rw [startsPredicate, startsPredicate, kind_of_bare ha, kind_of_bare hb, text_of_bare ha,
        text_of_bare hb]
      -- the line matters only where the two words make a predicate
      by_cases hak : a.kind = .word
      case neg => simp [beq_eq_false_iff_ne.mpr hak]
      by_cases hbk : b.kind = .word
      case neg => simp [beq_eq_false_iff_ne.mpr hbk]
      by_cases his : b.text = "is"
      · rw [hline (by simp [Token.isWord, hbk, his])]
      · by_cases hasserts : a.text = "asserts"
        · have hgap := hnext b (by simp) b' (by simp)
          rw [hgap.startsLine (gapIn_asserts (by simp [Token.isWord, hak, hasserts]) hbk _)]
        · simp [beq_eq_false_iff_ne.mpr his, beq_eq_false_iff_ne.mpr hasserts]

/-- An annotation that differs in layout only is read as a type of the same shape. -/
theorem readResult_relaid {atEnd : Bool} {ts ts' : List Token} (h : Relaid held ts ts')
    (hheld : atEnd = true → ∀ n ∈ resultStops ts, held n = true) :
    (readResult atEnd ts').1.map DeclaredType.shape =
        (readResult atEnd ts).1.map DeclaredType.shape ∧
      Relaid held (readResult atEnd ts).2 (readResult atEnd ts').2 := by
  cases h with
  | nil => exact ⟨rfl, .nil⟩
  | @cons colon colon' ts ts' hbare hline hbracket hnext hts =>
    rw [resultStops] at hheld
    have hlength := typeLength_relaid hts (extentStops_held hheld)
    simp only [readResult_cons, isMark_of_bare hbare, startsPredicate_relaid hts, hlength]
    split
    · exact ⟨rfl, .cons hbare hline hbracket hnext hts⟩
    · split
      · refine ⟨by simp [DeclaredType.shape],
          hts.suffix (List.drop_suffix _ ts) (List.drop_suffix _ ts') ?_⟩
        rw [List.length_drop, List.length_drop, hts.length]
      · have hread := readDeclaredType_relaid hts hheld
        generalize readDeclaredType atEnd ts = r at hread
        generalize readDeclaredType atEnd ts' = r' at hread
        cases hread with
        | none => exact ⟨rfl, hts⟩
        | some hshape hrest => exact ⟨by simp [hshape], hrest⟩

end ScriptManifest.Source
