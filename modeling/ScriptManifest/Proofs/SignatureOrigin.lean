import ScriptManifest.Proofs.Lowering
import ScriptManifest.Proofs.TreeWalk

/-!
Where signatures come from. Every reader of tokens leaves an end of the tokens it was given
(`leavesSuffix_types`, `suffix_of_readSignature`), so a signature that is found among the items
of a program was read off the program's own tokens (`exists_readSignature_of_mem_topLevel`), none
of which is empty.
-/

namespace ScriptManifest.Source

/-! ### Readers leave an end of their tokens -/

theorem splitGroup_append (depth : Nat) (ts : List Token) :
    (splitGroup depth ts).1 ++ (splitGroup depth ts).2 = ts := by
  induction ts generalizing depth with
  | nil => rfl
  | cons t ts ih =>
    unfold splitGroup
    split
    · rfl
    · simp [ih]
    · simp [ih]
    · simp [ih]

theorem splitPiece_suffix (ts : List Token) : (splitPiece ts).2 <:+ ts := by
  cases ts with
  | nil => exact List.suffix_refl []
  | cons t ts =>
    rw [splitPiece]
    split
    · exact ⟨t :: (splitGroup 0 ts).1, by simp [splitGroup_append]⟩
    · exact List.suffix_cons t ts

theorem dropDotted_suffix (ts : List Token) : dropDotted ts <:+ ts := by
  fun_induction dropDotted ts with
  | case1 dot part ts _ ih => exact (ih.trans (List.suffix_cons part ts)).trans (List.suffix_cons dot _)
  | case2 dot part ts _ => exact List.suffix_refl _
  | case3 ts _ => exact List.suffix_refl _

theorem dropCall_suffix (ts : List Token) : dropCall ts <:+ ts := by
  cases ts with
  | nil => exact List.suffix_refl []
  | cons t ts =>
    rw [dropCall]
    split
    · exact splitPiece_suffix (t :: ts)
    · exact List.suffix_refl _

theorem dropFinalComma_suffix (ts : List Token) : dropFinalComma ts <:+ ts := by
  fun_cases dropFinalComma ts with
  | case1 comma t ts _ => exact List.suffix_cons comma _
  | case2 comma t ts _ => exact List.suffix_refl _
  | case3 => exact List.suffix_refl _

theorem readSuffixes_suffix (atEnd : Bool) (fuel : Nat) (a : TypeNode) (ts : List Token) :
    (readSuffixes atEnd fuel a ts).2 <:+ ts := by
  induction fuel generalizing a ts with
  | zero => exact List.suffix_refl ts
  | succ fuel ih =>
    cases ts with
    | nil => exact List.suffix_refl []
    | cons t ts =>
      unfold readSuffixes
      split
      · exact (ih _ _).trans (splitPiece_suffix (t :: ts))
      · exact List.suffix_refl _

def LeavesSuffix {α : Type} (read : List Token → Option (α × List Token)) : Prop :=
  ∀ ts a rest, read ts = some (a, rest) → rest <:+ ts

theorem leavesSuffix_readWholeType (atEnd : Bool) : LeavesSuffix (readWholeType atEnd) := by
  intro ts a rest h
  unfold readWholeType at h
  split at h
  · cases h
  · cases h
    exact List.drop_suffix _ ts

theorem LeavesSuffix.readType {fuel : Nat} (h : LeavesSuffix (readOperand fuel)) (atEnd : Bool) :
    LeavesSuffix (readType atEnd (fuel + 1)) := by
  intro ts a rest hr
  unfold Source.readType at hr
  split at hr
  · exact leavesSuffix_readWholeType atEnd ts a rest hr
  · split at hr
    · exact leavesSuffix_readWholeType atEnd ts a rest hr
    · next b us hb =>
      dsimp only at hr
      split at hr
      · exact leavesSuffix_readWholeType atEnd ts a rest hr
      · cases hr
        exact (readSuffixes_suffix atEnd us.length b us).trans (h ts b us hb)

theorem LeavesSuffix.readArguments {fuel : Nat}
    (htype : LeavesSuffix (Source.readType false fuel)) (h : LeavesSuffix (readArguments fuel)) :
    LeavesSuffix (readArguments (fuel + 1)) := by
  intro ts as rest hr
  unfold Source.readArguments at hr
  split at hr
  · cases hr
  · next a us ha =>
    have hus := htype ts a us ha
    have hcomma := dropFinalComma_suffix us
    split at hr
    · cases hr
    · next t vs hvs =>
      rw [hvs] at hcomma
      have hts := ((List.suffix_cons t vs).trans hcomma).trans hus
      split at hr
      · cases hr
        exact hts
      · split at hr
        · split at hr
          · next hargs =>
            cases hr
            exact (h vs _ _ hargs).trans hts
          · cases hr
        · cases hr

theorem LeavesSuffix.readReference {fuel : Nat} (h : LeavesSuffix (Source.readArguments fuel))
    (first : Token) : LeavesSuffix (readReference (fuel + 1) first) := by
  intro ts a rest hr
  have hdotted := dropDotted_suffix ts
  unfold Source.readReference at hr
  dsimp only at hr
  split at hr
  · next angle inner hinner =>
    split at hr
    · split at hr
      · next hargs =>
        cases hr
        rw [hinner] at hdotted
        exact ((h inner _ _ hargs).trans (List.suffix_cons angle inner)).trans hdotted
      · cases hr
    · cases hr
      exact hdotted
  · cases hr
    exact hdotted

theorem LeavesSuffix.readOperand {fuel : Nat}
    (h : ∀ first, LeavesSuffix (Source.readReference fuel first)) :
    LeavesSuffix (readOperand (fuel + 1)) := by
  intro ts a rest hr
  cases ts with
  | nil => cases hr
  | cons t ts =>
    have hname : Source.readReference fuel t ts = some (a, rest) → rest <:+ t :: ts := by
      intro hread
      exact (h t ts a rest hread).trans (List.suffix_cons t ts)
    -- all but references, and what names a value or a module, end behind a piece of known length
    rw [Source.readOperand.eq_def] at hr
    dsimp only at hr
    split at hr
    · cases hr
      exact List.suffix_cons t rest
    · cases hr
      exact List.suffix_cons t rest
    · cases hr
      exact splitPiece_suffix (t :: ts)
    · split at hr
      · next n us =>
        split at hr
        · cases hr
          exact (List.suffix_cons n rest).trans (List.suffix_cons t _)
        · cases hr
      · cases hr
    · split at hr
      · cases hr
        exact List.suffix_cons t rest
      · split at hr
        · cases hr
          exact List.suffix_cons t rest
        · split at hr
          · next s us _ =>
            split at hr
            · cases hr
              exact (List.suffix_cons s rest).trans (List.suffix_cons t _)
            · exact hname hr
          · next w us _ =>
            -- behind `typeof` there is a name, or an `import` and its parentheses
            have hcall : (if w.isWord "import" then dropCall us else us) <:+ us := by
              split
              · exact dropCall_suffix us
              · exact List.suffix_refl us
            split at hr
            · split at hr
              · next hreference =>
                cases hr
                exact ((h w _ _ _ hreference).trans hcall).trans
                  ((List.suffix_cons w us).trans (List.suffix_cons t _))
              · cases hr
            · cases hr
          · next p us _ =>
            split at hr
            · split at hr
              · next hreference =>
                cases hr
                exact ((h t _ _ _ hreference).trans (splitPiece_suffix (p :: us))).trans
                  (List.suffix_cons t _)
              · cases hr
            · exact hname hr
          · split at hr
            · cases hr
            · exact hname hr
    · cases hr

/-- The four readers of types, which call each other. -/
theorem leavesSuffix_types (fuel : Nat) :
    (∀ atEnd, LeavesSuffix (readType atEnd fuel)) ∧ LeavesSuffix (readOperand fuel) ∧
      (∀ first, LeavesSuffix (readReference fuel first)) ∧ LeavesSuffix (readArguments fuel) := by
  induction fuel with
  | zero =>
    refine ⟨?_, ?_, ?_, ?_⟩
    · intro atEnd ts a rest h
      cases h
    · intro ts a rest h
      cases ts <;> cases h
    · intro first ts a rest h
      cases h
    · intro ts as rest h
      cases h
  | succ fuel ih =>
    obtain ⟨htype, hoperand, hreference, harguments⟩ := ih
    exact ⟨hoperand.readType, .readOperand hreference, harguments.readReference,
      .readArguments (htype false) harguments⟩

theorem leavesSuffix_readDeclaredType (atEnd : Bool) : LeavesSuffix (readDeclaredType atEnd) := by
  intro ts a rest h
  obtain ⟨⟨node, rest'⟩, hread, heq⟩ := Option.map_eq_some_iff.mp h
  cases heq
  exact (leavesSuffix_types _).1 atEnd ts node _ hread

theorem readResult_suffix (atEnd : Bool) (ts : List Token) : (readResult atEnd ts).2 <:+ ts := by
  cases ts with
  | nil => exact List.suffix_refl []
  | cons colon rest =>
    rw [readResult_cons]
    split
    · exact List.suffix_refl _
    · split
      · exact (List.drop_suffix _ rest).trans (List.suffix_cons colon rest)
      · split
        · next a rest' h =>
          exact (leavesSuffix_readDeclaredType atEnd rest a rest' h).trans (List.suffix_cons colon rest)
        · exact List.suffix_cons colon rest

theorem readAnnotated_suffix (typed atEnd : Bool) (ts : List Token) :
    (readAnnotated typed atEnd ts).2 <:+ ts := by
  cases typed with
  | false => exact List.suffix_refl ts
  | true => exact readResult_suffix atEnd ts

theorem dropMark_suffix (text : String) (ts : List Token) : dropMark text ts <:+ ts := by
  cases ts with
  | nil => exact List.suffix_refl []
  | cons t ts =>
    rw [dropMark]
    split
    · exact List.suffix_cons t ts
    · exact List.suffix_refl _

theorem readName_suffix (ts : List Token) : (readName ts).2 <:+ ts := by
  cases ts with
  | nil => exact List.suffix_refl []
  | cons t ts =>
    rw [readName]
    split
    · exact List.suffix_cons t ts
    · exact List.suffix_refl _

theorem dropAngles_suffix (depth : Nat) (ts : List Token) : dropAngles depth ts <:+ ts := by
  induction ts generalizing depth with
  | nil => cases depth <;> exact List.suffix_refl []
  | cons t ts ih =>
    cases depth with
    | zero => exact List.suffix_refl _
    | succ depth => exact (ih _).trans (List.suffix_cons t ts)

theorem dropTypeParameters_suffix (ts : List Token) : dropTypeParameters ts <:+ ts := by
  cases ts with
  | nil => exact List.suffix_refl []
  | cons t ts =>
    rw [dropTypeParameters]
    split
    · exact (dropAngles_suffix 1 ts).trans (List.suffix_cons t ts)
    · exact List.suffix_refl _

theorem readBody_suffix (ts : List Token) : (readBody ts).2 <:+ ts := by
  cases ts with
  | nil => exact List.suffix_refl []
  | cons t ts =>
    rw [readBody]
    split
    · exact splitPiece_suffix (t :: ts)
    · exact List.suffix_refl _

theorem suffix_of_readSignature {typed : Bool} {ts : List Token} {r : SignatureReading}
    (h : readSignature typed ts = some r) : r.rest <:+ ts := by
  have hname := (readName_suffix (dropMark "*" ts)).trans (dropMark_suffix "*" ts)
  have hparameters := (dropTypeParameters_suffix (readName (dropMark "*" ts)).2).trans hname
  rw [readSignature_eq] at h
  dsimp only at h
  split at h
  · cases h
  · next t us hus =>
    rw [hus] at hparameters
    split at h
    · cases h
      have hgroup := (splitPiece_suffix (t :: us)).trans hparameters
      have hresult := (readAnnotated_suffix typed true _).trans hgroup
      exact (readBody_suffix _).trans hresult
    · cases h

/-! ### Heads and items -/

def Head.IsReadFrom (typed : Bool) (ts : List Token) (h : Head) : Prop :=
  ∃ us r, us <:+ ts ∧ readSignature typed us = some r ∧ h.rest = r.rest ∧
    (h.label = .declaration r.signature ∨ h.label = .expression r.signature)

theorem Head.IsReadFrom.mono {typed : Bool} {ts us : List Token} {h : Head} (hus : us <:+ ts)
    (hread : h.IsReadFrom typed us) : h.IsReadFrom typed ts := by
  obtain ⟨vs, r, hvs, hr⟩ := hread
  exact ⟨vs, r, hvs.trans hus, hr⟩

theorem Head.IsReadFrom.suffix {typed : Bool} {ts : List Token} {h : Head}
    (hread : h.IsReadFrom typed ts) : h.rest <:+ ts := by
  obtain ⟨us, r, hus, hr, hrest, _⟩ := hread
  rw [hrest]
  exact (suffix_of_readSignature hr).trans hus

theorem exists_readSignature_of_readFunction {typed anyLine : Bool} {ts : List Token}
    {r : SignatureReading} (h : readFunction typed anyLine ts = some r) :
    ∃ us, us <:+ ts ∧ readSignature typed us = some r := by
  unfold readFunction at h
  split at h
  · cases h
  · next t us =>
    split at h
    · exact ⟨us, List.suffix_cons t us, h⟩
    · split at h
      · cases h
      · next u vs =>
        split at h
        · exact ⟨vs, (List.suffix_cons u vs).trans (List.suffix_cons t _), h⟩
        · cases h

theorem isReadFrom_declaration {typed anyLine : Bool} {ts : List Token} {wrappers : List Label}
    {h : Head} (hr : (readFunction typed anyLine ts).bind (·.asDeclaration? wrappers) = some h) :
    h.IsReadFrom typed ts := by
  obtain ⟨r, hfunction, hhead⟩ := Option.bind_eq_some_iff.mp hr
  obtain ⟨us, hus, hsignature⟩ := exists_readSignature_of_readFunction hfunction
  unfold SignatureReading.asDeclaration? at hhead
  split at hhead
  · cases hhead
    exact ⟨us, r, hus, hsignature, rfl, .inl rfl⟩
  · cases hhead

theorem isReadFrom_operand {typed anyLine : Bool} {ts : List Token} {h : Head}
    (hr : (readFunction typed anyLine ts).bind SignatureReading.asOperand? = some h) :
    h.IsReadFrom typed ts := by
  obtain ⟨r, hfunction, hhead⟩ := Option.bind_eq_some_iff.mp hr
  obtain ⟨us, hus, hsignature⟩ := exists_readSignature_of_readFunction hfunction
  unfold SignatureReading.asOperand? at hhead
  split at hhead
  · cases hhead
  · cases hhead
    exact ⟨us, r, hus, hsignature, rfl, .inr rfl⟩

theorem isReadFrom_of_readExported {typed : Bool} {ts : List Token} {h : Head}
    (hr : readExported typed ts = some h) : h.IsReadFrom typed ts := by
  unfold readExported at hr
  split at hr
  · cases hr
  · next t rest =>
    have hrest : rest <:+ t :: rest := List.suffix_cons t rest
    split at hr
    · obtain ⟨r, hfunction, hhead⟩ := Option.bind_eq_some_iff.mp hr
      obtain hd | ⟨-, ho⟩ := Option.or_eq_some_iff.mp hhead
      · exact (isReadFrom_declaration (Option.bind_eq_some_iff.mpr ⟨r, hfunction, hd⟩)).mono hrest
      · exact (isReadFrom_operand (Option.bind_eq_some_iff.mpr ⟨r, hfunction, ho⟩)).mono hrest
    · split at hr
      · exact (isReadFrom_operand hr).mono hrest
      · split at hr
        · exact (isReadFrom_declaration hr).mono hrest
        · exact isReadFrom_declaration hr

theorem isReadFrom_of_readHead {typed : Bool} {ts : List Token} {h : Head}
    (hr : readHead typed ts = some h) : h.IsReadFrom typed ts := by
  unfold readHead at hr
  split at hr
  · cases hr
  · next t rest =>
    have hrest : rest <:+ t :: rest := List.suffix_cons t rest
    split at hr
    · exact (isReadFrom_of_readExported hr).mono hrest
    · split at hr
      · exact (isReadFrom_declaration hr).mono hrest
      · exact isReadFrom_declaration hr

theorem signatures_leadNodes {lead : List Lexeme} {item : Tree} (h : item ∈ leadNodes lead)
    (parent : Label) : item.signatures parent = [] := by
  obtain ⟨x, _, hx⟩ := List.mem_filterMap.mp h
  split at hx
  · cases hx
    rfl
  · cases hx
    rfl
  · cases hx

theorem signatures_wrapNode {wrappers : List Label} (hw : ∀ l ∈ wrappers, l.isWrapper = true)
    {label parent : Label} {children : List Tree} {s s' : Signature}
    (hlabel : label = .declaration s ∨ label = .expression s)
    (h : s' ∈ (wrapNode wrappers (.node label children)).signatures parent) : s' = s := by
  induction wrappers generalizing parent with
  | nil =>
    obtain rfl | rfl := hlabel
    · simpa [wrapNode, Tree.signatures, Label.declared?, Label.isWrapper] using h
    · simp only [wrapNode, List.foldr_nil, Tree.signatures, Label.declared?, Label.isWrapper] at h
      split at h
      · simpa using h
      · simp at h
  | cons l ls ih =>
    rw [List.forall_mem_cons] at hw
    have hdeclared : l.declared? (some parent) = none := by
      cases l with
      | exported => rfl
      | ambient => rfl
      | _ => cases hw.1
    have hinner : (wrapNode (l :: ls) (.node label children)).signatures parent =
        (wrapNode ls (.node label children)).signatures l := by
      simp [wrapNode, Tree.signatures, Tree.signatures.signaturesOf, hdeclared, hw.1]
    rw [hinner] at h
    exact ih hw.2 h

theorem exists_readSignature_of_mem_itemsFrom {typed : Bool} {fuel : Nat} {b : Before}
    {ts : List Token} {item : Tree} (hitem : item ∈ itemsFrom typed fuel b ts) {s : Signature}
    (hs : s ∈ item.signatures .program) :
    ∃ us r, us <:+ ts ∧ readSignature typed us = some r ∧ r.signature = s := by
  induction fuel generalizing b ts with
  | zero => simp [itemsFrom] at hitem
  | succ fuel ih =>
    cases ts with
    | nil => simp [itemsFrom] at hitem
    | cons t ts =>
      rw [itemsFrom, List.mem_append] at hitem
      obtain hitem | hitem := hitem
      · rw [signatures_leadNodes hitem] at hs
        cases hs
      · split at hitem
        · next h hh =>
          have hhead : readHead typed (t :: ts) = some h := by
            split at hh
            · exact hh
            · cases hh
          have hread := isReadFrom_of_readHead hhead
          obtain rfl | hitem := List.mem_cons.mp hitem
          · obtain ⟨us, r, hus, hr, _, hlabel⟩ := hread
            exact ⟨us, r, hus, hr, (signatures_wrapNode (proper_of_readHead hhead).1 hlabel hs).symm⟩
          · obtain ⟨us, r, hus, hr, hsignature⟩ := ih hitem
            exact ⟨us, r, hus.trans hread.suffix, hr, hsignature⟩
        · obtain rfl | hitem := List.mem_cons.mp hitem
          · simp [Tree.signatures, Label.declared?, Label.isWrapper] at hs
          · obtain ⟨us, r, hus, hr, hsignature⟩ := ih hitem
            exact ⟨us, r, hus.trans (splitPiece_suffix (t :: ts)), hr, hsignature⟩

theorem exists_item_of_mem_declarationsAmong {before items : List Tree} {d : Declaration}
    (h : d ∈ declarationsAmong before items) : ∃ item ∈ items, d.signature ∈ item.signatures .program := by
  induction items generalizing before with
  | nil => cases h
  | cons t ts ih =>
    rw [declarationsAmong, List.mem_append] at h
    obtain h | h := h
    · obtain ⟨s, hs, rfl⟩ := List.mem_map.mp h
      exact ⟨t, List.mem_cons_self, hs⟩
    · obtain ⟨item, hitem, hs⟩ := ih h
      exact ⟨item, List.mem_cons_of_mem t hitem, hs⟩

/-- The signature of a declaration that is found in a source was read off the source's tokens. -/
theorem exists_readSignature_of_mem_topLevel {d : Dialect} {source : String} {x : Declaration}
    (h : x ∈ (parse d source).topLevel) :
    ∃ ts r, ts <:+ tokensOf d source ∧ readSignature d.isTyped ts = some r ∧
      r.signature = x.signature := by
  obtain ⟨item, hitem, hs⟩ := exists_item_of_mem_declarationsAmong h
  exact exists_readSignature_of_mem_itemsFrom hitem hs

/-! ### No token is empty -/

theorem text_ne_empty_of_mem_lexemesFrom {d : Dialect} {fuel : Nat} {p : Place} {cs : List Char}
    {x : Lexeme} (h : x ∈ lexemesFrom d fuel p cs) : x.text ≠ "" := by
  induction fuel generalizing p cs with
  | zero => cases h
  | succ fuel ih =>
    cases cs with
    | nil => cases h
    | cons c cs =>
      rw [lexemesFrom] at h
      obtain rfl | h := List.mem_cons.mp h
      · intro hempty
        have hnil := congrArg String.toList hempty
        rw [String.toList_ofList] at hnil
        have hlength := congrArg List.length hnil
        simp only [List.length_take, List.length_cons, String.toList_empty, List.length_nil] at hlength
        omega
      · exact ih h

theorem text_ne_empty_of_mem_lexemes {d : Dialect} {source : String} {x : Lexeme}
    (h : x ∈ lexemes d source) (hx : x.kind.isTrivia = false) : x.text ≠ "" := by
  unfold lexemes at h
  dsimp only at h
  split at h
  · obtain rfl | h := List.mem_cons.mp h
    · cases hx
    · exact text_ne_empty_of_mem_lexemesFrom h
  · exact text_ne_empty_of_mem_lexemesFrom h

theorem lexeme_of_mem_ofLexemesAfter {lead xs : List Lexeme} {t : Token}
    (h : t ∈ Token.ofLexemesAfter lead xs) : ⟨t.kind, t.text⟩ ∈ xs ∧ t.kind.isTrivia = false := by
  induction xs generalizing lead with
  | nil => cases h
  | cons x xs ih =>
    rw [Token.ofLexemesAfter] at h
    split at h
    · exact ⟨List.mem_cons_of_mem x (ih h).1, (ih h).2⟩
    · next hx =>
      obtain rfl | h := List.mem_cons.mp h
      · exact ⟨List.mem_cons_self, by simpa using hx⟩
      · exact ⟨List.mem_cons_of_mem x (ih h).1, (ih h).2⟩

theorem text_ne_empty_of_mem_tokensOf {d : Dialect} {source : String} {t : Token}
    (h : t ∈ tokensOf d source) : t.text ≠ "" := by
  obtain ⟨hmem, htrivia⟩ := lexeme_of_mem_ofLexemesAfter h
  exact text_ne_empty_of_mem_lexemes hmem htrivia

/-! ### What a reading shows of its tokens -/

theorem exists_token_of_readName {ts : List Token} {name : String}
    (h : (readName ts).1 = some name) : ∃ t ∈ ts, t.kind = .word ∧ t.text = name := by
  cases ts with
  | nil => cases h
  | cons t ts =>
    rw [readName] at h
    split at h
    · next hkind => exact ⟨t, List.mem_cons_self, by simpa using hkind, Option.some.inj h⟩
    · cases h

theorem exists_token_of_readSignature {typed : Bool} {ts : List Token} {r : SignatureReading}
    (h : readSignature typed ts = some r) {name : String} (hname : r.signature.name = some name) :
    ∃ t ∈ ts, t.kind = .word ∧ t.text = name := by
  rw [readSignature_eq] at h
  dsimp only at h
  split at h
  · cases h
  · split at h
    · cases h
      obtain ⟨t, ht, hword⟩ := exists_token_of_readName hname
      exact ⟨t, (dropMark_suffix "*" ts).subset ht, hword⟩
    · cases h

structure Signature.IsUntyped (s : Signature) : Prop where
  parameters : ∀ p ∈ s.parameters, p.declaredType = none
  result : s.result = none

theorem declaredType_readParameters {fuel : Nat} {ts : List Token} {p : Parameter}
    (h : p ∈ readParameters false fuel ts) : p.declaredType = none := by
  induction fuel generalizing ts with
  | zero => simp at h
  | succ fuel ih =>
    cases ts with
    | nil => simp at h
    | cons t ts =>
      rw [readParameters_succ] at h
      split at h
      · exact ih h
      · obtain rfl | h := List.mem_cons.mp h
        · rw [readParameter_eq]
          rfl
        · exact ih h

theorem isUntyped_of_readSignature {ts : List Token} {r : SignatureReading}
    (h : readSignature false ts = some r) : r.signature.IsUntyped := by
  rw [readSignature_eq] at h
  dsimp only at h
  split at h
  · cases h
  · split at h
    · cases h
      exact ⟨fun p hp => declaredType_readParameters hp, rfl⟩
    · cases h

end ScriptManifest.Source
