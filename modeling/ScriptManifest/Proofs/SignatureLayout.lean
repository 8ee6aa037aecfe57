import ScriptManifest.Proofs.AnnotationReading
import ScriptManifest.Proofs.ShapeOutcome

/-!
Signatures under a change of layout. `ParameterGaps` says of the tokens of a parameter list what may
be put in front of each of them; tokens that respect these gaps make parameters of the same names and
shapes (`ParameterGaps.respects`), and so does the result (`readResult_respects`).
-/

namespace ScriptManifest.Source

/-! ### Default values -/

/-- The tokens of types inside of angle brackets, up to and with the closing one of `angles` brackets
that are open. -/
inductive BracketedTypes : (angles : Nat) → List Token → Prop
  | nil : BracketedTypes 0 []
  | operand {t : Token} {angles : Nat} {ts : List Token}
    (ht : t.kind = .word ∨ t.kind = .number ∨ t.kind = .text) (h : BracketedTypes (angles + 1) ts) :
    BracketedTypes (angles + 1) (t :: ts)
  | joint {t : Token} {m : String} {angles : Nat} {ts : List Token} (ht : t.isMark m = true)
    (hm : m ∈ typeMarks) (h : BracketedTypes (angles + 1) ts) : BracketedTypes (angles + 1) (t :: ts)
  | angle {t : Token} {angles : Nat} {ts : List Token} (ht : t.isMark "<" = true)
    (h : BracketedTypes (angles + 2) ts) : BracketedTypes (angles + 1) (t :: ts)
  | close {t : Token} {angles : Nat} {ts : List Token} (ht : t.isMark ">" = true)
    (h : BracketedTypes angles ts) : BracketedTypes (angles + 1) (t :: ts)
  | group {o c : Token} {angles : Nat} {inner ts : List Token} (ho : o.kind = .opener)
    (hc : c.kind = .closer) (hi : Closed inner) (h : BracketedTypes (angles + 1) ts) :
    BracketedTypes (angles + 1) (o :: (inner ++ c :: ts))

theorem BracketedTypes.anglesLength {angles : Nat} {ts : List Token} (h : BracketedTypes angles ts)
    (rest : List Token) : anglesLength angles 0 (ts ++ rest) = some ts.length := by
  induction h with
  | nil => rw [Source.anglesLength, List.length_nil]
  | operand ht _ ih =>
    rw [List.cons_append, Source.anglesLength, List.length_cons]
    obtain ht | ht | ht := ht <;> simp only [ht, ih, Option.map_some]
  | @joint t m _ ts ht hm _ ih =>
    obtain ⟨hk, rfl⟩ := Token.isMark_iff.mp ht
    have hangles : ∀ m ∈ typeMarks, m ≠ "<" ∧ m ≠ ">" := by decide
    rw [List.cons_append, Source.anglesLength, List.length_cons]
    simp [hk, hm, ih, hangles t.text hm]
  | angle ht _ ih =>
    obtain ⟨hk, htext⟩ := Token.isMark_iff.mp ht
    rw [List.cons_append, Source.anglesLength, List.length_cons]
    simp only [hk, htext, if_true, ih, Option.map_some]
  | close ht _ ih =>
    obtain ⟨hk, htext⟩ := Token.isMark_iff.mp ht
    rw [List.cons_append, Source.anglesLength, List.length_cons]
    simp [hk, htext, ih]
  | group ho hc hi _ ih =>
    rw [List.cons_append, List.append_assoc, List.cons_append, anglesLength_group ho hc hi, ih,
      Option.map_some, List.length_cons, List.length_append, List.length_cons]
    congr 1
    omega

/-- The tokens of an expression in which angle brackets stand around types: casts, type arguments and
the type parameters of a function. -/
inductive IsTypedValue : List Token → Prop
  | nil : IsTypedValue []
  | token {t : Token} {ts : List Token} (ho : t.kind ≠ .opener) (hc : t.kind ≠ .closer)
    (hcomma : t.isMark "," = false) (hangle : t.isMark "<" = false) (h : IsTypedValue ts) :
    IsTypedValue (t :: ts)
  | group {o c : Token} {inner ts : List Token} (ho : o.kind = .opener) (hc : c.kind = .closer)
    (hi : Closed inner) (h : IsTypedValue ts) : IsTypedValue (o :: (inner ++ c :: ts))
  | types {angle : Token} {inner ts : List Token} (ha : angle.isMark "<" = true)
    (hi : BracketedTypes 1 inner) (h : IsTypedValue ts) : IsTypedValue (angle :: (inner ++ ts))

theorem BracketedTypes.closed {angles : Nat} {ts : List Token} (h : BracketedTypes angles ts) :
    Closed ts := by
  induction h with
  | nil => exact .nil
  | operand ht _ ih => exact .token (by grind) (by grind) ih
  | joint ht _ _ ih => exact Token.closed_of_isMark ht ih
  | angle ht _ ih => exact Token.closed_of_isMark ht ih
  | close ht _ ih => exact Token.closed_of_isMark ht ih
  | group ho hc hi _ ih => exact .group ho hc hi ih

theorem IsTypedValue.closed {v : List Token} (h : IsTypedValue v) : Closed v := by
  induction h with
  | nil => exact .nil
  | token ho hc _ _ _ ih => exact .token ho hc ih
  | group ho hc hi _ ih => exact .group ho hc hi ih
  | types ha hi _ ih => exact Token.closed_of_isMark ha (hi.closed.append ih)

theorem IsTypedValue.dropValue {v rest : List Token} (hv : IsTypedValue v)
    (hend : ∀ t ∈ rest.head?, t.isMark "," = true) : dropValue true 0 0 (v ++ rest) = rest := by
  induction hv with
  | nil => exact dropValue_of_head true hend
  | @token t ts ho hc hcomma hangle _ ih =>
    rw [List.cons_append, Source.dropValue.eq_def]
    dsimp only
    split
    · next hk => exact (ho hk).elim
    · next hk =>
      have hne : t.text ≠ "," := by simpa [Token.isMark, hk] using hcomma
      have hno : t.text ≠ "<" := by simpa [Token.isMark, hk] using hangle
      rw [if_neg hne, if_neg (by simpa using hno), ih]
    · exact ih
  | @group o c inner ts ho hc hi _ ih =>
    rw [List.cons_append, List.append_assoc, List.cons_append, Source.dropValue.eq_def]
    simp only [ho]
    rw [hi.dropValue 0, Source.dropValue.eq_def]
    simp only [hc]
    exact ih
  | @types angle inner ts ha hi _ ih =>
    obtain ⟨hk, htext⟩ := Token.isMark_iff.mp ha
    have hlength : bracketedTypesLength (inner ++ (ts ++ rest)) = inner.length := by
      rw [bracketedTypesLength, hi.anglesLength, Option.getD_some]
    rw [List.cons_append, List.append_assoc, Source.dropValue.eq_def]
    simp only [hk, htext, Bool.true_and, decide_true, if_true, hlength]
    rw [if_neg (by decide), dropValue_hold, List.drop_left, ih]

theorem anglesLength_bare (angles depth : Nat) (ts : List Token) :
    anglesLength angles depth (ts.map Token.bare) = anglesLength angles depth ts := by
  induction ts generalizing angles depth with
  | nil => rfl
  | cons t ts ih =>
    cases angles with
    | zero => simp [anglesLength]
    | succ angles =>
      cases depth with
      | zero => simp only [List.map_cons, anglesLength, kind_bare, text_bare, ih]
      | succ depth => simp only [List.map_cons, anglesLength, kind_bare, ih]

theorem bracketedTypesLength_bare (ts : List Token) :
    bracketedTypesLength (ts.map Token.bare) = bracketedTypesLength ts := by
  rw [bracketedTypesLength, bracketedTypesLength, anglesLength_bare]

theorem dropValue_bare (typed : Bool) (hold depth : Nat) (ts : List Token) :
    dropValue typed hold depth (ts.map Token.bare) = (dropValue typed hold depth ts).map Token.bare := by
  induction ts generalizing hold depth with
  | nil => simp [dropValue]
  | cons t ts ih =>
    rw [List.map_cons]
    cases hold with
    | succ hold => rw [dropValue, dropValue, ih]
    | zero =>
      cases depth with
      | zero =>
        rw [dropValue, dropValue, kind_bare, text_bare, bracketedTypesLength_bare]
        simp only [ih]
        split
        · rfl
        · split
          · rfl
          · split <;> rfl
        · rfl
      | succ depth =>
        rw [dropValue, dropValue, kind_bare]
        simp only [ih]
        split <;> rfl

theorem ignoresLayout_dropValue (typed : Bool) : IgnoresLayout (dropValue typed 0 0) :=
  dropValue_bare typed 0 0

theorem eq_of_suffixes {ts us vs : List Token} (ht : ts <:+ vs) (hu : us <:+ vs)
    (h : ts.length = us.length) : ts = us :=
  (List.suffix_of_suffix_length_le ht hu (Nat.le_of_eq h)).eq_of_length h

theorem IgnoresLayout.eq_of_bare {read : List Token → List Token} (hread : IgnoresLayout read)
    (hsuffix : ∀ ts, read ts <:+ ts) {ts ts' rest rest' : List Token} (h : read (ts ++ rest) = rest)
    (hts : ts'.map Token.bare = ts.map Token.bare)
    (hrest : rest'.map Token.bare = rest.map Token.bare) : read (ts' ++ rest') = rest' := by
  have hbare : (ts' ++ rest').map Token.bare = (ts ++ rest).map Token.bare := by
    rw [List.map_append, List.map_append, hts, hrest]
  have hlength : rest'.length = rest.length := by simpa using congrArg List.length hrest
  apply eq_of_suffixes (hsuffix _) (List.suffix_append ts' rest')
  rw [hread.length hbare, h, hlength]

theorem Closed.of_bare {ts ts' : List Token} (h : Closed ts)
    (hbare : ts'.map Token.bare = ts.map Token.bare) : Closed ts' := by
  induction h generalizing ts' with
  | nil =>
    obtain rfl : ts' = [] := by simpa using hbare
    exact .nil
  | @token t ts ho hc _ ih =>
    obtain ⟨t', ts', rfl, ht, hts⟩ := List.map_eq_cons_iff.mp hbare
    have hkind := kind_of_bare ht
    exact .token (by rwa [hkind]) (by rwa [hkind]) (ih hts)
  | @group o c inner ts ho hc _ _ hinner ih =>
    obtain ⟨o', us, rfl, ho', hus⟩ := List.map_eq_cons_iff.mp hbare
    rw [List.map_append, List.map_cons] at hus
    obtain ⟨inner', vs, rfl, hinner', hvs⟩ := List.map_eq_append_iff.mp hus
    obtain ⟨c', ts', rfl, hc', hts⟩ := List.map_eq_cons_iff.mp hvs
    exact .group ((kind_of_bare ho').trans ho) ((kind_of_bare hc').trans hc) (hinner hinner') (ih hts)

theorem EndsPattern.of_bare {ts ts' : List Token} (h : EndsPattern ts)
    (hbare : ts'.map Token.bare = ts.map Token.bare) : EndsPattern ts' := by
  cases ts with
  | nil =>
    obtain rfl : ts' = [] := by simpa using hbare
    exact h
  | cons t ts =>
    obtain ⟨t', ts', rfl, ht, -⟩ := List.map_eq_cons_iff.mp hbare
    have hmark := h t (by simp)
    simpa [EndsPattern, isMark_of_bare ht] using hmark

/-! ### The gaps of a parameter -/

/-- The gaps of a pattern: all that is inside it is part of its name. -/
def patternGaps : List Token → List Gap
  | [] => []
  | _ :: ts => .free :: ts.map fun _ => .fixed

/-- The gaps of the start of a parameter with a given name. -/
inductive StartGaps : String → List Token → List Gap → Prop
  | plain {ts : List Token} (h : IsPattern ts) : StartGaps (spell ts) ts (patternGaps ts)
  | rest {dots : Token} {ts : List Token} (hd : dots.isMark "..." = true) (h : IsPattern ts) :
    StartGaps (spell ts) (dots :: ts) (.free :: patternGaps ts)
  | optional {mark : Token} {ts : List Token} (h : IsPattern ts) (hm : mark.isMark "?" = true) :
    StartGaps (spell ts) (ts ++ [mark]) (patternGaps ts ++ [.free])

/-- The tokens behind a colon are a whole annotation: in front of whatever may follow a parameter they
are read as a type of the given shape. -/
def Annotates (colon : Token) (ts : List Token) (shape : Option DeclaredType) : Prop :=
  ∀ rest, EndsPattern rest →
    (readResult false (colon :: (ts ++ rest))).1.map DeclaredType.shape = shape ∧
      (readResult false (colon :: (ts ++ rest))).2 = rest

theorem annotates_typeTokens {colon : Token} (hcolon : colon.isMark ":" = true) {lead : List Lexeme}
    {a : DeclaredType} {ts : List Token} (h : TypeTokens lead a ts) :
    Annotates colon ts (some a.shape) := by
  intro rest hrest
  rw [readResult_typeTokens hcolon h hrest.endsType]
  exact ⟨rfl, rfl⟩

/-- The gaps of the annotation of a parameter, if it has one. -/
inductive AnnotationGaps : Option DeclaredType → List Token → List Gap → Prop
  | none : AnnotationGaps none [] []
  | type {colon : Token} {ts : List Token} {shape : Option DeclaredType}
    (hcolon : colon.isMark ":" = true) (hts : Closed ts) (hread : Annotates colon ts shape) :
    AnnotationGaps shape (colon :: ts) (.free :: gapsOf (fun _ => false) colon ts)

/-- The gaps of a parameter list. Default values and commas may be moved apart at will. -/
inductive ParameterGaps : List Token → List Gap → Prop
  | nil : ParameterGaps [] []
  | comma {comma : Token} {ts : List Token} {gs : List Gap} (hcomma : comma.isMark "," = true)
    (h : ParameterGaps ts gs) : ParameterGaps (comma :: ts) (.free :: gs)
  | parameter {n : String} {shape : Option DeclaredType} {start typing value rest : List Token}
    {gs hs is : List Gap} (hstart : StartGaps n start gs)
    (htyping : AnnotationGaps shape typing hs)
    (hclosed : Closed value) (hends : EndsPattern (value ++ rest))
    (hvalue : dropValue true 0 0 (value ++ rest) = rest) (h : ParameterGaps rest is) :
    ParameterGaps (start ++ (typing ++ (value ++ rest)))
      (gs ++ (hs ++ (value.map (fun _ => .free) ++ is)))

@[simp] theorem length_patternGaps (ts : List Token) : (patternGaps ts).length = ts.length := by
  cases ts <;> simp [patternGaps]

theorem StartGaps.length {n : String} {ts : List Token} {gs : List Gap} (h : StartGaps n ts gs) :
    gs.length = ts.length := by
  cases h <;> simp

theorem AnnotationGaps.length {shape : Option DeclaredType} {ts : List Token} {gs : List Gap}
    (h : AnnotationGaps shape ts gs) : gs.length = ts.length := by
  cases h <;> simp

theorem StartGaps.start {n : String} {ts : List Token} {gs : List Gap} (h : StartGaps n ts gs) :
    ParameterStart n ts := by
  cases h with
  | plain h => exact .plain h
  | rest hd h => exact .rest hd h
  | optional h hm => exact .optional h hm

theorem IsPattern.respects {ts ts' : List Token} (h : IsPattern ts)
    (hr : Respects (patternGaps ts) ts ts') :
    IsPattern ts' ∧ spell ts' = spell ts ∧ patternGaps ts' = patternGaps ts := by
  obtain ⟨t, us, rfl⟩ := List.exists_cons_of_ne_nil h.ne_nil
  cases hr with
  | @cons _ _ t' _ _ us' ht hus =>
    have hbare : t'.bare = t.bare := ht
    obtain rfl : us' = us := hus.eq_of_fixed
    refine ⟨?_, by rw [spell, spell, text_of_bare hbare], rfl⟩
    cases h with
    | word hw => exact .word ((kind_of_bare hbare).trans hw)
    | group ho hc hi => exact .group (by rwa [opens_of_bare hbare, opens_of_bare hbare]) hc hi

theorem StartGaps.respects {n : String} {ts ts' : List Token} {gs : List Gap}
    (h : StartGaps n ts gs) (hr : Respects gs ts ts') : StartGaps n ts' gs := by
  cases h with
  | plain h =>
    obtain ⟨hpattern, hspell, hgaps⟩ := h.respects hr
    rw [← hspell, ← hgaps]
    exact .plain hpattern
  | rest hd h =>
    cases hr with
    | cons hdots hr =>
      obtain ⟨hpattern, hspell, hgaps⟩ := h.respects hr
      rw [← hspell, ← hgaps]
      exact .rest (by rwa [isMark_of_bare hdots]) hpattern
  | optional h hm =>
    obtain ⟨us, vs, rfl, hus, hvs⟩ := hr.append_cases (by simp)
    obtain ⟨hpattern, hspell, hgaps⟩ := h.respects hus
    cases hvs with
    | cons hmark hnil =>
      cases hnil
      rw [← hspell, ← hgaps]
      exact .optional hpattern (by rwa [isMark_of_bare hmark])

/-! ### Annotations -/

variable {held : Nat → Bool}

theorem gapIn_of_bare {here : Bool} {t t' u u' : Token} (ht : t'.bare = t.bare)
    (hu : u'.bare = u.bare) : gapIn here t' u' = gapIn here t u := by
  rw [gapIn, gapIn, isMark_of_bare ht, isMark_of_bare hu, isWord_of_bare ht, isWord_of_bare hu,
    isWord_of_bare hu, isWord_of_bare ht, kind_of_bare hu, opens_of_bare hu]

theorem gapsOf_of_bare {t t' : Token} (ht : t'.bare = t.bare) {ts ts' : List Token}
    (hts : ts'.map Token.bare = ts.map Token.bare) : gapsOf held t' ts' = gapsOf held t ts := by
  induction ts generalizing t t' ts' with
  | nil =>
    obtain rfl : ts' = [] := by simpa using hts
    rfl
  | cons u us ih =>
    obtain ⟨u', us', rfl, hu, hus⟩ := List.map_eq_cons_iff.mp hts
    have hlength : us'.length = us.length := by simpa using congrArg List.length hus
    rw [gapsOf, gapsOf, hlength, gapIn_of_bare ht hu, ih hu hus]

theorem Respects.relaid_mark {mark mark' : Token} {m : String} (hm : mark.isMark m = true)
    (hmark : mark'.bare = mark.bare) {ts ts' : List Token}
    (h : Respects (gapsOf held mark ts) ts ts') : Relaid held (mark :: ts) (mark' :: ts') := by
  have hkind := (Token.isMark_iff.mp hm).1
  refine .cons hmark (fun his => ?_) (fun _ hopens => ?_) ?_ h.relaid
  · simp [Token.isWord, hkind] at his
  · simp [Token.opens, hkind] at hopens
  cases ts with
  | nil => simp
  | cons u us =>
    cases h with
    | cons hu _ => simpa using hu

/-- An annotation that differs in layout only is of the same shape, and ends where it ended. -/
theorem readResult_respects {atEnd : Bool} {ts ts' rest : List Token}
    (h : Relaid (fun n => held (n + rest.length)) ts ts')
    (hheld : atEnd = true → ∀ n ∈ resultStops (ts ++ rest), held n = true)
    (hread : (readResult atEnd (ts ++ rest)).2 = rest) :
    (readResult atEnd (ts' ++ rest)).1.map DeclaredType.shape =
        (readResult atEnd (ts ++ rest)).1.map DeclaredType.shape ∧
      (readResult atEnd (ts' ++ rest)).2 = rest := by
  obtain ⟨hshape, hrest⟩ := readResult_relaid h.append_same hheld
  refine ⟨hshape, eq_of_suffixes (readResult_suffix atEnd _) (List.suffix_append ts' rest) ?_⟩
  rw [hrest.length, hread]

theorem AnnotationGaps.closed {shape : Option DeclaredType} {ts : List Token} {gs : List Gap}
    (h : AnnotationGaps shape ts gs) : Closed ts := by
  cases h with
  | none => exact .nil
  | type hcolon hts _ => exact Token.closed_of_isMark hcolon hts

theorem AnnotationGaps.respects {shape : Option DeclaredType} {ts ts' : List Token} {gs : List Gap}
    (h : AnnotationGaps shape ts gs) (hr : Respects gs ts ts') : AnnotationGaps shape ts' gs := by
  cases h with
  | none =>
    cases hr
    exact .none
  | @type colon ts _ hcolon hts hread =>
    cases hr with
    | @cons _ _ colon' _ _ us hbare hus =>
      have hrelaid := hus.relaid_mark hcolon hbare
      rw [← gapsOf_of_bare hbare hus.map_bare]
      refine .type (by rwa [isMark_of_bare hbare]) (hts.of_bare hus.map_bare) fun rest hrest => ?_
      obtain ⟨hshape, hend⟩ := hread rest hrest
      obtain ⟨hshape', hend'⟩ :=
        @readResult_respects (fun _ => false) false (colon :: ts) (colon' :: us) rest hrelaid nofun hend
      exact ⟨hshape'.trans hshape, hend'⟩

theorem AnnotationGaps.readResult {shape : Option DeclaredType} {ts : List Token} {gs : List Gap}
    (h : AnnotationGaps shape ts gs) {rest : List Token} (hrest : EndsPattern rest) :
    (readResult false (ts ++ rest)).1.map DeclaredType.shape = shape ∧
      (Source.readResult false (ts ++ rest)).2 = rest := by
  cases h with
  | none =>
    have hnone := readAnnotated_of_head true false (hrest.isMark_eq_false (m := ":") (by decide))
    rw [readAnnotated_typed] at hnone
    rw [List.nil_append, hnone]
    exact ⟨rfl, rfl⟩
  | type _ _ hread => exact hread rest hrest

theorem AnnotationGaps.head {shape : Option DeclaredType} {ts : List Token} {gs : List Gap}
    (h : AnnotationGaps shape ts gs) {rest : List Token} (hrest : EndsPattern rest) :
    (ts ++ rest).head?.any startsPattern = false ∧
      ∀ t ∈ (ts ++ rest).head?, t.isMark "?" = false := by
  cases h with
  | none => exact ⟨hrest.startsPattern, hrest.isMark_eq_false (by decide)⟩
  | type hcolon _ _ =>
    exact ⟨startsPattern_mark hcolon (by decide),
      by simp [Token.isMark, (Token.isMark_iff.mp hcolon).2]⟩

/-! ### Parameters -/

theorem shapes_parameter {n : String} {shape : Option DeclaredType}
    {start typing value rest : List Token} {gs hs : List Gap} (hstart : StartGaps n start gs)
    (htyping : AnnotationGaps shape typing hs) (hends : EndsPattern (value ++ rest))
    (hvalue : dropValue true 0 0 (value ++ rest) = rest) :
    (parametersOf (start ++ (typing ++ (value ++ rest)))).map Parameter.shape =
      ⟨n, shape⟩ :: (parametersOf rest).map Parameter.shape := by
  obtain ⟨hpattern, hmark⟩ := htyping.head hends
  obtain ⟨hshape, hend⟩ := htyping.readResult hends
  rw [hstart.start.parametersOf hpattern hmark, hend, hvalue, List.map_cons, Parameter.shape, hshape]

theorem parametersOf_comma {comma : Token} (h : comma.isMark "," = true) (ts : List Token) :
    parametersOf (comma :: ts) = parametersOf ts := by
  rw [parametersOf, List.length_cons, readParameters_succ, if_pos h, parametersOf]

theorem ParameterGaps.closed {ts : List Token} {gs : List Gap} (h : ParameterGaps ts gs) :
    Closed ts := by
  induction h with
  | nil => exact .nil
  | comma hcomma _ ih => exact Token.closed_of_isMark hcomma ih
  | parameter hstart htyping hvalue _ _ _ ih =>
    exact hstart.start.closed.append (htyping.closed.append (hvalue.append ih))

theorem ParameterGaps.length {ts : List Token} {gs : List Gap} (h : ParameterGaps ts gs) :
    gs.length = ts.length := by
  induction h with
  | nil => rfl
  | comma _ _ ih => rw [List.length_cons, List.length_cons, ih]
  | parameter hstart htyping _ _ _ _ ih =>
    simp only [List.length_append, List.length_map, hstart.length, htyping.length, ih]

/-- Layout changes neither the names of parameters nor the shapes of their annotations. -/
theorem ParameterGaps.respects {ts ts' : List Token} {gs : List Gap} (h : ParameterGaps ts gs)
    (hr : Respects gs ts ts') :
    ParameterGaps ts' gs ∧
      (parametersOf ts').map Parameter.shape = (parametersOf ts).map Parameter.shape := by
  induction h generalizing ts' with
  | nil =>
    cases hr
    exact ⟨.nil, rfl⟩
  | comma hcomma _ ih =>
    cases hr with
    | @cons _ _ comma' _ _ _ hbare hr =>
      have hcomma' : comma'.isMark "," = true := by rwa [isMark_of_bare hbare]
      refine ⟨.comma hcomma' (ih hr).1, ?_⟩
      rw [parametersOf_comma hcomma, parametersOf_comma hcomma', (ih hr).2]
  | @parameter n shape start typing value rest gs hs is hstart htyping hclosed hends hvalue _ ih =>
    -- part by part, the tokens that replace those of the parameter
    obtain ⟨start', _, rfl, hstart', hr⟩ := hr.append_cases hstart.length
    obtain ⟨typing', _, rfl, htyping', hr⟩ := hr.append_cases htyping.length
    obtain ⟨value', rest', rfl, hvalue', hrest'⟩ := hr.append_cases (by simp)
    have hbare : (value' ++ rest').map Token.bare = (value ++ rest).map Token.bare := by
      rw [List.map_append, List.map_append, hvalue'.map_bare, hrest'.map_bare]
    have hends' := hends.of_bare hbare
    have hdrop := (ignoresLayout_dropValue true).eq_of_bare (dropValue_suffix true 0 0) hvalue
      hvalue'.map_bare hrest'.map_bare
    have hgaps : value'.map (fun _ => Gap.free) = value.map fun _ => Gap.free := by
      have hlength := congrArg List.length hvalue'.map_bare
      simpa using hlength
    rw [← hgaps]
    refine ⟨.parameter (hstart.respects hstart') (htyping.respects htyping')
      (hclosed.of_bare hvalue'.map_bare) hends' hdrop (ih hrest').1, ?_⟩
    rw [shapes_parameter hstart htyping hends hvalue,
      shapes_parameter (hstart.respects hstart') (htyping.respects htyping') hends' hdrop,
      (ih hrest').2]

end ScriptManifest.Source
