import ScriptManifest.Proofs.DeclarationSites
import ScriptManifest.Proofs.Printing

/-!
Annotations in their places. A type built of keywords, arrays and references is placed, by its text,
as the annotation of a parameter or of a result, in a function of any script; what is read there is
exactly that type, with its shape and its text at every level (`annotation_is_read_back`).
-/

namespace ScriptManifest

open Source

/-! ### Types that are built up -/

inductive IsQualifiedName : String → Prop
  | plain {w : String} (h : IsIdentifier w) : IsQualifiedName w
  | member {n w : String} (h : IsQualifiedName n) (hw : IsIdentifier w) :
    IsQualifiedName (n ++ "." ++ w)

/-- A type built of the predefined types, of arrays and of references with any number of
arguments. -/
inductive Built : DeclaredType → Prop
  | keyword {k : String} (h : k ∈ predefinedTypes) : Built (.ofKeyword k)
  | array {a : DeclaredType} (h : Built a) : Built (.arrayOf a)
  | reference {n : String} {args : List DeclaredType} (hn : IsQualifiedName n)
    (hargs : ∀ a ∈ args, Built a) : Built (.reference n args)

theorem IsIdentifier.isTypeName {w : String} (h : IsIdentifier w) : IsTypeName w := by
  have hsub : ∀ w ∈ typeWords, w ∈ keywords := by decide
  exact ⟨h.isWordText, fun hw => h.noKeyword (hsub w hw)⟩

theorem IsQualifiedName.exists_nameTokens {n : String} (h : IsQualifiedName n)
    (lead : List Lexeme) : ∃ ts, NameTokens lead n ts := by
  induction h with
  | plain h => exact ⟨_, .word h.isTypeName⟩
  | member _ hw ih =>
    obtain ⟨ts, hts⟩ := ih
    exact ⟨_, .dotted hts hw.isWordText⟩

theorem exists_argumentTokens {args : List DeclaredType} (hne : args ≠ [])
    (h : ∀ a ∈ args, IsPlain a) (lead : List Lexeme) : ∃ ts, ArgumentTokens lead args ts := by
  induction args generalizing lead with
  | nil => exact (hne rfl).elim
  | cons a args ih =>
    rw [List.forall_mem_cons] at h
    obtain ⟨ts, hts⟩ := h.1 lead
    by_cases hargs : args = []
    · subst hargs
      exact ⟨ts, .last hts⟩
    · obtain ⟨us, hus⟩ := ih hargs h.2 [blank]
      exact ⟨_, .more hts hus⟩

theorem Built.isPlain {a : DeclaredType} (h : Built a) : IsPlain a := by
  induction h with
  | keyword hk => exact isPlain_keyword hk
  | array _ ih => exact ih.array
  | @reference n args hn _ ih =>
    intro lead
    obtain ⟨ts, hts⟩ := hn.exists_nameTokens lead
    by_cases hargs : args = []
    · subst hargs
      exact ⟨ts, .name hts⟩
    · obtain ⟨us, hus⟩ := exists_argumentTokens hargs ih []
      exact ⟨_, .generic hts hus⟩

end ScriptManifest

namespace ScriptManifest.Source

/-! ### A text in its place -/

def withLead (lead : List Lexeme) : List Token → List Token
  | [] => []
  | t :: ts => { t with lead := lead } :: ts

theorem withLead_append {ts : List Token} (h : ts ≠ []) (lead : List Lexeme) (us : List Token) :
    withLead lead (ts ++ us) = withLead lead ts ++ us := by
  obtain ⟨t, ts, rfl⟩ := List.exists_cons_of_ne_nil h
  rfl

theorem NameTokens.withLead {lead : List Lexeme} {n : String} {ts : List Token}
    (h : NameTokens lead n ts) (lead' : List Lexeme) :
    NameTokens lead' n (Source.withLead lead' ts) := by
  induction h with
  | word hw => exact .word hw
  | dotted h hw ih =>
    rw [withLead_append h.startsWithWord.ne_nil]
    exact .dotted ih hw

theorem TypeTokens.withLead {lead : List Lexeme} {a : DeclaredType} {ts : List Token}
    (lead' : List Lexeme) (h : TypeTokens lead a ts) :
    TypeTokens lead' a (Source.withLead lead' ts) := by
  -- types and arguments are mutual, so the induction is on the number of tokens
  induction hlength : ts.length using Nat.strongRecOn generalizing a ts with
  | _ n ih =>
    cases h with
    | keyword hk => exact .keyword hk
    | array h =>
      rw [withLead_append h.startsWithWord.ne_nil]
      exact .array (ih _ (by simp [← hlength]) h rfl)
    | name h => exact .name (h.withLead lead')
    | generic h hargs =>
      rw [withLead_append h.startsWithWord.ne_nil]
      exact .generic (h.withLead lead') hargs

theorem exists_ofLexemesAfter_append (lead us : List Lexeme) :
    ∃ trail, ∀ ys, Token.ofLexemesAfter lead (us ++ ys) =
      Token.ofLexemesAfter lead us ++ Token.ofLexemesAfter trail ys := by
  induction us generalizing lead with
  | nil => exact ⟨lead, fun ys => rfl⟩
  | cons u us ih =>
    by_cases hu : u.kind.isTrivia = true
    · obtain ⟨trail, htrail⟩ := ih (lead ++ [u])
      refine ⟨trail, fun ys => ?_⟩
      rw [List.cons_append, Token.ofLexemesAfter, Token.ofLexemesAfter, if_pos hu, if_pos hu, htrail]
    · obtain ⟨trail, htrail⟩ := ih []
      refine ⟨trail, fun ys => ?_⟩
      rw [List.cons_append, Token.ofLexemesAfter, Token.ofLexemesAfter, if_neg hu, if_neg hu, htrail]
      rfl

theorem ofLexemesAfter_lexemesOf {ts : List Token} (hts : ∀ t ∈ ts, t.IsProper)
    (ys : List Lexeme) :
    Token.ofLexemesAfter [] (lexemesOf ts ++ ys) = ts ++ Token.ofLexemesAfter [] ys := by
  induction ts with
  | nil => rfl
  | cons t ts ih =>
    rw [List.forall_mem_cons] at hts
    rw [lexemesOf_cons, List.append_assoc, ofLexemesAfter_trivia [] hts.1.1, List.nil_append,
      List.cons_append, Token.ofLexemesAfter, if_neg (by simp [hts.1.2]), ih hts.2]
    rfl

theorem ofLexemesAfter_withLead {t : Token} {ts : List Token} (hlead : t.lead = [])
    (ht : t.kind.isTrivia = false) (hts : ∀ u ∈ ts, u.IsProper) (lead ys : List Lexeme) :
    Token.ofLexemesAfter lead (lexemesOf (t :: ts) ++ ys) =
      withLead lead (t :: ts) ++ Token.ofLexemesAfter [] ys := by
  rw [lexemesOf_cons, hlead, List.nil_append, List.cons_append, Token.ofLexemesAfter,
    if_neg (by simp [ht]), ofLexemesAfter_lexemesOf hts]
  rfl

theorem exists_lexAll_cons (d : Dialect) (p : Place) (c : Char) (cs : List Char) :
    ∃ x rest, c :: cs = x.text.toList ++ rest ∧
      lexAll d p (c :: cs) = x :: lexAll d (p.after x) rest := by
  obtain ⟨kind, n, hnext⟩ : ∃ kind n, p.next d (c :: cs) = (kind, n) := ⟨_, _, rfl⟩
  refine ⟨⟨kind, String.ofList ((c :: cs).take (max n 1))⟩, (c :: cs).drop (max n 1), ?_, ?_⟩
  · rw [String.toList_ofList, List.take_append_drop]
  · rw [lexAll, List.length_cons, lexemesFrom, hnext]
    simp only
    rw [lexemesFrom_eq_lexAll]
    simp only [List.length_drop, List.length_cons]
    omega

theorem lexAll_of_front {d : Dialect} {p : Place} {us : List Lexeme} {rest : List Char}
    (h : us <+: lexAll d p (charactersOf us ++ rest)) :
    lexAll d p (charactersOf us ++ rest) = us ++ lexAll d (p.afterAll us) rest := by
  induction us generalizing p with
  | nil => rfl
  | cons u us ih =>
    cases hcs : charactersOf (u :: us) ++ rest with
    | nil =>
      rw [hcs, lexAll_nil, List.prefix_nil] at h
      cases h
    | cons c cs =>
      obtain ⟨x, tail, hx, hlex⟩ := exists_lexAll_cons d p c cs
      rw [hcs, hlex, List.cons_prefix_cons] at h
      obtain ⟨rfl, hfront⟩ := h
      have htail : charactersOf us ++ rest = tail := by
        rw [← hcs, charactersOf_cons, List.append_assoc] at hx
        exact List.append_cancel_left hx
      subst htail
      rw [hlex, ih hfront]
      rfl

/-- A text stands in a source behind the lexemes `us`, where code is read, and no name that the text
ends with goes on behind it. -/
structure StandsIn (d : Dialect) (source : String) (us : List Lexeme) (text : String)
    (back : List Char) : Prop where
  spelled : source.toList = charactersOf us ++ (text.toList ++ back)
  cut : us <+: lexemes d source
  front : us ≠ []
  code : (Place.afterAll {} us).inCode = true
  ends : EndsName back

theorem after_shebang (cs : List Char) :
    Place.after {} ⟨.aside, String.ofList (cs.takeWhile staysInLine)⟩ = {} := by
  have hline : (cs.takeWhile staysInLine).any isLineBreak = false := by
    rw [List.any_eq_false]
    intro c hc hbreak
    have hstays := List.all_eq_true.mp List.all_takeWhile c hc
    simp [staysInLine, hbreak] at hstays
  simp [Place.after, LexemeKind.isTrivia, hline]

theorem lexemes_of_front {d : Dialect} {source : String} {us : List Lexeme} {rest : List Char}
    (hsource : source.toList = charactersOf us ++ rest) (hcut : us <+: lexemes d source)
    (hfront : us ≠ []) : lexemes d source = us ++ lexAll d (Place.afterAll {} us) rest := by
  unfold lexemes at hcut ⊢
  dsimp only at hcut ⊢
  split
  · next hshebang =>
    rw [if_pos hshebang] at hcut
    obtain ⟨u, us, rfl⟩ := List.exists_cons_of_ne_nil hfront
    obtain ⟨hu, hfront⟩ := List.cons_prefix_cons.mp hcut
    -- the first line is the first lexeme, and code starts behind it
    have hdrop : source.toList.dropWhile staysInLine = charactersOf us ++ rest := by
      have hline : u.text.toList = source.toList.takeWhile staysInLine := by
        rw [hu, String.toList_ofList]
      have happend := List.takeWhile_append_dropWhile (p := staysInLine) (l := source.toList)
      rw [charactersOf_cons, hline, List.append_assoc] at hsource
      exact List.append_cancel_left (happend.trans hsource)
    have hle := (List.dropWhile_sublist staysInLine (l := source.toList)).length_le
    rw [lexemesFrom_eq_lexAll _ _ _ _ hle, hdrop] at hfront ⊢
    rw [lexAll_of_front hfront, afterAll_cons, hu, after_shebang]
    rfl
  · next hshebang =>
    rw [if_neg hshebang, lexemesFrom_eq_lexAll _ _ _ _ (Nat.le_refl _), hsource] at hcut
    rw [lexemesFrom_eq_lexAll _ _ _ _ (Nat.le_refl _), hsource, lexAll_of_front hcut]

def tokensBehind (d : Dialect) (source : String) (us : List Lexeme) (text : String) : List Token :=
  (tokensOf d source).drop ((Token.ofLexemes us).length + (tokensOf d text).length)

theorem length_withLead (lead : List Lexeme) (ts : List Token) :
    (withLead lead ts).length = ts.length := by
  cases ts <;> rfl

theorem tokensOf_text {d : Dialect} {a : DeclaredType} {ts : List Token} (h : TypeTokens [] a ts) :
    tokensOf d a.text = ts := by
  have hcharacters := h.charactersOf
  obtain ⟨w, tail, hts, hw, -⟩ := h.startsWithWord
  obtain ⟨c, cs, hc, hstart, -⟩ := hw
  -- a name does not start as the first line of a script may
  have hshebang : "#!".toList.isPrefixOf a.text.toList = false := by
    have hne : '#' ≠ c := by
      rintro rfl
      exact absurd hstart (by decide)
    rw [← h.toList_spell, hts, toList_spell_cons, hc]
    simp [List.isPrefixOf, hne]
  have hcuts : Cuts d (lexemesOf ts ++ []) [] := by
    rw [List.append_nil]
    exact h.cuts (cutsLead_nil d) (by simp [EndsName])
  refine tokensOf_eq ?_ hshebang (h.isProper (by simp)) (by simp) hcuts
  rw [List.append_nil]
  exact hcharacters.symm

theorem StandsIn.tokensOf_eq {d : Dialect} {source : String} {us : List Lexeme} {back : List Char}
    {a : DeclaredType} (h : StandsIn d source us a.text back) (ha : IsPlain a) :
    ∃ lead ts, TypeTokens lead a ts ∧
      tokensOf d source = Token.ofLexemes us ++ (ts ++ tokensBehind d source us a.text) := by
  obtain ⟨ts, hts⟩ := ha []
  obtain ⟨trail, htrail⟩ := exists_ofLexemesAfter_append [] us
  have hlexed := (hts.cuts (cutsLead_nil d) h.ends _ h.code).1
  have htext : a.text.toList = charactersOf (lexemesOf ts) := hts.charactersOf.symm
  have hproper := hts.isProper (by simp)
  obtain ⟨w, tail, rfl, -⟩ := hts.startsWithWord
  rw [List.forall_mem_cons] at hproper
  have htokens : tokensOf d source = Token.ofLexemes us ++ (withLead trail (⟨[], .word, w⟩ :: tail) ++
      Token.ofLexemes (lexAll d ((Place.afterAll {} us).afterAll
        (lexemesOf (⟨[], .word, w⟩ :: tail))) back)) := by
    rw [tokensOf, lexemes_of_front h.spelled h.cut h.front, htext, lexAll_of_lexed hlexed,
      Token.ofLexemes, htrail, ofLexemesAfter_withLead rfl rfl hproper.2]
    rfl
  have hlength : (Token.ofLexemes us).length + (⟨[], .word, w⟩ :: tail : List Token).length =
      (Token.ofLexemes us ++ withLead trail (⟨[], .word, w⟩ :: tail)).length := by
    rw [List.length_append, length_withLead]
  refine ⟨trail, _, hts.withLead trail, ?_⟩
  rw [tokensBehind, tokensOf_text hts, hlength, htokens, ← List.append_assoc, List.drop_left,
    List.append_assoc]

/-! ### Where an annotation may stand -/

/-- The start of a parameter up to its annotation: its pattern, perhaps behind dots or in front of a
question mark. -/
inductive ParameterStart : String → List Token → Prop
  | plain {ts : List Token} (h : IsPattern ts) : ParameterStart (spell ts) ts
  | rest {dots : Token} {ts : List Token} (hd : dots.isMark "..." = true) (h : IsPattern ts) :
    ParameterStart (spell ts) (dots :: ts)
  | optional {mark : Token} {ts : List Token} (h : IsPattern ts) (hm : mark.isMark "?" = true) :
    ParameterStart (spell ts) (ts ++ [mark])

/-- Parameters that are complete: they are read the same whatever follows them. -/
def PassesParameters (ts : List Token) (ps : List Parameter) : Prop :=
  ∀ rest, parametersOf (ts ++ rest) = ps ++ parametersOf rest

/-- A place for an annotation in the declaration that starts with `f`: the tokens in front of it and
behind it, the signature that an annotation there completes, and what follows the result. -/
inductive AnnotationSite (f : FunctionStart) :
    (front behind : List Token) → (DeclaredType → Signature) → (rest : List Token) → Prop
  | result {inner behind : List Token} {c colon : Token} (hinner : Closed inner)
    (hc : c.kind = .closer) (hcolon : colon.isMark ":" = true) (hbehind : EndsType behind) :
    AnnotationSite f (f.tokens ++ (inner ++ [c, colon])) behind
      (fun a => ⟨f.name, parametersOf inner, some a⟩) behind
  | parameter {inner start value behind : List Token} {ps : List Parameter} {n : String}
    {colon c : Token} (hinner : Closed inner) (hps : PassesParameters inner ps)
    (hstart : ParameterStart n start) (hcolon : colon.isMark ":" = true) (hvalue : Closed value)
    (hends : EndsPattern value) (hc : c.kind = .closer) :
    AnnotationSite f (f.tokens ++ (inner ++ (start ++ [colon]))) (value ++ c :: behind)
      (fun a => ⟨f.name, ps ++ ⟨n, some a⟩ :: parametersOf (dropValue true 0 0 value),
        (readResult true behind).1⟩)
      (readResult true behind).2

theorem startsPattern_mark {t : Token} {m : String} (h : t.isMark m = true) (hm : m ≠ "...") :
    startsPattern t = false := by
  obtain ⟨hkind, htext⟩ := Token.isMark_iff.mp h
  simp [startsPattern, Token.opens, Token.isMark, hkind, htext, hm]

theorem ParameterStart.readParameter {n : String} {start : List Token} (h : ParameterStart n start)
    {ts : List Token} (hends : ts.head?.any startsPattern = false)
    (hno : ∀ t ∈ ts.head?, t.isMark "?" = false) :
    readParameter true (start ++ ts) =
      (⟨n, (readResult false ts).1⟩, dropValue true 0 0 (readResult false ts).2) := by
  cases h with
  | plain h =>
    simp only [readParameter_eq, h.dropModifiers hends, h.dropMark, h.splitPiece,
      dropMark_of_head hno, readAnnotated_typed]
  | @rest dots pattern hd h =>
    have hkind := (Token.isMark_iff.mp hd).1
    have hmodifiers : dropModifiers (dots :: (pattern ++ ts)).length (dots :: (pattern ++ ts)) =
        dots :: (pattern ++ ts) := by
      simp [dropModifiers, Token.isMark, hkind, (Token.isMark_iff.mp hd).2]
    have hdots : dropMark "..." (dots :: (pattern ++ ts)) = pattern ++ ts := by
      rw [dropMark, if_pos hd]
    simp only [readParameter_eq, List.cons_append, hmodifiers, hdots, h.splitPiece,
      dropMark_of_head hno, readAnnotated_typed]
  | @optional mark pattern h hm =>
    have hmarked : (mark :: ts).head?.any startsPattern = false := startsPattern_mark hm (by decide)
    have hmark : dropMark "?" (mark :: ts) = ts := by
      rw [dropMark, if_pos hm]
    rw [List.append_assoc, List.singleton_append]
    simp only [readParameter_eq, h.dropModifiers hmarked, h.dropMark, h.splitPiece, hmark,
      readAnnotated_typed]

theorem ParameterStart.closed {n : String} {start : List Token} (h : ParameterStart n start) :
    Closed start := by
  cases h with
  | plain h => exact h.closed
  | rest hd h => exact Token.closed_of_isMark hd h.closed
  | optional h hm => exact h.closed.append (Token.closed_of_isMark hm .nil)

theorem ParameterStart.exists_cons {n : String} {start : List Token} (h : ParameterStart n start) :
    ∃ t ts, start = t :: ts ∧ t.isMark "," = false := by
  have hpattern : ∀ {ts : List Token}, IsPattern ts → ∃ t us, ts = t :: us ∧ t.isMark "," = false := by
    intro ts hts
    cases hts with
    | word h => exact ⟨_, [], rfl, by simp [Token.isMark, h]⟩
    | group ho hc hi =>
      have hopener := ho.elim Token.kind_of_opens Token.kind_of_opens
      exact ⟨_, _, rfl, by simp [Token.isMark, hopener]⟩
  cases h with
  | plain h => exact hpattern h
  | rest hd h => exact ⟨_, _, rfl, by simp [Token.isMark, (Token.isMark_iff.mp hd).2]⟩
  | optional h hm =>
    obtain ⟨t, us, rfl, ht⟩ := hpattern h
    exact ⟨t, _, rfl, ht⟩

theorem EndsPattern.endsType {rest : List Token} (h : EndsPattern rest) : EndsType rest := by
  cases rest with
  | nil => exact endsType_nil
  | cons t rest =>
    obtain ht | ht := h t (by simp) <;>
      exact ⟨by simp [EndsReference, Token.isMark, (Token.isMark_iff.mp ht).2],
        by simp [Token.opens, (Token.isMark_iff.mp ht).1],
        by simp [continuesType, Token.isMark, Token.isWord, (Token.isMark_iff.mp ht).1,
          (Token.isMark_iff.mp ht).2]⟩

theorem ParameterStart.parametersOf {n : String} {start : List Token} (h : ParameterStart n start)
    {ts : List Token} (hends : ts.head?.any startsPattern = false)
    (hno : ∀ t ∈ ts.head?, t.isMark "?" = false) :
    parametersOf (start ++ ts) =
      ⟨n, (readResult false ts).1⟩ :: parametersOf (dropValue true 0 0 (readResult false ts).2) := by
  have hread := h.readParameter hends hno
  have hvalue := (dropValue_suffix true 0 0 (readResult false ts).2).length_le
  have hresult := (readResult_suffix false ts).length_le
  obtain ⟨t, us, rfl, ht⟩ := h.exists_cons
  rw [List.cons_append] at hread ⊢
  rw [Source.parametersOf, List.length_cons, readParameters_succ, if_neg (by simp [ht]), hread]
  dsimp only
  rw [readParameters_eq_parametersOf]
  rw [List.length_append]
  omega

theorem parametersOf_annotated {n : String} {start : List Token} (hstart : ParameterStart n start)
    {colon : Token} (hcolon : colon.isMark ":" = true) {lead : List Lexeme} {a : DeclaredType}
    {ts value : List Token} (hts : TypeTokens lead a ts) (hvalue : EndsPattern value) :
    parametersOf (start ++ colon :: (ts ++ value)) =
      ⟨n, some a⟩ :: parametersOf (dropValue true 0 0 value) := by
  have hends : (colon :: (ts ++ value)).head?.any startsPattern = false :=
    startsPattern_mark hcolon (by decide)
  have hno : ∀ t ∈ (colon :: (ts ++ value)).head?, t.isMark "?" = false := by
    simp [Token.isMark, (Token.isMark_iff.mp hcolon).2]
  rw [hstart.parametersOf hends hno, readResult_typeTokens hcolon hts hvalue.endsType]

theorem passesParameters_annotated {n : String} {start : List Token}
    (hstart : ParameterStart n start) {colon comma : Token} (hcolon : colon.isMark ":" = true)
    (hcomma : comma.isMark "," = true) {lead : List Lexeme} {a : DeclaredType} {ts : List Token}
    (hts : TypeTokens lead a ts) :
    PassesParameters (start ++ colon :: (ts ++ [comma])) [⟨n, some a⟩] := by
  intro rest
  have hends : EndsPattern (comma :: rest) := by simp [EndsPattern, hcomma]
  obtain ⟨hkind, htext⟩ := Token.isMark_iff.mp hcomma
  have hvalue : dropValue true 0 0 (comma :: rest) = comma :: rest := by
    simp [dropValue, hkind, htext]
  have hskip : parametersOf (comma :: rest) = parametersOf rest := by
    simp [parametersOf, readParameters_succ, hcomma]
  have hone := parametersOf_annotated hstart hcolon hts hends
  rw [hvalue, hskip] at hone
  simpa using hone

theorem AnnotationSite.topLevel {f : FunctionStart} {front behind rest : List Token}
    {signature : DeclaredType → Signature} (h : AnnotationSite f front behind signature rest)
    (hend : f.name = none → continuesExpression (readBody rest).2 = false) {lead : List Lexeme}
    {a : DeclaredType} {ts : List Token} (hts : TypeTokens lead a ts) :
    (treeOfTokens true (front ++ (ts ++ behind))).topLevel =
      f.earlier ++ ⟨f.comments, signature a⟩ :: declarationsBehind (readBody rest).2 := by
  cases h with
  | @result inner _ c colon hinner hc hcolon hbehind =>
    have hresult := readResult_typeTokens hcolon hts hbehind true
    have htop := f.topLevel hinner.balanced hc (colon :: (ts ++ behind)) (by rwa [hresult])
    rw [hresult] at htop
    simpa using htop
  | @parameter inner start value behind ps n colon c hinner hps hstart hcolon hvalue hends hc =>
    have hbalanced : Balanced (inner ++ (start ++ colon :: (ts ++ value))) := by
      have hkind := (Token.isMark_iff.mp hcolon).1
      exact hinner.balanced.append (hstart.closed.balanced.append
        ((hts.balanced.append hvalue.balanced).cons (by simp [hkind]) (by simp [hkind])))
    have htop := f.topLevel hbalanced hc behind hend
    rw [hps, parametersOf_annotated hstart hcolon hts hends] at htop
    simpa using htop

end ScriptManifest.Source

namespace ScriptManifest

open Source

/-- A type placed by its text as an annotation, of a parameter or of the result of a function, is
read back: the declaration has the signature in which exactly that type stands in that place. -/
theorem annotation_is_read_back {d : Dialect} (hd : d.isTyped = true) {a : DeclaredType}
    (ha : Built a) {source : String} {us : List Lexeme} {back : List Char}
    (hplace : StandsIn d source us a.text back) {f : FunctionStart}
    {signature : DeclaredType → Signature} {rest : List Token}
    (hsite : AnnotationSite f (Token.ofLexemes us) (tokensBehind d source us a.text) signature rest)
    (hend : f.name = none → continuesExpression (readBody rest).2 = false) :
    (parse d source).declarations =
      f.earlier ++ ⟨f.comments, signature a⟩ :: declarationsBehind (readBody rest).2 := by
  obtain ⟨lead, ts, hts, htokens⟩ := hplace.tokensOf_eq ha.isPlain
  rw [declarations_parse, parse, hd, htokens]
  exact hsite.topLevel hend hts

def pickScript : String :=
  "let i;\n/***/\nfunction f(a?: any, ...b: M<void, o.C[]>[]): P<A<o.R<any>>> \x7b\x7d"

def cellsType : DeclaredType :=
  .arrayOf (.reference "M" [.ofKeyword "void", .arrayOf (.reference "o.C" [])])

def pickType : DeclaredType := .reference "P" [.reference "A" [.reference "o.R" [.ofKeyword "any"]]]

theorem built_cellsType : Built cellsType := by
  have hname : IsQualifiedName ("o" ++ "." ++ "C") := .member (.plain (by decide)) (by decide)
  have hcell : Built (.reference "o.C" []) := .reference hname (by simp)
  refine .array (.reference (.plain (by decide)) ?_)
  simpa using ⟨.keyword (by decide), .array hcell⟩

theorem built_pickType : Built pickType := by
  have hname : IsQualifiedName ("o" ++ "." ++ "R") := .member (.plain (by decide)) (by decide)
  have hrow : Built (.reference "o.R" [.ofKeyword "any"]) :=
    .reference hname (by simpa using .keyword (by decide))
  refine .reference (.plain (by decide)) ?_
  simpa using .reference (.plain (by decide)) (by simpa using hrow)

def pickStart : FunctionStart where
  pre := [⟨[], .word, "let"⟩, ⟨[blank], .word, "i"⟩, ⟨[], .mark, ";"⟩]
  first := ⟨[newline, ⟨.comment, "/***/"⟩, newline], .word, "function"⟩
  front := [⟨[blank], .word, "f"⟩, ⟨[], .opener, "("⟩]
  name := some "f"
  items := _
  before := _
  passes := passes_plain (by decide) {} _
  admits := by decide
  opens :=
    have hname : NamesFunction false (some "f") [⟨[blank], .word, "f"⟩] :=
      @NamesFunction.named false ⟨[blank], .word, "f"⟩ rfl
    .mk (.introduced .plain (.plain rfl)) hname (rfl : isTypeParameters [] = true) rfl

def firstTokens : List Token :=
  [⟨[], .word, "a"⟩, ⟨[], .mark, "?"⟩] ++ ⟨[], .mark, ":"⟩ ::
    ([⟨[blank], .word, "any"⟩] ++ [⟨[], .mark, ","⟩])

def cellsStart : List Token := [⟨[blank], .mark, "..."⟩, ⟨[], .word, "b"⟩]

def cellsTokens : List Token :=
  [⟨[blank], .word, "M"⟩, ⟨[], .mark, "<"⟩, ⟨[], .word, "void"⟩, ⟨[], .mark, ","⟩,
    ⟨[blank], .word, "o"⟩, ⟨[], .mark, "."⟩, ⟨[], .word, "C"⟩, ⟨[], .opener, "["⟩,
    ⟨[], .closer, "]"⟩, ⟨[], .mark, ">"⟩, ⟨[], .opener, "["⟩, ⟨[], .closer, "]"⟩]

def resultTokens : List Token :=
  [⟨[blank], .word, "P"⟩, ⟨[], .mark, "<"⟩, ⟨[], .word, "A"⟩, ⟨[], .mark, "<"⟩, ⟨[], .word, "o"⟩,
    ⟨[], .mark, "."⟩, ⟨[], .word, "R"⟩, ⟨[], .mark, "<"⟩, ⟨[], .word, "any"⟩, ⟨[], .mark, ">"⟩,
    ⟨[], .mark, ">"⟩, ⟨[], .mark, ">"⟩]

def innerTokens : List Token := firstTokens ++ (cellsStart ++ ⟨[], .mark, ":"⟩ :: cellsTokens)

def bodyTokens : List Token := [⟨[blank], .opener, "\x7b"⟩, ⟨[], .closer, "\x7d"⟩]

theorem lexemes_pickScript :
    lexemes .typeScript pickScript = lexemesOf (pickStart.tokens ++ (innerTokens ++
      ⟨[], .closer, ")"⟩ :: ⟨[], .mark, ":"⟩ :: (resultTokens ++ bodyTokens))) := by
  decide +kernel

theorem tokensOf_pickScript :
    tokensOf .typeScript pickScript = pickStart.tokens ++ (innerTokens ++
      ⟨[], .closer, ")"⟩ :: ⟨[], .mark, ":"⟩ :: (resultTokens ++ bodyTokens)) := by
  rw [tokensOf, lexemes_pickScript]
  decide +kernel

theorem passesParameters_firstTokens :
    PassesParameters firstTokens [⟨"a", some (.ofKeyword "any")⟩] := by
  have hpattern : IsPattern [⟨[], .word, "a"⟩] := .word rfl
  have hstart : ParameterStart "a" [⟨[], .word, "a"⟩, ⟨[], .mark, "?"⟩] := .optional hpattern rfl
  have hany : TypeTokens [blank] (.ofKeyword "any") [⟨[blank], .word, "any"⟩] :=
    .keyword (by decide)
  exact passesParameters_annotated hstart rfl rfl hany

def cellsFront : List Lexeme :=
  lexemesOf (pickStart.tokens ++ (firstTokens ++ (cellsStart ++ [⟨[], .mark, ":"⟩]))) ++ [blank]

def resultFront : List Lexeme :=
  lexemesOf (pickStart.tokens ++ (innerTokens ++ [⟨[], .closer, ")"⟩, ⟨[], .mark, ":"⟩])) ++ [blank]

theorem closed_tokens {ts us : List Token} (h : ∀ t ∈ ts, t.kind ≠ .opener ∧ t.kind ≠ .closer)
    (hus : Closed us) : Closed (ts ++ us) := by
  induction ts with
  | nil => exact hus
  | cons t ts ih =>
    rw [List.forall_mem_cons] at h
    exact .token h.1.1 h.1.2 (ih h.2)

theorem parameterSite_pick :
    ∃ result rest, AnnotationSite pickStart (Token.ofLexemes cellsFront)
      (tokensBehind .typeScript pickScript cellsFront cellsType.text)
      (fun a => ⟨some "f", [⟨"a", some (.ofKeyword "any")⟩, ⟨"b", some a⟩], result⟩) rest := by
  have hpattern : IsPattern [⟨[], .word, "b"⟩] := .word rfl
  have hstart : ParameterStart "b" cellsStart := .rest rfl hpattern
  have hinner : Closed (firstTokens ++ []) := closed_tokens (by decide) .nil
  have hfront : Token.ofLexemes cellsFront =
      pickStart.tokens ++ (firstTokens ++ (cellsStart ++ [⟨[], .mark, ":"⟩])) := by
    decide +kernel
  have hbehind : tokensBehind .typeScript pickScript cellsFront cellsType.text =
      [] ++ ⟨[], .closer, ")"⟩ :: ⟨[], .mark, ":"⟩ :: (resultTokens ++ bodyTokens) := by
    rw [tokensBehind, tokensOf_pickScript]
    decide +kernel
  rw [hfront, hbehind]
  exact ⟨_, _, .parameter hinner passesParameters_firstTokens hstart rfl .nil
    (by simp [EndsPattern]) rfl⟩

theorem resultSite_pick :
    ∃ ps rest, AnnotationSite pickStart (Token.ofLexemes resultFront)
      (tokensBehind .typeScript pickScript resultFront pickType.text)
      (fun a => ⟨some "f", ps, some a⟩) rest := by
  have hfront : Token.ofLexemes resultFront =
      pickStart.tokens ++ (innerTokens ++ [⟨[], .closer, ")"⟩, ⟨[], .mark, ":"⟩]) := by
    decide +kernel
  have hbehind : tokensBehind .typeScript pickScript resultFront pickType.text = bodyTokens := by
    rw [tokensBehind, tokensOf_pickScript]
    decide +kernel
  have hbrackets : ∀ {ts : List Token}, Closed ts →
      Closed (⟨[], .opener, "["⟩ :: ⟨[], .closer, "]"⟩ :: ts) :=
    fun h => @Closed.group _ _ [] _ rfl rfl .nil h
  have hsplit : innerTokens = innerTokens.take 15 ++ ⟨[], .opener, "["⟩ :: ⟨[], .closer, "]"⟩ ::
      ([⟨[], .mark, ">"⟩] ++ [⟨[], .opener, "["⟩, ⟨[], .closer, "]"⟩]) := by
    decide
  have hinner : Closed innerTokens := by
    rw [hsplit]
    exact closed_tokens (by decide) (hbrackets (closed_tokens (by decide) (hbrackets .nil)))
  rw [hfront, hbehind]
  exact ⟨_, _, .result hinner rfl rfl (endsType_body [blank] _)⟩

theorem annotation_is_read_back_pickScript :
    Built cellsType ∧ Built pickType ∧
      (∃ result more, (parse .typeScript pickScript).declarations =
        pickStart.earlier ++ ⟨pickStart.comments, ⟨some "f",
          [⟨"a", some (.ofKeyword "any")⟩, ⟨"b", some cellsType⟩], result⟩⟩ :: more) ∧
      ∃ ps more, (parse .typeScript pickScript).declarations =
        pickStart.earlier ++ ⟨pickStart.comments, ⟨some "f", ps, some pickType⟩⟩ :: more := by
  have hcells : StandsIn .typeScript pickScript cellsFront cellsType.text
      (')' :: ": P<A<o.R<any>>> \x7b\x7d".toList) := by
    refine ⟨by decide +kernel, ?_, by decide +kernel, by decide +kernel,
      endsName_of_not_isNameChar (by decide) _⟩
    rw [lexemes_pickScript]
    decide +kernel
  have hpick : StandsIn .typeScript pickScript resultFront pickType.text
      [' ', '\x7b', '\x7d'] := by
    refine ⟨by decide +kernel, ?_, by decide +kernel, by decide +kernel,
      endsName_of_not_isNameChar (by decide) _⟩
    rw [lexemes_pickScript]
    decide +kernel
  obtain ⟨result, rest, hparameter⟩ := parameterSite_pick
  obtain ⟨ps, rest', hresult⟩ := resultSite_pick
  have hname : pickStart.name ≠ none := by simp [pickStart]
  exact ⟨built_cellsType, built_pickType,
    ⟨result, _, annotation_is_read_back rfl built_cellsType hcells hparameter (fun h => (hname h).elim)⟩,
    ps, _, annotation_is_read_back rfl built_pickType hpick hresult (fun h => (hname h).elim)⟩

end ScriptManifest
