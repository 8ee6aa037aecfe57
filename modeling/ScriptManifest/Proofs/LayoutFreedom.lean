import ScriptManifest.Proofs.LayoutInsertion
import ScriptManifest.Proofs.SignatureLayout
import ScriptManifest.Proofs.TypeSpelling

/-!
Layout inside signatures. A `SignatureSite` is a function declaration in its source, part by part.
Layout put into the gaps of its parameters and of its result changes neither the names of the
parameters nor the shapes of the annotations, and a declaration that was accepted is accepted with
the same record (`layout_keeps_signature`). A line break in front of a bracket that goes on with the
result itself ends the declaration (`line_break_ends_result`); inside of the result it does not.
-/

namespace ScriptManifest.Source

theorem saysMore_of_mem_bracketTexts {s : String} (h : s ∈ bracketTexts) : SaysMore s := by
  have hall : ∀ s ∈ bracketTexts,
      (s.toList.any fun c => !Text.isBlank c && c ∉ "void".toList) = true := by
    decide +kernel
  obtain ⟨c, hmem, hc⟩ := List.any_eq_true.mp (hall s h)
  exact ⟨c, hmem, by simpa using hc⟩

theorem openersTell_tokensOf (source : String) : OpenersTell (tokensOf .typeScript source) := by
  intro t ht hk
  have hmem := (lexeme_of_mem_ofLexemesAfter ht).1
  exact saysMore_of_mem_bracketTexts (opener_of_mem_lexemes hmem hk)

theorem tokensOf_eq_typeScript {d : Dialect} (hd : d.isTyped = true) {source : String}
    (hplain : d.hasMarkup = true → IsPlainSource source) :
    tokensOf d source = tokensOf .typeScript source := by
  cases d with
  | typeScript => rfl
  | tsx =>
    have h := hplain rfl
    rw [tokensOf_eq_of_plain .tsx h, tokensOf_eq_of_plain .typeScript h]
  | javaScript | jsx => cases hd

/-! ### Declarations in their sources -/

/-- A function declaration and what is around it: its start, its parameters, the parenthesis that
closes them, the annotation of its result, if there is one, and all that follows. -/
structure SignatureSite where
  start : FunctionStart
  inner : List Token
  innerGaps : List Gap
  closer : Token
  result : List Token
  post : List Token
  parameters : ParameterGaps inner innerGaps
  closes : closer.kind = .closer
  annotates : (readResult true (result ++ post)).2 = post
  complete : start.name = none → continuesExpression (readBody post).2 = false

namespace SignatureSite

def tokens (s : SignatureSite) : List Token :=
  s.start.tokens ++ (s.inner ++ s.closer :: (s.result ++ s.post))

/-- The places where a square bracket goes on with the result itself, each as the number of tokens
from there to the end. -/
def held (s : SignatureSite) (n : Nat) : Bool := (resultStops (s.result ++ s.post)).contains n

/-- What may be put in front of each token: nothing outside of the signature. -/
def gaps (s : SignatureSite) : List Gap :=
  s.start.tokens.map (fun _ => .fixed) ++ (s.innerGaps ++ .free ::
    (gapsOf (fun n => s.held (n + s.post.length)) s.closer s.result ++ s.post.map fun _ => .fixed))

def signature (s : SignatureSite) : Signature :=
  ⟨s.start.name, parametersOf s.inner, (readResult true (s.result ++ s.post)).1⟩

def declaration (s : SignatureSite) : Declaration := ⟨s.start.comments, s.signature⟩

def later (s : SignatureSite) : List Declaration := declarationsBehind (readBody s.post).2

theorem length_gaps (s : SignatureSite) : s.gaps.length = s.tokens.length := by
  simp [gaps, tokens, s.parameters.length]

theorem declarations_parse_eq (s : SignatureSite) {d : Dialect} (hd : d.isTyped = true)
    {source : String} (h : tokensOf d source = s.tokens) :
    (parse d source).declarations = s.start.earlier ++ s.declaration :: s.later := by
  have htop := s.start.topLevel s.parameters.closed.balanced s.closes (s.result ++ s.post)
    (by rw [s.annotates]; exact s.complete)
  rw [s.annotates] at htop
  rw [declarations_parse, parse, hd, h]
  exact htop

structure Alike (s s' : SignatureSite) : Prop where
  start : s'.start = s.start
  post : s'.post = s.post
  shape : s'.signature.shape = s.signature.shape
  void : s'.signature.result.map DeclaredType.isVoid = s.signature.result.map DeclaredType.isVoid

theorem exists_alike (s : SignatureSite) {ts : List Token} (h : Respects s.gaps s.tokens ts)
    (htell : OpenersTell s.tokens) : ∃ s', s'.tokens = ts ∧ Alike s s' := by
  rw [gaps, tokens] at h
  obtain ⟨front, _, rfl, hfront, h⟩ := h.append_cases (by simp)
  obtain ⟨inner, _, rfl, hinner, h⟩ := h.append_cases s.parameters.length
  cases h with
  | @cons _ _ closer _ _ _ hcloser hbehind =>
    obtain ⟨result, post, rfl, hresult, hpost⟩ := hbehind.append_cases (by simp)
    obtain rfl := hfront.eq_of_fixed
    obtain rfl := hpost.eq_of_fixed
    have hrelaid := hresult.relaid
    obtain ⟨hparameters, hshapes⟩ := s.parameters.respects hinner
    have hheld : true = true → ∀ n ∈ resultStops (s.result ++ s.post), s.held n = true := by
      simp [held]
    obtain ⟨hshape, hrest⟩ := readResult_respects hrelaid hheld s.annotates
    have hsuffix : s.result ++ s.post <:+ s.tokens :=
      (List.suffix_cons _ _).trans ((List.suffix_append _ _).trans (List.suffix_append _ _))
    have hvoid := isVoid_relaid hrelaid.append_same hheld (htell.suffix hsuffix)
    refine ⟨⟨s.start, inner, s.innerGaps, closer, result, s.post, hparameters,
      (kind_of_bare hcloser).trans s.closes, hrest, s.complete⟩, rfl, rfl, rfl, ?_, hvoid⟩
    simp only [signature, Signature.shape, hshapes, hshape]

end SignatureSite

end ScriptManifest.Source

namespace ScriptManifest

open Source

/-- Layout put into a signature leaves the names of its parameters and the shapes of its annotations
as they are, and a declaration that was accepted is accepted with the same record. -/
theorem layout_keeps_signature {d : Dialect} (hd : d.isTyped = true) {source source' : String}
    (hplain : d.hasMarkup = true → IsPlainSource source ∧ IsPlainSource source')
    {s : SignatureSite} (hs : tokensOf d source = s.tokens) (h : Respaced s.gaps source source') :
    ∃ signature', (parse d source).declarations = s.start.earlier ++ s.declaration :: s.later ∧
      (parse d source').declarations =
        s.start.earlier ++ ⟨s.start.comments, signature'⟩ :: s.later ∧
      signature'.shape = s.signature.shape ∧
      ∀ r, s.declaration.documented.outcome = .accepted r →
        (⟨s.start.comments, signature'⟩ : Declaration).documented.outcome = .accepted r := by
  have htokens := tokensOf_eq_typeScript hd fun hm => (hplain hm).1
  have htokens' := tokensOf_eq_typeScript hd fun hm => (hplain hm).2
  rw [hs] at htokens
  have hrespects := h.respects (by rw [← htokens, s.length_gaps])
  rw [← htokens, ← htokens'] at hrespects
  obtain ⟨s', hs', halike⟩ := s.exists_alike hrespects (htokens ▸ openersTell_tokensOf source)
  have hdeclarations := s'.declarations_parse_eq hd hs'.symm
  rw [SignatureSite.declaration, SignatureSite.later, halike.start, halike.post] at hdeclarations
  refine ⟨s'.signature, s.declarations_parse_eq hd hs, hdeclarations, halike.shape, fun r hr => ?_⟩
  apply Outcome.eq_accepted_of_record?
  have hrecord : s.declaration.documented.outcome.record? = some r := by rw [hr, record?_accepted]
  rw [← hrecord]
  exact Documented.record?_of_sameShape ⟨rfl, halike.shape, halike.void⟩

def gridScript : String :=
  "/** @customfunction */\nfunction f(a: number, b?: string[][], c = x as Foo<A, B>[]): " ++
    "Promise<number[][]> \x7b\x7d"

def gridStart : FunctionStart where
  pre := []
  first := ⟨[⟨.comment, "/** @customfunction */"⟩, newline], .word, "function"⟩
  front := [⟨[blank], .word, "f"⟩, ⟨[], .opener, "("⟩]
  name := some "f"
  items := _
  before := _
  passes := passes_nil {} _
  admits := by decide
  opens :=
    have hname : NamesFunction false (some "f") [⟨[blank], .word, "f"⟩] :=
      @NamesFunction.named false ⟨[blank], .word, "f"⟩ rfl
    .mk (.introduced .plain (.plain rfl)) hname (rfl : isTypeParameters [] = true) rfl

def gridTokens : List Token :=
  [⟨[blank], .word, "string"⟩, ⟨[], .opener, "["⟩, ⟨[], .closer, "]"⟩, ⟨[], .opener, "["⟩,
    ⟨[], .closer, "]"⟩]

theorem typeTokens_gridTokens :
    TypeTokens [blank] (.arrayOf (.arrayOf (.ofKeyword "string"))) gridTokens :=
  .array (.array (.keyword (by decide)))

def gridValue : List Token :=
  [⟨[blank], .mark, "="⟩, ⟨[blank], .word, "x"⟩, ⟨[blank], .word, "as"⟩, ⟨[blank], .word, "Foo"⟩,
    ⟨[], .mark, "<"⟩, ⟨[], .word, "A"⟩, ⟨[], .mark, ","⟩, ⟨[blank], .word, "B"⟩, ⟨[], .mark, ">"⟩,
    ⟨[], .opener, "["⟩, ⟨[], .closer, "]"⟩]

def gridInner : List Token :=
  ⟨[], .word, "a"⟩ :: ⟨[], .mark, ":"⟩ :: ⟨[blank], .word, "number"⟩ :: ⟨[], .mark, ","⟩ ::
    ⟨[blank], .word, "b"⟩ :: ⟨[], .mark, "?"⟩ :: ⟨[], .mark, ":"⟩ ::
    (gridTokens ++ ⟨[], .mark, ","⟩ :: ⟨[blank], .word, "c"⟩ :: gridValue)

theorem isTypedValue_gridValue : IsTypedValue gridValue := by
  have hcomma : Token.isMark "," ⟨[], .mark, ","⟩ = true := rfl
  have htypes : BracketedTypes 1 [⟨[], .word, "A"⟩, ⟨[], .mark, ","⟩, ⟨[blank], .word, "B"⟩,
      ⟨[], .mark, ">"⟩] :=
    .operand (.inl rfl) (.joint hcomma (by decide) (.operand (.inl rfl) (.close rfl .nil)))
  have hbrackets : IsTypedValue [⟨[], .opener, "["⟩, ⟨[], .closer, "]"⟩] :=
    @IsTypedValue.group _ _ [] [] rfl rfl .nil .nil
  have hcast : IsTypedValue (⟨[], .mark, "<"⟩ :: (_ ++ _)) := .types rfl htypes hbrackets
  exact .token (by decide) (by decide) rfl rfl (.token (by decide) (by decide) rfl rfl
    (.token (by decide) (by decide) rfl rfl (.token (by decide) (by decide) rfl rfl hcast)))

theorem parameterGaps_gridInner : ParameterGaps gridInner (gridInner.map fun _ => .free) := by
  have hnumber : TypeTokens [blank] (.ofKeyword "number") [⟨[blank], .word, "number"⟩] :=
    .keyword (by decide)
  have hbrackets : ∀ {ts : List Token}, Closed ts →
      Closed (⟨[], .opener, "["⟩ :: ⟨[], .closer, "]"⟩ :: ts) :=
    fun h => @Closed.group _ _ [] _ rfl rfl .nil h
  have hgrid : Closed gridTokens := .token (by decide) (by decide) (hbrackets (hbrackets .nil))
  have hfirst : AnnotationGaps _ [⟨[], .mark, ":"⟩, ⟨[blank], .word, "number"⟩] _ :=
    .type rfl (.token (by decide) (by decide) .nil) (annotates_typeTokens rfl hnumber)
  have hsecond : AnnotationGaps _ (⟨[], .mark, ":"⟩ :: gridTokens) _ :=
    .type rfl hgrid (annotates_typeTokens rfl typeTokens_gridTokens)
  have hname : IsPattern [⟨[], .word, "a"⟩] := .word rfl
  have hname' : IsPattern [⟨[blank], .word, "b"⟩] := .word rfl
  have hname'' : IsPattern [⟨[blank], .word, "c"⟩] := .word rfl
  have hmark : Token.isMark "?" ⟨[], .mark, "?"⟩ = true := rfl
  have hcomma : Token.isMark "," ⟨[], .mark, ","⟩ = true := rfl
  have hends : EndsPattern (gridValue ++ []) := by simp [EndsPattern, gridValue, Token.isMark]
  have hvalue : Source.dropValue true 0 0 (gridValue ++ []) = [] :=
    isTypedValue_gridValue.dropValue (by simp)
  have hlast : ParameterGaps _ _ :=
    .parameter (.plain hname'') .none isTypedValue_gridValue.closed hends hvalue .nil
  have hmiddle : ParameterGaps _ _ :=
    .parameter (.optional hname' hmark) hsecond .nil (by simp [EndsPattern, hcomma]) rfl
      (.comma hcomma hlast)
  have hall : ParameterGaps _ _ :=
    .parameter (.plain hname) hfirst .nil (by simp [EndsPattern, hcomma]) rfl (.comma hcomma hmiddle)
  exact hall

def gridResult : List Token :=
  [⟨[], .mark, ":"⟩, ⟨[blank], .word, "Promise"⟩, ⟨[], .mark, "<"⟩, ⟨[], .word, "number"⟩,
    ⟨[], .opener, "["⟩, ⟨[], .closer, "]"⟩, ⟨[], .opener, "["⟩, ⟨[], .closer, "]"⟩, ⟨[], .mark, ">"⟩]

theorem readResult_gridResult (rest : List Token) :
    (readResult true (gridResult ++ ⟨[blank], .opener, "\x7b"⟩ :: rest)).2 =
      ⟨[blank], .opener, "\x7b"⟩ :: rest := by
  have hname : NameTokens [blank] "Promise" [⟨[blank], .word, "Promise"⟩] :=
    .word ⟨isWordText_cons (by decide) (by decide), by decide⟩
  have hnumber : TypeTokens [] (.ofKeyword "number") [⟨[], .word, "number"⟩] := .keyword (by decide)
  have hcolon : Token.isMark ":" ⟨[], .mark, ":"⟩ = true := rfl
  have hresult := readResult_typeTokens hcolon (.generic hname (.last (.array (.array hnumber))))
    (endsType_body [blank] rest) true
  exact congrArg Prod.snd hresult

def gridSite : SignatureSite where
  start := gridStart
  inner := gridInner
  innerGaps := gridInner.map fun _ => .free
  closer := ⟨[], .closer, ")"⟩
  result := gridResult
  post := [⟨[blank], .opener, "\x7b"⟩, ⟨[], .closer, "\x7d"⟩]
  parameters := parameterGaps_gridInner
  closes := rfl
  annotates := readResult_gridResult _
  complete := fun h => by cases h

theorem lexemes_gridScript : lexemes .typeScript gridScript = lexemesOf gridSite.tokens := by
  decide +kernel

theorem tokensOf_gridScript : tokensOf .typeScript gridScript = gridSite.tokens := by
  rw [tokensOf, lexemes_gridScript]
  decide +kernel

def gridInsertion : Insertion gridScript where
  before := lexemesOf (gridSite.tokens.take 35)
  blanks := []
  back := "[]> \x7b\x7d".toList
  first := '\n'
  more := '/' :: '*' :: (" rows ".toList ++ ['*', '/', ' '])
  spelled := by decide +kernel
  cut := by
    rw [lexemes_gridScript]
    decide +kernel
  started := by decide +kernel
  code := by decide +kernel
  isSpace_blanks := by simp
  isSpace_first := by decide
  layout := @IsLayout.comment " rows ".toList [' '] rfl (.blank (by decide) .nil)
  apart := by decide +kernel
  unheld := by
    rw [tokensOf_gridScript]
    decide +kernel

theorem layout_keeps_signature_gridScript :
    gridInsertion.text = "/** @customfunction */\n" ++
        "function f(a: number, b?: string[][], c = x as Foo<A, B>[]): " ++
        "Promise<number[]\n/* rows */ []> \x7b\x7d" ∧
      (∃ r, gridSite.declaration.documented.outcome = .accepted r) ∧
      ∃ signature', (parse .typeScript gridInsertion.text).declarations =
          gridSite.start.earlier ++ ⟨gridSite.start.comments, signature'⟩ :: gridSite.later ∧
        signature'.shape = gridSite.signature.shape ∧
        ∀ r, gridSite.declaration.documented.outcome = .accepted r →
          (⟨gridSite.start.comments, signature'⟩ : Declaration).documented.outcome =
            .accepted r := by
  have hgap : ∃ g ∈ gridSite.gaps[gridInsertion.index]?,
      g.takes gridInsertion.breaksLine = true := ⟨.free, by decide +kernel, rfl⟩
  obtain ⟨signature', -, hkept⟩ := layout_keeps_signature (d := .typeScript) rfl
    (fun h => by cases h) tokensOf_gridScript (.insert .refl gridInsertion hgap)
  refine ⟨by decide +kernel, ?_, signature', hkept⟩
  have hrecord : gridSite.declaration.documented.outcome.record?.isSome = true := by decide +kernel
  obtain ⟨r, hr⟩ := Option.isSome_iff_exists.mp hrecord
  exact ⟨r, Outcome.eq_accepted_of_record? hr⟩

def matrixScript : String := "/** @customfunction */\ndeclare function f(): number[][];"

def matrixTokens : List Token :=
  [⟨[⟨.comment, "/** @customfunction */"⟩, newline], .word, "declare"⟩, ⟨[blank], .word, "function"⟩,
    ⟨[blank], .word, "f"⟩, ⟨[], .opener, "("⟩, ⟨[], .closer, ")"⟩, ⟨[], .mark, ":"⟩,
    ⟨[blank], .word, "number"⟩, ⟨[], .opener, "["⟩, ⟨[], .closer, "]"⟩, ⟨[], .opener, "["⟩,
    ⟨[], .closer, "]"⟩, ⟨[], .mark, ";"⟩]

theorem lexemes_matrixScript : lexemes .typeScript matrixScript = lexemesOf matrixTokens := by
  decide +kernel

theorem tokensOf_matrixScript : tokensOf .typeScript matrixScript = matrixTokens := by
  rw [tokensOf, lexemes_matrixScript]
  decide +kernel

def matrixInsertion : Insertion matrixScript where
  before := lexemesOf (matrixTokens.take 9)
  blanks := []
  back := "[];".toList
  first := '\n'
  more := []
  spelled := by decide +kernel
  cut := by
    rw [lexemes_matrixScript]
    decide +kernel
  started := by decide +kernel
  code := by decide +kernel
  isSpace_blanks := by simp
  isSpace_first := by decide
  layout := .nil
  apart := by decide +kernel
  unheld := by
    rw [tokensOf_matrixScript]
    decide +kernel

/-- Behind a line break brackets do not go on with the type that ends a declaration: the result was
a matrix, and is an array that has no mapping. -/
theorem line_break_ends_result :
    matrixInsertion.text = "/** @customfunction */\ndeclare function f(): number[]\n[];" ∧
      (extract matrixScript "matrix.ts").errors = [] ∧
      (extract matrixScript "matrix.ts").functions.map (·.result) = [⟨.number, .matrix⟩] ∧
      (extract matrixInsertion.text "matrix.ts").errors = ["Invalid array type node: number"] ∧
      (extract matrixInsertion.text "matrix.ts").functions = [] := by
  exact ⟨by decide +kernel, by decide +kernel, by decide +kernel, by decide +kernel,
    by decide +kernel⟩

end ScriptManifest
