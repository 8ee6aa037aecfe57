import ScriptManifest.Proofs.AnnotationReading
import ScriptManifest.Proofs.LexemeStability
import ScriptManifest.Proofs.TokenLayout

/-!
Layout put into a source. An `Insertion` puts blanks, line breaks and comments at a point between two
lexemes of a source. The lexemes in front of the point and the ones behind it stay as they are, so
the tokens of the source change in what stands in front of one of them only
(`Insertion.tokensOf_cases`); a source that is `Respaced` has tokens that respect its gaps
(`Respaced.respects`).
-/

namespace ScriptManifest.Source

/-! ### Layout is cut into trivia -/

/-- Blanks, line breaks and comments between `/*` and `*/`. -/
inductive IsLayout : List Char → Prop
  | nil : IsLayout []
  | blank {c : Char} {cs : List Char} (hc : isSpace c = true) (h : IsLayout cs) : IsLayout (c :: cs)
  | comment {body cs : List Char} (hbody : StaysOpen body) (h : IsLayout cs) :
    IsLayout ('/' :: '*' :: (body ++ '*' :: '/' :: cs))

def spaceLexemes (ws : List Char) : List Lexeme :=
  if ws = [] then [] else [⟨.space, String.ofList ws⟩]

@[simp] theorem charactersOf_spaceLexemes (ws : List Char) : charactersOf (spaceLexemes ws) = ws := by
  rw [spaceLexemes]
  split
  · next h => simp [h, charactersOf]
  · simp [charactersOf]

theorem isTrivia_of_mem_spaceLexemes {ws : List Char} {x : Lexeme} (h : x ∈ spaceLexemes ws) :
    x.kind.isTrivia = true := by
  rw [spaceLexemes] at h
  split at h
  · cases h
  · rw [List.mem_singleton] at h
    rw [h]
    rfl

theorem any_endsLine_spaceLexemes (ws : List Char) :
    (spaceLexemes ws).any Lexeme.endsLine = ws.contains '\n' := by
  rw [spaceLexemes]
  split
  · next h => simp [h]
  · simp [Lexeme.endsLine]

theorem cuts_spaceLexemes (d : Dialect) {ws rest : List Char} (hws : ∀ c ∈ ws, isSpace c = true)
    (hrest : EndsSpace rest) : Cuts d (spaceLexemes ws) rest := by
  rw [spaceLexemes]
  split
  · exact cuts_nil d rest
  · next hne => exact cuts_space (by simpa using hne) (by simpa using hws) hrest

theorem endsSpace_dropWhile (cs : List Char) : EndsSpace (cs.dropWhile isSpace) := by
  intro c hc
  have hhead := List.head?_dropWhile_not isSpace cs
  rw [Option.mem_def.mp hc] at hhead
  simpa using hhead

theorem IsLayout.exists_trivia {layout : List Char} (h : IsLayout layout) (d : Dialect)
    (back : List Char) {ws : List Char} (hws : ∀ c ∈ ws, isSpace c = true) :
    ∃ trivia, (∀ x ∈ trivia, x.kind.isTrivia = true) ∧
      charactersOf trivia = ws ++ (layout ++ back.takeWhile isSpace) ∧
      (layout.any isLineBreak = false →
        trivia.any Lexeme.endsLine = (ws ++ back.takeWhile isSpace).contains '\n') ∧
      Cuts d trivia (back.dropWhile isSpace) := by
  induction h generalizing ws with
  | nil =>
    refine ⟨spaceLexemes (ws ++ back.takeWhile isSpace), fun x hx => isTrivia_of_mem_spaceLexemes hx,
      by simp, fun _ => any_endsLine_spaceLexemes _, cuts_spaceLexemes d ?_ (endsSpace_dropWhile back)⟩
    intro c hc
    obtain hc | hc := List.mem_append.mp hc
    · exact hws c hc
    · exact List.all_eq_true.mp List.all_takeWhile c hc
  | @blank c cs hc _ ih =>
    have hws' : ∀ x ∈ ws ++ [c], isSpace x = true := by
      simpa [or_imp, forall_and] using ⟨hws, hc⟩
    obtain ⟨trivia, htrivia, hcharacters, hends, hcuts⟩ := ih hws'
    refine ⟨trivia, htrivia, by simpa using hcharacters, fun hbreak => ?_, hcuts⟩
    rw [List.any_cons, Bool.or_eq_false_iff] at hbreak
    have hc : c ≠ '\n' := by
      rintro rfl
      exact absurd hbreak.1 (by decide)
    simp [hends hbreak.2, hc.symm]
  | @comment body cs hbody _ ih =>
    obtain ⟨trivia, htrivia, hcharacters, hends, hcuts⟩ := @ih [] (by simp)
    have hcomment : IsComment (String.ofList ('/' :: '*' :: body ++ ['*', '/'])) :=
      ⟨body, hbody, String.toList_ofList⟩
    refine ⟨spaceLexemes ws ++
      (⟨.comment, String.ofList ('/' :: '*' :: body ++ ['*', '/'])⟩ :: trivia), ?_, ?_, ?_, ?_⟩
    · intro x hx
      obtain hx | hx := List.mem_append.mp hx
      · exact isTrivia_of_mem_spaceLexemes hx
      · obtain rfl | hx := List.mem_cons.mp hx
        · rfl
        · exact htrivia x hx
    · rw [charactersOf_append, charactersOf_cons, hcharacters]
      simp
    · intro hbreak
      have hrest : cs.any isLineBreak = false := by
        simp only [List.any_cons, List.any_append, Bool.or_eq_false_iff] at hbreak
        exact hbreak.2.2.2.2.2
      have hno : Lexeme.endsLine ⟨.comment, String.ofList ('/' :: '*' :: body ++ ['*', '/'])⟩ =
          false := rfl
      rw [List.any_append, any_endsLine_spaceLexemes, List.any_cons, hends hrest, hno]
      simp
    · refine (cuts_spaceLexemes d hws ?_).append ((cuts_comment hcomment _).append hcuts)
      simp [EndsSpace, charactersOf_cons, show isSpace '/' = false by decide]

/-! ### Line breaks in front of a token -/

def breaksLine (xs : List Lexeme) : Bool := (charactersOf xs).any isLineBreak

theorem breaksLine_append (xs ys : List Lexeme) :
    breaksLine (xs ++ ys) = (breaksLine xs || breaksLine ys) := by
  rw [breaksLine, charactersOf_append, List.any_append, breaksLine, breaksLine]

theorem startsLine_eq (t : Token) : t.startsLine = breaksLine t.lead := by
  rw [Token.startsLine, breaksLine, charactersOf, List.any_flatMap]

theorem afterAll_trivia {xs : List Lexeme} (h : ∀ x ∈ xs, x.kind.isTrivia = true) (p : Place) :
    p.afterAll xs = { p with lineBreak := p.lineBreak || breaksLine xs } := by
  induction xs generalizing p with
  | nil => simp [breaksLine, charactersOf]
  | cons x xs ih =>
    rw [List.forall_mem_cons] at h
    rw [afterAll_cons, ih h.2, Place.after, if_pos h.1]
    simp [breaksLine, charactersOf_cons, Bool.or_assoc]

/-- Marks in front of which no line may end, unless an operand starts with them. -/
def heldMarks : List String := ["++", "--", "!"]

theorem ofLexemesAfter_cases (ys : List Lexeme) :
    (∀ lead, Token.ofLexemesAfter lead ys = []) ∨
      ∃ trivia kind text ts, ∀ lead,
        Token.ofLexemesAfter lead ys = ⟨lead ++ trivia, kind, text⟩ :: ts := by
  induction ys with
  | nil => exact .inl fun _ => rfl
  | cons y ys ih =>
    by_cases hy : y.kind.isTrivia = true
    · have hstep : ∀ lead, Token.ofLexemesAfter lead (y :: ys) =
          Token.ofLexemesAfter (lead ++ [y]) ys := by
        intro lead
        rw [Token.ofLexemesAfter, if_pos hy]
      obtain hnil | ⟨trivia, kind, text, ts, hcons⟩ := ih
      · exact .inl fun lead => by rw [hstep, hnil]
      · refine .inr ⟨y :: trivia, kind, text, ts, fun lead => ?_⟩
        rw [hstep, hcons, List.append_assoc, List.singleton_append]
    · refine .inr ⟨[], y.kind, y.text, Token.ofLexemes ys, fun lead => ?_⟩
      rw [Token.ofLexemesAfter, if_neg hy, List.append_nil, Token.ofLexemes]

def Place.AdmitsBreak (p : Place) (xs : List Lexeme) : Prop :=
  p.operand = true ∨ ∀ t ∈ (Token.ofLexemes xs).head?, t.kind = .mark → t.text ∉ heldMarks

theorem Place.AdmitsBreak.trivia {p : Place} {x : Lexeme} {xs : List Lexeme}
    (h : p.AdmitsBreak (x :: xs)) (hx : x.kind.isTrivia = true) : (p.after x).AdmitsBreak xs := by
  rw [Place.after, if_pos hx]
  obtain hoperand | hfirst := h
  · exact .inl hoperand
  · right
    rw [Token.ofLexemes, Token.ofLexemesAfter, if_pos hx] at hfirst
    obtain hnil | ⟨trivia, kind, text, ts, hcons⟩ := ofLexemesAfter_cases xs
    · simp [Token.ofLexemes, hnil]
    · rw [hcons] at hfirst
      rw [Token.ofLexemes, hcons]
      simpa using hfirst

theorem Place.AdmitsBreak.code {p : Place} {x : Lexeme} {xs : List Lexeme}
    (h : p.AdmitsBreak (x :: xs)) (hx : x.kind.isTrivia = false) :
    p.operand = true ∨ (x.kind = .mark → x.text ∉ heldMarks) := by
  obtain hoperand | hfirst := h
  · exact .inl hoperand
  · rw [Token.ofLexemes, Token.ofLexemesAfter, if_neg (by simp [hx])] at hfirst
    exact .inr (hfirst _ rfl)

theorem after_broken {p : Place} {x : Lexeme} {xs : List Lexeme} (h : p.AdmitsBreak (x :: xs))
    (hx : x.kind.isTrivia = false) : Place.after { p with lineBreak := true } x = p.after x := by
  have hcode := h.code hx
  obtain ⟨kind, text⟩ := x
  rw [Place.after, Place.after, if_neg (by simp [hx]), if_neg (by simp [hx])]
  cases kind with
  | mark =>
    obtain hoperand | hmark := hcode
    · simp only [Place.afterToken, hoperand, Bool.true_or]
    · have hheld := hmark rfl
      simp only [heldMarks, List.mem_cons, List.not_mem_nil, or_false, not_or] at hheld
      simp only [Place.afterToken]
      split
      · exact (hheld.1 rfl).elim
      · exact (hheld.2.1 rfl).elim
      · exact (hheld.2.2 rfl).elim
      · rfl
      · rfl
  | _ => rfl

theorem after_trivia_broken {p : Place} {x : Lexeme} (hx : x.kind.isTrivia = true) :
    Place.after { p with lineBreak := true } x = { p.after x with lineBreak := true } := by
  rw [Place.after, Place.after, if_pos hx, if_pos hx, Bool.true_or]

theorem next_of_arrow {p : Place} (hp : p.inCode = true) (hoperand : p.operand = false)
    (hline : p.lineBreak = false) (d : Dialect) {cs : List Char}
    (h : "-->".toList.isPrefixOf cs = true) : p.next d cs = (.mark, 2) := by
  obtain ⟨rest, rfl⟩ := List.isPrefixOf_iff_prefix.mp h
  have hclose := closing?_ne (c := '-') (by decide) p
  change p.next d ('-' :: '-' :: '>' :: rest) = _
  rw [next_of_inCode hp, nextInCode_cons (by decide)]
  simp [isSpace, isNameStart, isNameChar, isPunctuation, hclose, hoperand, hline, markLength,
    longMarks]

theorem next_broken {p : Place} (hp : p.inCode = true) {d : Dialect} {cs : List Char}
    {xs : List Lexeme} (h : p.AdmitsBreak (p.cut d cs :: xs)) :
    Place.next d { p with lineBreak := true } cs = p.next d cs := by
  have hbroken : Place.inCode { p with lineBreak := true } = true := hp
  by_cases hline : p.lineBreak = true
  · rw [← hline]
  have hcases : p.operand = true ∨ "-->".toList.isPrefixOf cs = false := by
    by_contra hno
    simp only [not_or, Bool.not_eq_true, Bool.not_eq_false] at hno hline
    -- the arrow would start with a mark that is held
    have hnext := next_of_arrow hp hno.1 hline d hno.2
    obtain ⟨rest, rfl⟩ := List.isPrefixOf_iff_prefix.mp hno.2
    have hcut : p.cut d ("-->".toList ++ rest) = ⟨.mark, "--"⟩ := by
      rw [Place.cut, hnext]
      rfl
    rw [hcut] at h
    obtain hoperand | hheld := h.code rfl
    · simp [hno.1] at hoperand
    · exact hheld rfl (by decide)
  rw [next_of_inCode hp, next_of_inCode hbroken]
  unfold Place.nextInCode
  split
  · rfl
  · rfl
  · rfl
  · obtain hoperand | harrow := hcases
    · simp only [hoperand, Bool.true_or]
    · simp only [harrow, Bool.and_false]

theorem lexAll_broken {d : Dialect} {p : Place} (hp : p.inCode = true) (cs : List Char)
    (h : p.AdmitsBreak (lexAll d p cs)) :
    lexAll d { p with lineBreak := true } cs = lexAll d p cs := by
  induction hn : cs.length using Nat.strong_induction_on generalizing p cs with
  | _ n ih =>
    subst hn
    by_cases hcs : cs = []
    · rw [hcs, lexAll_nil, lexAll_nil]
    have hlt : (cs.drop (max (p.next d cs).2 1)).length < cs.length := by
      have hpos : 0 < cs.length := List.length_pos_iff.mpr hcs
      rw [List.length_drop]
      omega
    rw [lexAll_cut d p hcs] at h
    have hnext := next_broken hp h
    have hcut : Place.cut d { p with lineBreak := true } cs = p.cut d cs := by
      rw [Place.cut, Place.cut, hnext]
    rw [lexAll_cut d p hcs, lexAll_cut d _ hcs, hcut, hnext]
    by_cases htrivia : (p.cut d cs).kind.isTrivia = true
    · have hcode := inCode_of_frames_eq (frames_after_trivia htrivia p) hp
      rw [after_trivia_broken htrivia, ih _ hlt hcode _ (h.trivia htrivia) rfl]
    · rw [after_broken h (by simpa using htrivia)]

/-! ### Layout at a point of a source -/

/-- A point of a source between two lexemes, and layout to be put there that starts with a blank. -/
structure Insertion (source : String) where
  /-- The lexemes in front of the point. -/
  before : List Lexeme
  /-- Blanks between these lexemes and the point. -/
  blanks : List Char
  back : List Char
  first : Char
  more : List Char
  spelled : source.toList = charactersOf before ++ (blanks ++ back)
  cut : before <+: lexemes .typeScript source
  started : before ≠ []
  code : (Place.afterAll {} before).inCode = true
  isSpace_blanks : ∀ c ∈ blanks, isSpace c = true
  isSpace_first : isSpace first = true
  layout : IsLayout more
  /-- No lexeme in front of the point goes on over the layout. -/
  apart : before <+: lexemes .typeScript (String.ofList (charactersOf before ++ blanks ++ [first]))
  /-- No line ends in front of a held mark that follows an operand. -/
  unheld : (first :: more).any isLineBreak = true → (Place.afterAll {} before).operand = true ∨
    ∀ t ∈ (tokensOf .typeScript source)[(Token.ofLexemes before).length]?,
      t.kind = .mark → t.text ∉ heldMarks

namespace Insertion

variable {source : String}

def text (i : Insertion source) : String :=
  String.ofList (charactersOf i.before ++ (i.blanks ++ (i.first :: i.more ++ i.back)))

def index (i : Insertion source) : Nat := (Token.ofLexemes i.before).length

def breaksLine (i : Insertion source) : Bool := (i.first :: i.more).any isLineBreak

def place (i : Insertion source) : Place := Place.afterAll {} i.before

theorem lexemes_source (i : Insertion source) :
    lexemes .typeScript source = i.before ++ lexAll .typeScript i.place (i.blanks ++ i.back) :=
  lexemes_of_front i.spelled i.cut i.started

theorem lexemes_text (i : Insertion source) :
    lexemes .typeScript i.text =
      i.before ++ lexAll .typeScript i.place (i.blanks ++ (i.first :: i.more ++ i.back)) := by
  apply lexemes_of_front (by rw [text, String.toList_ofList]) _ i.started
  have hcut := prefix_lexemes_blank i.isSpace_first (i.more ++ i.back) i.apart (by simp)
  simpa [text] using hcut

theorem admitsBreak (i : Insertion source) (hbreak : i.breaksLine = true) {trivia ys : List Lexeme}
    (htrivia : ∀ x ∈ trivia, x.kind.isTrivia = true)
    (h : lexAll .typeScript i.place (i.blanks ++ i.back) = trivia ++ ys) :
    i.place.AdmitsBreak ys := by
  obtain hoperand | hfirst := i.unheld hbreak
  · exact .inl hoperand
  · right
    obtain ⟨trail, htrail⟩ := exists_ofLexemesAfter_append [] i.before
    rw [tokensOf, i.lexemes_source, h, Token.ofLexemes, htrail, ofLexemesAfter_trivia trail htrivia,
      Token.ofLexemes, List.getElem?_append_right (Nat.le_refl _), Nat.sub_self] at hfirst
    obtain hnil | ⟨lead, kind, text, ts, hcons⟩ := ofLexemesAfter_cases ys
    · simp [Token.ofLexemes, hnil]
    · rw [hcons] at hfirst
      rw [Token.ofLexemes, hcons]
      simpa using hfirst

theorem exists_behind (i : Insertion source) :
    ∃ trivia trivia' ys, (∀ x ∈ trivia, x.kind.isTrivia = true) ∧
      (∀ x ∈ trivia', x.kind.isTrivia = true) ∧
      Source.breaksLine trivia' = (Source.breaksLine trivia || i.breaksLine) ∧
      (i.breaksLine = false → trivia'.any Lexeme.endsLine = trivia.any Lexeme.endsLine) ∧
      lexAll .typeScript i.place (i.blanks ++ i.back) = trivia ++ ys ∧
      lexAll .typeScript i.place (i.blanks ++ (i.first :: i.more ++ i.back)) = trivia' ++ ys := by
  obtain ⟨trivia, htrivia, hcharacters, hends, hcuts⟩ :=
    IsLayout.nil.exists_trivia .typeScript i.back i.isSpace_blanks
  obtain ⟨trivia', htrivia', hcharacters', hends', hcuts'⟩ :=
    (IsLayout.blank i.isSpace_first i.layout).exists_trivia .typeScript i.back i.isSpace_blanks
  have hback := List.takeWhile_append_dropWhile (p := isSpace) (l := i.back)
  have hcode : (i.place.afterAll trivia).inCode = true :=
    inCode_of_frames_eq (hcuts i.place i.code).2 i.code
  have hlex := lexAll_of_lexed (hcuts i.place i.code).1
  have hlex' := lexAll_of_lexed (hcuts' i.place i.code).1
  rw [hcharacters, List.nil_append, List.append_assoc, hback] at hlex
  rw [hcharacters', List.append_assoc, List.append_assoc, hback] at hlex'
  have hbreaks : Source.breaksLine trivia' = (Source.breaksLine trivia || i.breaksLine) := by
    rw [Source.breaksLine, Source.breaksLine, hcharacters, hcharacters', breaksLine]
    simp only [List.any_append, List.nil_append]
    ac_rfl
  -- the places behind the trivia differ in whether a line has ended
  have hsame : lexAll .typeScript (i.place.afterAll trivia') (i.back.dropWhile isSpace) =
      lexAll .typeScript (i.place.afterAll trivia) (i.back.dropWhile isSpace) := by
    by_cases hbreak : i.breaksLine = true
    · have hadmits := i.admitsBreak hbreak htrivia hlex
      have hplace : i.place.afterAll trivia' = { i.place.afterAll trivia with lineBreak := true } := by
        rw [afterAll_trivia htrivia, afterAll_trivia htrivia', hbreaks, hbreak, Bool.or_true,
          Bool.or_true]
      rw [hplace]
      apply lexAll_broken hcode
      rw [afterAll_trivia htrivia] at hadmits ⊢
      exact hadmits
    · rw [afterAll_trivia htrivia, afterAll_trivia htrivia', hbreaks]
      simp [hbreak]
  rw [hsame] at hlex'
  exact ⟨trivia, trivia', _, htrivia, htrivia', hbreaks,
    fun hbreak => (hends' hbreak).trans (hends rfl).symm, hlex, hlex'⟩

/-- The tokens of a source change in what stands in front of the token behind the point. -/
theorem tokensOf_cases (i : Insertion source) :
    tokensOf .typeScript i.text = tokensOf .typeScript source ∨
      ∃ ts t t' us, ts.length = i.index ∧ tokensOf .typeScript source = ts ++ t :: us ∧
        tokensOf .typeScript i.text = ts ++ t' :: us ∧ t'.bare = t.bare ∧
        t'.startsLine = (t.startsLine || i.breaksLine) ∧
        (i.breaksLine = false → t'.followsLineEnd = t.followsLineEnd) := by
  obtain ⟨trivia, trivia', ys, htrivia, htrivia', hbreaks, hends, hlex, hlex'⟩ := i.exists_behind
  obtain ⟨trail, htrail⟩ := exists_ofLexemesAfter_append [] i.before
  have htokens : tokensOf .typeScript source =
      Token.ofLexemes i.before ++ Token.ofLexemesAfter (trail ++ trivia) ys := by
    rw [tokensOf, i.lexemes_source, hlex, Token.ofLexemes, htrail, ofLexemesAfter_trivia _ htrivia]
    rfl
  have htokens' : tokensOf .typeScript i.text =
      Token.ofLexemes i.before ++ Token.ofLexemesAfter (trail ++ trivia') ys := by
    rw [tokensOf, i.lexemes_text, hlex', Token.ofLexemes, htrail, ofLexemesAfter_trivia _ htrivia']
    rfl
  obtain hnil | ⟨lead, kind, text, ts, hcons⟩ := ofLexemesAfter_cases ys
  · left
    rw [htokens, htokens', hnil, hnil]
  · rw [hcons] at htokens htokens'
    refine .inr ⟨_, _, _, ts, rfl, htokens, htokens', rfl, ?_, fun hbreak => ?_⟩
    · rw [startsLine_eq, startsLine_eq]
      simp only [breaksLine_append, hbreaks]
      ac_rfl
    · simp only [Token.followsLineEnd, List.any_append, hends hbreak]

end Insertion

/-! ### Sources with more layout -/

/-- Whether layout may be put into a gap; `breaks` is set if a line ends in it. -/
def Gap.takes (g : Gap) (breaks : Bool) : Bool :=
  match g with
  | free => true
  | unbroken => !breaks
  | fixed => false

/-- A source becomes another one by layout that is put, time after time, into the gaps in front of
its tokens. -/
inductive Respaced (gaps : List Gap) (source : String) : String → Prop
  | refl : Respaced gaps source source
  | insert {source' : String} (h : Respaced gaps source source') (i : Insertion source')
    (hgap : ∃ g ∈ gaps[i.index]?, g.takes i.breaksLine = true) : Respaced gaps source i.text

theorem Gap.allows_of_takes {g : Gap} {breaks : Bool} (h : g.takes breaks = true) {t t' : Token}
    (hbare : t'.bare = t.bare) (hline : t'.startsLine = (t.startsLine || breaks))
    (hends : breaks = false → t'.followsLineEnd = t.followsLineEnd) : g.Allows t t' := by
  cases g with
  | free => exact hbare
  | unbroken =>
    have hbreaks : breaks = false := by simpa [Gap.takes] using h
    exact ⟨hbare, by rw [hline, hbreaks, Bool.or_false], hends hbreaks⟩
  | fixed => cases h

theorem Insertion.respects {source : String} (i : Insertion source) {gaps : List Gap}
    (hlength : gaps.length = (tokensOf .typeScript source).length)
    (hgap : ∃ g ∈ gaps[i.index]?, g.takes i.breaksLine = true) :
    Respects gaps (tokensOf .typeScript source) (tokensOf .typeScript i.text) := by
  obtain hsame | ⟨ts, t, t', us, hindex, htokens, htokens', hbare, hline, hends⟩ := i.tokensOf_cases
  · rw [hsame]
    exact respects_refl hlength
  · obtain ⟨g, hg, htakes⟩ := hgap
    rw [htokens] at hlength ⊢
    rw [htokens']
    rw [← hindex] at hg
    exact respects_replace hlength hg (g.allows_of_takes htakes hbare hline hends)

/-- The tokens of a source with more layout in it respect its gaps. -/
theorem Respaced.respects {gaps : List Gap} {source source' : String}
    (h : Respaced gaps source source') (hlength : gaps.length = (tokensOf .typeScript source).length) :
    Respects gaps (tokensOf .typeScript source) (tokensOf .typeScript source') := by
  induction h with
  | refl => exact respects_refl hlength
  | insert _ i hgap ih => exact ih.trans (i.respects ih.length hgap)

end ScriptManifest.Source
