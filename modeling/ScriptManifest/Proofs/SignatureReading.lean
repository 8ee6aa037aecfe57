import ScriptManifest.Proofs.TypeReading

/-!
Programs made of documented function declarations: a comment, a signature with plain annotations and
an empty body, one declaration below the other. `printProgram` writes such a program, and its tree
holds exactly those comments and signatures, in order (`topLevel_printProgram`).
-/

namespace ScriptManifest.Source

/-! ### Printing -/

def annotationText : Option DeclaredType → String
  | none => ""
  | some a => ": " ++ a.text

def Parameter.print (p : Parameter) : String := p.name ++ annotationText p.declaredType

def Signature.print (s : Signature) : String :=
  "function " ++ s.name.getD "" ++ "(" ++ ", ".intercalate (s.parameters.map Parameter.print) ++ ")" ++
    annotationText s.result ++ " \x7b\x7d"

/-- Declarations, each on a line of its own below its comment. -/
def printProgram (ds : List (String × Signature)) : String :=
  String.join (ds.map fun d => d.1 ++ "\n" ++ d.2.print ++ "\n")

def IsParameterName (n : String) : Prop := IsWordText n.toList ∧ n ∉ parameterModifiers

structure Signature.IsPrintable (s : Signature) : Prop where
  name : ∃ n, s.name = some n ∧ IsWordText n.toList
  parameters : ∀ p ∈ s.parameters, IsParameterName p.name ∧ ∀ a ∈ p.declaredType, IsPlain a
  result : ∀ a ∈ s.result, IsPlain a

/-! ### Annotations -/

inductive AnnotationTokens : Option DeclaredType → List Token → Prop
  | none : AnnotationTokens none []
  | some {a : DeclaredType} {ts : List Token} (h : TypeTokens [blank] a ts) :
    AnnotationTokens (some a) (⟨[], .mark, ":"⟩ :: ts)

theorem exists_annotationTokens {a : Option DeclaredType} (h : ∀ b ∈ a, IsPlain b) :
    ∃ ts, AnnotationTokens a ts := by
  cases a with
  | none => exact ⟨[], .none⟩
  | some a =>
    obtain ⟨ts, hts⟩ := h a rfl [blank]
    exact ⟨_, .some hts⟩

theorem AnnotationTokens.charactersOf {a : Option DeclaredType} {ts : List Token}
    (h : AnnotationTokens a ts) :
    charactersOf (lexemesOf ts) = (annotationText a).toList := by
  cases h with
  | none => rfl
  | some h =>
    rw [lexemesOf_cons, List.nil_append, charactersOf_cons, h.charactersOf, annotationText]
    simp [Source.charactersOf, blank]

theorem AnnotationTokens.endsName {a : Option DeclaredType} {ts : List Token}
    (h : AnnotationTokens a ts) {rest : List Char} (hr : EndsName rest) :
    EndsName (Source.charactersOf (lexemesOf ts) ++ rest) := by
  cases h with
  | none => exact hr
  | some h => exact endsName_of_not_isNameChar (c := ':') (by decide) _

theorem AnnotationTokens.cuts {d : Dialect} {a : Option DeclaredType} {ts : List Token}
    (h : AnnotationTokens a ts) {rest : List Char} (hr : EndsName rest) :
    Cuts d (lexemesOf ts) rest := by
  cases h with
  | none => exact cuts_nil d rest
  | some h =>
    rw [lexemesOf_cons, List.nil_append, ← List.singleton_append]
    exact Cuts.append (cuts_simpleMark (by decide) _) (h.cuts (cutsLead_blank d) hr)

theorem AnnotationTokens.balanced {a : Option DeclaredType} {ts : List Token}
    (h : AnnotationTokens a ts) : Balanced ts := by
  cases h with
  | none => exact balanced_nil
  | some h => exact h.balanced.cons (by simp) (by simp)

theorem AnnotationTokens.isProper {a : Option DeclaredType} {ts : List Token}
    (h : AnnotationTokens a ts) : ∀ t ∈ ts, t.IsProper := by
  cases h with
  | none => simp
  | some h =>
    rw [List.forall_mem_cons]
    exact ⟨isProper_of_lead (by simp) rfl _, h.isProper isTrivia_blank⟩

theorem AnnotationTokens.readResult {a : Option DeclaredType} {ts rest : List Token}
    (h : AnnotationTokens a ts) (hrest : EndsType rest)
    (hcolon : ∀ t ∈ rest.head?, t.isMark ":" = false) (atEnd : Bool) :
    readResult atEnd (ts ++ rest) = (a, rest) := by
  cases h with
  | none =>
    cases rest with
    | nil => rfl
    | cons t rest => simp [readResult_cons, hcolon t (by simp)]
  | some h => exact readResult_typeTokens rfl h hrest atEnd

theorem AnnotationTokens.dropMark {a : Option DeclaredType} {ts rest : List Token}
    (h : AnnotationTokens a ts) (hrest : ∀ t ∈ rest.head?, t.isMark "?" = false) :
    dropMark "?" (ts ++ rest) = ts ++ rest := by
  cases h with
  | none =>
    cases rest with
    | nil => rfl
    | cons t rest => simp [Source.dropMark, hrest t (by simp)]
  | some h => simp [Source.dropMark, Token.isMark]

/-! ### Parameters -/

inductive ParameterTokens : List Lexeme → List Parameter → List Token → Prop
  | last {lead : List Lexeme} {n : String} {a : Option DeclaredType} {ts : List Token}
    (hn : IsParameterName n) (h : AnnotationTokens a ts) :
    ParameterTokens lead [⟨n, a⟩] (⟨lead, .word, n⟩ :: ts)
  | more {lead : List Lexeme} {n : String} {a : Option DeclaredType} {ts us : List Token}
    {ps : List Parameter} (hn : IsParameterName n) (h : AnnotationTokens a ts)
    (hps : ParameterTokens [blank] ps us) :
    ParameterTokens lead (⟨n, a⟩ :: ps) (⟨lead, .word, n⟩ :: (ts ++ ⟨[], .mark, ","⟩ :: us))

def ListTokens (ps : List Parameter) (ts : List Token) : Prop :=
  (ps = [] ∧ ts = []) ∨ ParameterTokens [] ps ts

theorem exists_parameterTokens {ps : List Parameter} (hne : ps ≠ [])
    (h : ∀ p ∈ ps, IsParameterName p.name ∧ ∀ a ∈ p.declaredType, IsPlain a)
    (lead : List Lexeme) : ∃ ts, ParameterTokens lead ps ts := by
  induction ps generalizing lead with
  | nil => exact (hne rfl).elim
  | cons p ps ih =>
    obtain ⟨n, a⟩ := p
    obtain ⟨hn, ha⟩ := h ⟨n, a⟩ (by simp)
    obtain ⟨ts, hts⟩ := exists_annotationTokens ha
    by_cases hps : ps = []
    · subst hps
      exact ⟨_, .last hn hts⟩
    · obtain ⟨us, hus⟩ := ih hps (fun p' hp' => h p' (List.mem_cons_of_mem _ hp')) [blank]
      exact ⟨_, .more hn hts hus⟩

theorem exists_listTokens {ps : List Parameter}
    (h : ∀ p ∈ ps, IsParameterName p.name ∧ ∀ a ∈ p.declaredType, IsPlain a) :
    ∃ ts, ListTokens ps ts := by
  by_cases hps : ps = []
  · exact ⟨[], .inl ⟨hps, rfl⟩⟩
  · obtain ⟨ts, hts⟩ := exists_parameterTokens hps h []
    exact ⟨ts, .inr hts⟩

theorem ParameterTokens.ne_nil {lead : List Lexeme} {ps : List Parameter} {ts : List Token}
    (h : ParameterTokens lead ps ts) : ps ≠ [] := by
  cases h <;> simp

theorem ParameterTokens.charactersOf {lead : List Lexeme} {ps : List Parameter} {ts : List Token}
    (h : ParameterTokens lead ps ts) :
    charactersOf (lexemesOf ts) =
      Source.charactersOf lead ++ (", ".intercalate (ps.map Parameter.print)).toList := by
  induction h with
  | last _ h =>
    rw [lexemesOf_cons, charactersOf_append, charactersOf_cons, h.charactersOf]
    simp [Parameter.print]
  | more _ h hps ih =>
    rw [lexemesOf_cons, charactersOf_append, charactersOf_cons, lexemesOf_append,
      charactersOf_append, h.charactersOf, lexemesOf_cons, List.nil_append, charactersOf_cons, ih,
      List.map_cons, String.intercalate_cons_of_ne_nil (by simpa using hps.ne_nil)]
    simp [Parameter.print, Source.charactersOf, blank]

theorem ParameterTokens.cuts {d : Dialect} {lead : List Lexeme} {ps : List Parameter}
    {ts : List Token} (h : ParameterTokens lead ps ts) (hlead : CutsLead d lead) {rest : List Char}
    (hr : EndsName rest) : Cuts d (lexemesOf ts) rest := by
  induction h with
  | last hn h =>
    rw [lexemesOf_cons, ← List.singleton_append, ← List.append_assoc]
    exact Cuts.append (cuts_leadWord hlead hn.1 (h.endsName hr)) (h.cuts hr)
  | more hn h _ ih =>
    have hfurther := Cuts.append (cuts_simpleMark (c := ',') (by decide) _) (ih (cutsLead_blank d))
    have hcomma := fun r => endsName_of_not_isNameChar (c := ',') (by decide) r
    rw [lexemesOf_cons, ← List.singleton_append, ← List.append_assoc, lexemesOf_append,
      lexemesOf_cons, List.nil_append, ← List.singleton_append]
    refine Cuts.append (cuts_leadWord hlead hn.1 ?_) (Cuts.append (h.cuts (hcomma _)) hfurther)
    rw [charactersOf_append, List.append_assoc]
    exact h.endsName (hcomma _)

theorem ParameterTokens.balanced {lead : List Lexeme} {ps : List Parameter} {ts : List Token}
    (h : ParameterTokens lead ps ts) : Balanced ts := by
  induction h with
  | last _ h => exact h.balanced.cons (by simp) (by simp)
  | more _ h _ ih =>
    exact (h.balanced.append (ih.cons (by simp) (by simp))).cons (by simp) (by simp)

theorem ParameterTokens.isProper {lead : List Lexeme} {ps : List Parameter} {ts : List Token}
    (h : ParameterTokens lead ps ts) (hlead : ∀ x ∈ lead, x.kind.isTrivia = true) :
    ∀ t ∈ ts, t.IsProper := by
  induction h with
  | last _ h =>
    rw [List.forall_mem_cons]
    exact ⟨isProper_of_lead hlead rfl _, h.isProper⟩
  | more _ h _ ih =>
    rw [List.forall_mem_cons, List.forall_mem_append, List.forall_mem_cons]
    exact ⟨isProper_of_lead hlead rfl _, h.isProper, isProper_of_lead (by simp) rfl _,
      ih isTrivia_blank⟩

def EndsParameter (rest : List Token) : Prop :=
  rest = [] ∨ ∃ us, rest = ⟨[], .mark, ","⟩ :: us

theorem endsType_nil : EndsType [] := ⟨by simp [EndsReference], by simp, rfl⟩

theorem EndsParameter.endsType {rest : List Token} (h : EndsParameter rest) : EndsType rest := by
  obtain rfl | ⟨us, rfl⟩ := h
  · exact endsType_nil
  · exact endsType_mark (.inr rfl) us

theorem EndsParameter.isMark_eq_false {rest : List Token} (h : EndsParameter rest) {m : String}
    (hm : m ≠ ",") : ∀ t ∈ rest.head?, t.isMark m = false := by
  obtain rfl | ⟨us, rfl⟩ := h
  · simp
  · simp [Token.isMark, hm.symm]

theorem EndsParameter.dropValue {rest : List Token} (h : EndsParameter rest) :
    dropValue true 0 0 rest = rest := by
  obtain rfl | ⟨us, rfl⟩ := h
  · rfl
  · simp [Source.dropValue]

theorem dropModifiers_name {n : String} (hn : n ∉ parameterModifiers) (fuel : Nat)
    (lead : List Lexeme) (ts : List Token) :
    dropModifiers fuel (⟨lead, .word, n⟩ :: ts) = ⟨lead, .word, n⟩ :: ts := by
  cases fuel with
  | zero => rfl
  | succ fuel => simp [dropModifiers, Token.isMark, hn]

theorem spell_singleton (t : Token) : spell [t] = t.text := by
  simp [spell]

theorem readParameter_tokens {n : String} (hn : IsParameterName n) {a : Option DeclaredType}
    {ts rest : List Token} (h : AnnotationTokens a ts) (hrest : EndsParameter rest)
    (lead : List Lexeme) :
    readParameter true (⟨lead, .word, n⟩ :: (ts ++ rest)) = (⟨n, a⟩, rest) := by
  have hdots : dropMark "..." (⟨lead, .word, n⟩ :: (ts ++ rest)) =
      ⟨lead, .word, n⟩ :: (ts ++ rest) := by
    simp [dropMark, Token.isMark]
  have hpiece : splitPiece (⟨lead, .word, n⟩ :: (ts ++ rest)) =
      ([⟨lead, .word, n⟩], ts ++ rest) := by
    simp [splitPiece]
  have hresult := h.readResult hrest.endsType (hrest.isMark_eq_false (by decide)) false
  simp only [readParameter_eq, dropModifiers_name hn.2, hdots, hpiece, spell_singleton,
    h.dropMark (hrest.isMark_eq_false (by decide)), readAnnotated_typed, hresult, hrest.dropValue]

theorem ParameterTokens.readParameters {lead : List Lexeme} {ps : List Parameter} {ts : List Token}
    (h : ParameterTokens lead ps ts) (fuel : Nat) (hfuel : ts.length ≤ fuel) :
    readParameters true fuel ts = ps := by
  induction h generalizing fuel with
  | @last lead n a ts hn h =>
    obtain ⟨fuel, rfl⟩ : ∃ f, fuel = f + 1 := ⟨fuel - 1, by simp at hfuel; omega⟩
    have hread := readParameter_tokens hn h (.inl rfl) lead
    rw [List.append_nil] at hread
    rw [readParameters_succ, hread]
    simp [Token.isMark, readParameters_nil]
  | @more lead n a ts us ps hn h _ ih =>
    simp only [List.length_cons, List.length_append] at hfuel
    obtain ⟨fuel, rfl⟩ : ∃ f, fuel = f + 2 := ⟨fuel - 2, by omega⟩
    have hread := readParameter_tokens hn h (.inr ⟨us, rfl⟩) lead
    have hcomma : Source.readParameters true (fuel + 1) (⟨[], .mark, ","⟩ :: us) = ps := by
      rw [readParameters_succ]
      simpa [Token.isMark] using ih fuel (by omega)
    rw [readParameters_succ, hread]
    simp [Token.isMark, hcomma]

theorem ListTokens.readParameters {ps : List Parameter} {ts : List Token} (h : ListTokens ps ts)
    (fuel : Nat) (hfuel : ts.length ≤ fuel) : readParameters true fuel ts = ps := by
  obtain ⟨rfl, rfl⟩ | h := h
  · exact readParameters_nil true fuel
  · exact h.readParameters fuel hfuel

theorem ListTokens.balanced {ps : List Parameter} {ts : List Token} (h : ListTokens ps ts) :
    Balanced ts := by
  obtain ⟨rfl, rfl⟩ | h := h
  · exact balanced_nil
  · exact h.balanced

/-! ### Signatures -/

inductive SignatureTokens (lead : List Lexeme) : Signature → List Token → Prop
  | mk {n : String} {ps : List Parameter} {result : Option DeclaredType} {us vs : List Token}
    (hn : IsWordText n.toList) (hps : ListTokens ps us) (hresult : AnnotationTokens result vs) :
    SignatureTokens lead ⟨some n, ps, result⟩
      (⟨lead, .word, "function"⟩ :: ⟨[blank], .word, n⟩ :: ⟨[], .opener, "("⟩ ::
        (us ++ ⟨[], .closer, ")"⟩ :: (vs ++ [⟨[blank], .opener, "\x7b"⟩, ⟨[], .closer, "\x7d"⟩])))

theorem Signature.IsPrintable.exists_tokens {s : Signature} (h : s.IsPrintable)
    (lead : List Lexeme) : ∃ ts, SignatureTokens lead s ts := by
  obtain ⟨⟨n, hn, hword⟩, hps, hr⟩ := h
  obtain ⟨name, ps, r⟩ := s
  cases hn
  obtain ⟨us, hus⟩ := exists_listTokens hps
  obtain ⟨vs, hvs⟩ := exists_annotationTokens hr
  exact ⟨_, .mk hword hus hvs⟩

theorem endsType_body (lead : List Lexeme) (rest : List Token) :
    EndsType (⟨lead, .opener, "\x7b"⟩ :: rest) :=
  ⟨by simp [EndsReference, Token.isMark], by simp [Token.opens],
    by simp [continuesType, Token.isMark, Token.isWord]⟩

theorem readBody_empty (rest : List Token) :
    readBody (⟨[blank], .opener, "\x7b"⟩ :: ⟨[], .closer, "\x7d"⟩ :: rest) = ([], rest) := by
  have hpiece : splitPiece (⟨[blank], .opener, "\x7b"⟩ :: ⟨[], .closer, "\x7d"⟩ :: rest) =
      ([⟨[blank], .opener, "\x7b"⟩, ⟨[], .closer, "\x7d"⟩], rest) :=
    splitPiece_group rfl rfl balanced_nil rest
  simp [readBody, Token.opens, hpiece, inside]

theorem SignatureTokens.readHead {lead : List Lexeme} {s : Signature} {ts : List Token}
    (h : SignatureTokens lead s ts) (rest : List Token) :
    readHead true (ts ++ rest) = some ⟨[], .declaration s, [], rest⟩ := by
  obtain @⟨n, ps, result, us, vs, hn, hps, hresult⟩ := h
  have hgroup := splitPiece_group (o := ⟨[], .opener, "("⟩) (c := ⟨[], .closer, ")"⟩) rfl rfl
    hps.balanced (vs ++ ⟨[blank], .opener, "\x7b"⟩ :: ⟨[], .closer, "\x7d"⟩ :: rest)
  have hinside := inside_group (o := ⟨[], .opener, "("⟩) (c := ⟨[], .closer, ")"⟩) rfl us
  have hparameters := hps.readParameters (us.length + 1 + 1) (by omega)
  have hread := hresult.readResult
    (endsType_body [blank] (⟨[], .closer, "\x7d"⟩ :: rest)) (by simp [Token.isMark]) true
  have hsignature : readSignature true (⟨[blank], .word, n⟩ :: ⟨[], .opener, "("⟩ ::
      (us ++ ⟨[], .closer, ")"⟩ ::
        (vs ++ ⟨[blank], .opener, "\x7b"⟩ :: ⟨[], .closer, "\x7d"⟩ :: rest))) =
      some ⟨⟨some n, ps, result⟩, [], rest⟩ := by
    simp only [readSignature_eq, dropMark, Token.isMark, readName, dropTypeParameters, Token.opens]
    simp [hgroup, hinside, hparameters, hread, readBody_empty]
  simp [Source.readHead, readFunction, Token.isWord, hsignature, SignatureReading.asDeclaration?]

theorem SignatureTokens.charactersOf {lead : List Lexeme} {s : Signature} {ts : List Token}
    (h : SignatureTokens lead s ts) :
    charactersOf (lexemesOf ts) = Source.charactersOf lead ++ s.print.toList := by
  obtain @⟨n, ps, result, us, vs, hn, hps, hresult⟩ := h
  have hlist : Source.charactersOf (lexemesOf us) =
      (", ".intercalate (ps.map Parameter.print)).toList := by
    obtain ⟨rfl, rfl⟩ | hps := hps
    · rfl
    · exact hps.charactersOf
  simp only [lexemesOf_cons, lexemesOf_append, lexemesOf_nil, charactersOf_append,
    charactersOf_cons, hlist, hresult.charactersOf, Signature.print, String.toList_append]
  simp [Source.charactersOf, blank]

theorem ListTokens.cuts {d : Dialect} {ps : List Parameter} {ts : List Token} (h : ListTokens ps ts)
    {rest : List Char} (hr : EndsName rest) : Cuts d (lexemesOf ts) rest := by
  obtain ⟨rfl, rfl⟩ | h := h
  · exact cuts_nil d rest
  · exact h.cuts (cutsLead_nil d) hr

theorem cuts_body (d : Dialect) (rest : List Char) :
    Cuts d [blank, ⟨.opener, "\x7b"⟩, ⟨.closer, "\x7d"⟩] rest := by
  have hbraces : Cuts d [⟨.opener, "\x7b"⟩, ⟨.closer, "\x7d"⟩] rest :=
    cuts_group (.inr (.inr ⟨rfl, rfl⟩)) (cuts_nil d _)
  exact Cuts.append (cutsLead_blank d _ (by simp [EndsSpace, Source.charactersOf, isSpace])) hbraces

theorem SignatureTokens.cuts {d : Dialect} {lead : List Lexeme} (hlead : CutsLead d lead)
    {s : Signature} {ts : List Token} (h : SignatureTokens lead s ts) (rest : List Char) :
    Cuts d (lexemesOf ts) rest := by
  obtain @⟨n, ps, result, us, vs, hn, hps, hresult⟩ := h
  have hkeyword : IsWordText "function".toList := isWordText_cons (by decide) (by decide)
  have hbody : Cuts d (lexemesOf vs ++ [blank, ⟨.opener, "\x7b"⟩, ⟨.closer, "\x7d"⟩]) rest :=
    (hresult.cuts (endsName_of_not_isNameChar (by decide) _)).append (cuts_body d rest)
  have hlist : ∀ r, Cuts d (⟨.opener, "("⟩ :: (lexemesOf us ++ [⟨.closer, ")"⟩])) r :=
    fun r => cuts_group (.inl ⟨rfl, rfl⟩) (hps.cuts (endsName_of_not_isNameChar (by decide) r))
  have hsplit : lexemesOf (⟨lead, .word, "function"⟩ :: ⟨[blank], .word, n⟩ :: ⟨[], .opener, "("⟩ ::
      (us ++ ⟨[], .closer, ")"⟩ :: (vs ++ [⟨[blank], .opener, "\x7b"⟩, ⟨[], .closer, "\x7d"⟩]))) =
      (lead ++ [⟨.word, "function"⟩]) ++ (([blank] ++ [⟨.word, n⟩]) ++
        ((⟨.opener, "("⟩ :: (lexemesOf us ++ [⟨.closer, ")"⟩])) ++
          (lexemesOf vs ++ [blank, ⟨.opener, "\x7b"⟩, ⟨.closer, "\x7d"⟩]))) := by
    simp
  rw [hsplit]
  refine (cuts_leadWord hlead hkeyword ?_).append
    ((cuts_leadWord (cutsLead_blank d) hn ?_).append ((hlist _).append hbody))
  · exact endsName_of_not_isNameChar (c := ' ') (by decide) _
  · exact endsName_of_not_isNameChar (c := '(') (by decide) _

theorem SignatureTokens.isProper {lead : List Lexeme} (hlead : ∀ x ∈ lead, x.kind.isTrivia = true)
    {s : Signature} {ts : List Token} (h : SignatureTokens lead s ts) : ∀ t ∈ ts, t.IsProper := by
  obtain @⟨n, ps, result, us, vs, hn, hps, hresult⟩ := h
  have hlist : ∀ t ∈ us, t.IsProper := by
    obtain ⟨rfl, rfl⟩ | hps := hps
    · simp
    · exact hps.isProper (by simp)
  have hbare : ∀ {k : LexemeKind} (x : String), k.isTrivia = false → Token.IsProper ⟨[], k, x⟩ :=
    fun x hk => isProper_of_lead (by simp) hk x
  have hspaced : ∀ {k : LexemeKind} (x : String), k.isTrivia = false →
      Token.IsProper ⟨[blank], k, x⟩ :=
    fun x hk => isProper_of_lead isTrivia_blank hk x
  simp only [List.forall_mem_cons, List.forall_mem_append]
  exact ⟨isProper_of_lead hlead rfl _, hspaced _ rfl, hbare _ rfl, hlist, hbare _ rfl,
    hresult.isProper, hspaced _ rfl, hbare _ rfl, by simp⟩

/-! ### Programs -/

def newline : Lexeme := ⟨.space, "\n"⟩

inductive ProgramTokens : List Lexeme → List (String × Signature) → List Token → Prop
  | nil {start : List Lexeme} : ProgramTokens start [] []
  | cons {start : List Lexeme} {c : String} {s : Signature} {ds : List (String × Signature)}
    {ts us : List Token} (hc : IsComment c)
    (h : SignatureTokens (start ++ [⟨.comment, c⟩, newline]) s ts)
    (hds : ProgramTokens [newline] ds us) : ProgramTokens start ((c, s) :: ds) (ts ++ us)

theorem exists_programTokens {ds : List (String × Signature)}
    (h : ∀ d ∈ ds, IsComment d.1 ∧ d.2.IsPrintable) (start : List Lexeme) :
    ∃ ts, ProgramTokens start ds ts := by
  induction ds generalizing start with
  | nil => exact ⟨[], .nil⟩
  | cons d ds ih =>
    obtain ⟨c, s⟩ := d
    obtain ⟨hc, hs⟩ := h (c, s) (by simp)
    obtain ⟨ts, hts⟩ := hs.exists_tokens (start ++ [⟨.comment, c⟩, newline])
    obtain ⟨us, hus⟩ := ih (fun d hd => h d (List.mem_cons_of_mem _ hd)) [newline]
    exact ⟨ts ++ us, .cons hc hts hus⟩

def programTrail (start : List Lexeme) : List (String × Signature) → List Lexeme
  | [] => start
  | _ :: _ => [newline]

theorem programTrail_cons (start : List Lexeme) (d : String × Signature)
    (ds : List (String × Signature)) : programTrail start (d :: ds) = programTrail [newline] ds := by
  cases ds <;> rfl

theorem ProgramTokens.charactersOf {start : List Lexeme} {ds : List (String × Signature)}
    {ts : List Token} (h : ProgramTokens start ds ts) :
    charactersOf (lexemesOf ts ++ programTrail start ds) =
      Source.charactersOf start ++ (printProgram ds).toList := by
  induction h with
  | nil => simp [programTrail, printProgram]
  | @cons start c s ds ts us _ hs _ ih =>
    rw [programTrail_cons, lexemesOf_append, List.append_assoc, charactersOf_append, ih, hs.charactersOf]
    simp [Source.charactersOf, newline, printProgram]

theorem cutsLead_newline (d : Dialect) : CutsLead d [newline] :=
  fun _ hr => cuts_space (by decide) (List.all_eq_true.mp (by decide)) hr

theorem IsComment.endsSpace {c : String} (hc : IsComment c) (rest : List Char) :
    EndsSpace (c.toList ++ rest) := by
  obtain ⟨body, -, hbody⟩ := hc
  rw [hbody]
  simp [EndsSpace, isSpace]

theorem cutsLead_comment {d : Dialect} {start : List Lexeme} (hstart : CutsLead d start) {c : String}
    (hc : IsComment c) : CutsLead d (start ++ [⟨.comment, c⟩, newline]) := by
  intro rest hr
  refine (hstart _ ?_).append ((cuts_comment hc _).append (cutsLead_newline d rest hr))
  rw [charactersOf_cons, List.append_assoc]
  exact hc.endsSpace _

theorem ProgramTokens.cuts {d : Dialect} {start : List Lexeme} {ds : List (String × Signature)}
    {ts : List Token} (h : ProgramTokens start ds ts) (hstart : CutsLead d start) :
    Cuts d (lexemesOf ts ++ programTrail start ds) [] := by
  induction h with
  | nil => exact hstart [] (by simp [EndsSpace])
  | @cons start c s ds ts us hc hs _ ih =>
    rw [programTrail_cons, lexemesOf_append, List.append_assoc]
    exact (hs.cuts (cutsLead_comment hstart hc) _).append (ih (cutsLead_newline d))

theorem isTrivia_comment {start : List Lexeme} (hstart : ∀ x ∈ start, x.kind.isTrivia = true)
    (c : String) : ∀ x ∈ start ++ [⟨.comment, c⟩, newline], x.kind.isTrivia = true := by
  simp only [List.forall_mem_append, List.forall_mem_cons]
  exact ⟨hstart, rfl, rfl, by simp⟩

theorem isTrivia_newline : ∀ x ∈ [newline], x.kind.isTrivia = true := by decide

theorem ProgramTokens.isProper {start : List Lexeme} {ds : List (String × Signature)}
    {ts : List Token} (h : ProgramTokens start ds ts)
    (hstart : ∀ x ∈ start, x.kind.isTrivia = true) : ∀ t ∈ ts, t.IsProper := by
  induction h with
  | nil => simp
  | @cons start c s ds ts us _ hs _ ih =>
    rw [List.forall_mem_append]
    exact ⟨hs.isProper (isTrivia_comment hstart c), ih isTrivia_newline⟩

theorem printProgram_not_shebang {ds : List (String × Signature)}
    (h : ∀ d ∈ ds, IsComment d.1) : "#!".toList.isPrefixOf (printProgram ds).toList = false := by
  cases ds with
  | nil => rfl
  | cons d ds =>
    obtain ⟨body, -, hbody⟩ := h d (by simp)
    simp [printProgram, hbody, List.isPrefixOf]

theorem tokensOf_printProgram {d : Dialect} {ds : List (String × Signature)} {ts : List Token}
    (hcomments : ∀ d ∈ ds, IsComment d.1) (h : ProgramTokens [] ds ts) :
    tokensOf d (printProgram ds) = ts := by
  refine tokensOf_eq h.charactersOf.symm (printProgram_not_shebang hcomments)
    (h.isProper (by simp)) ?_ (h.cuts (cutsLead_nil d))
  cases ds with
  | nil => simp [programTrail]
  | cons d ds => exact isTrivia_newline

/-! ### The tree of a program -/

def itemsOf (d : String × Signature) : List Tree :=
  [.node (.comment d.1) [], .node (.declaration d.2) [.node .group []]]

theorem ownLead_initial (t : Token) : Before.ownLead true {} t = t.lead := by
  simp [Before.ownLead, Before.takesSemicolon]

theorem ownLead_newline (b : Before) {t : Token} {lead : List Lexeme}
    (h : t.lead = newline :: lead) : b.ownLead true t = t.lead := by
  have hline : newline.endsLine = true := by decide
  simp [Before.ownLead, h, hline]

def StartsItem (b : Before) (start : List Lexeme) : Prop :=
  (b = {} ∧ start = []) ∨ (b = .afterDeclaration ∧ start = [newline])

theorem StartsItem.leadNodes {b : Before} {start : List Lexeme} (h : StartsItem b start) (c : String)
    {t : Token} (ht : t.lead = start ++ [⟨.comment, c⟩, newline]) :
    leadNodes (b.ownLead true t) = [.node (.comment c) []] := by
  obtain ⟨rfl, rfl⟩ | ⟨rfl, rfl⟩ := h
  · rw [ownLead_initial, ht]
    rfl
  · rw [ownLead_newline _ ht, ht]
    rfl

theorem StartsItem.admits {b : Before} {start : List Lexeme} (h : StartsItem b start) (t : Token) :
    b.admits t = true := by
  obtain ⟨rfl, -⟩ | ⟨rfl, -⟩ := h <;> simp [Before.admits, Before.afterDeclaration]

theorem itemsFrom_nil (fuel : Nat) (b : Before) : itemsFrom true fuel b [] = [] := by
  cases fuel <;> simp [itemsFrom]

theorem SignatureTokens.exists_cons {lead : List Lexeme} {s : Signature} {ts : List Token}
    (h : SignatureTokens lead s ts) : ∃ t us, ts = t :: us ∧ t.lead = lead := by
  obtain ⟨_, _, _⟩ := h
  exact ⟨_, _, rfl, rfl⟩

theorem itemsFrom_programTokens {start : List Lexeme} {ds : List (String × Signature)}
    {ts : List Token} (h : ProgramTokens start ds ts) {b : Before} (hb : StartsItem b start)
    (fuel : Nat) (hfuel : ts.length ≤ fuel) : itemsFrom true fuel b ts = ds.flatMap itemsOf := by
  induction h generalizing b fuel with
  | nil => exact itemsFrom_nil fuel b
  | @cons start c s ds ts us _ hs _ ih =>
    have hhead := hs.readHead us
    obtain ⟨t, tail, rfl, hlead⟩ := hs.exists_cons
    simp only [List.cons_append, List.length_cons, List.length_append] at hfuel
    obtain ⟨fuel, rfl⟩ : ∃ f, fuel = f + 1 := ⟨fuel - 1, by omega⟩
    have hrest := ih (.inr ⟨rfl, rfl⟩) fuel (by omega)
    rw [List.cons_append] at hhead ⊢
    rw [itemsFrom, hb.leadNodes c hlead, hb.admits t, if_pos rfl, hhead]
    simp [wrapNode, itemsFrom_nil, hrest, itemsOf]

theorem parse_printProgram {d : Dialect} (hd : d.isTyped = true) {ds : List (String × Signature)}
    (h : ∀ d ∈ ds, IsComment d.1 ∧ d.2.IsPrintable) :
    parse d (printProgram ds) = .node .program (ds.flatMap itemsOf) := by
  obtain ⟨ts, hts⟩ := exists_programTokens h []
  have htokens := tokensOf_printProgram (d := d) (fun d hd => (h d hd).1) hts
  rw [parse, htokens, hd, treeOfTokens,
    itemsFrom_programTokens hts (.inl ⟨rfl, rfl⟩) ts.length (Nat.le_refl _)]

theorem declarationsAmong_itemsOf (ds : List (String × Signature)) (before : List Tree)
    (hbefore : ∀ t ∈ before.head?, t.label.comment? = none) :
    declarationsAmong before (ds.flatMap itemsOf) = ds.map fun d => ⟨[d.1], d.2⟩ := by
  induction ds generalizing before with
  | nil => rfl
  | cons d ds ih =>
    have hrun : commentRun (.node (.comment d.1) [] :: before) = [d.1] := by
      cases before with
      | nil => rfl
      | cons t before =>
        have ht := hbefore t (by simp)
        have hc : (Tree.node (.comment d.1) []).label.comment? = some d.1 := rfl
        simp [commentRun, ht, hc]
    have hrest := ih (.node (.declaration d.2) [.node .group []] :: .node (.comment d.1) [] :: before)
      (by simp [Tree.label, Label.comment?])
    simp [List.flatMap_cons, itemsOf, declarationsAmong, Tree.signatures, Label.declared?,
      Label.isWrapper, hrun, hrest]

/-- Every declaration of a printed program is found with its signature and its own comment. -/
theorem topLevel_printProgram {d : Dialect} (hd : d.isTyped = true)
    {ds : List (String × Signature)} (h : ∀ d ∈ ds, IsComment d.1 ∧ d.2.IsPrintable) :
    (parse d (printProgram ds)).topLevel = ds.map fun d => ⟨[d.1], d.2⟩ := by
  rw [parse_printProgram hd h]
  exact declarationsAmong_itemsOf ds [] (by simp)

end ScriptManifest.Source
