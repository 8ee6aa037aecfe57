import ScriptManifest.Proofs.Lexing
import ScriptManifest.Proofs.Lowering

/-!
Plain types: predefined ones, arrays `T[]` and references with their type arguments, spelled without
any freedom of layout. `TypeTokens` gives the tokens of a plain type. They are cut out of its text
(`TypeTokens.cuts`), and reading them gives the type back, shape and text at every level
(`readDeclaredType_typeTokens`).
-/

namespace ScriptManifest.Source

def blank : Lexeme := ⟨.space, " "⟩

def typeWords : List String :=
  predefinedTypes ++ literalTypes ++
    ["unique", "typeof", "import", "keyof", "readonly", "new", "infer", "const", "asserts",
      "abstract"] ++
    operatorWords ++ joiningWords

def IsTypeName (w : String) : Prop := IsWordText w.toList ∧ w ∉ typeWords

inductive NameTokens (lead : List Lexeme) : String → List Token → Prop
  | word {w : String} (h : IsTypeName w) : NameTokens lead w [⟨lead, .word, w⟩]
  | dotted {n w : String} {ts : List Token} (h : NameTokens lead n ts) (hw : IsWordText w.toList) :
    NameTokens lead (n ++ "." ++ w) (ts ++ [⟨[], .mark, "."⟩, ⟨[], .word, w⟩])

mutual

inductive TypeTokens : List Lexeme → DeclaredType → List Token → Prop
  | keyword {lead : List Lexeme} {k : String} (h : k ∈ predefinedTypes) :
    TypeTokens lead (.ofKeyword k) [⟨lead, .word, k⟩]
  | array {lead : List Lexeme} {a : DeclaredType} {ts : List Token} (h : TypeTokens lead a ts) :
    TypeTokens lead (.arrayOf a) (ts ++ [⟨[], .opener, "["⟩, ⟨[], .closer, "]"⟩])
  | name {lead : List Lexeme} {n : String} {ts : List Token} (h : NameTokens lead n ts) :
    TypeTokens lead (.reference n []) ts
  | generic {lead : List Lexeme} {n : String} {ts us : List Token} {args : List DeclaredType}
    (h : NameTokens lead n ts) (hargs : ArgumentTokens [] args us) :
    TypeTokens lead (.reference n args) (ts ++ ⟨[], .mark, "<"⟩ :: (us ++ [⟨[], .mark, ">"⟩]))

inductive ArgumentTokens : List Lexeme → List DeclaredType → List Token → Prop
  | last {lead : List Lexeme} {a : DeclaredType} {ts : List Token} (h : TypeTokens lead a ts) :
    ArgumentTokens lead [a] ts
  | more {lead : List Lexeme} {a : DeclaredType} {ts us : List Token} {args : List DeclaredType}
    (h : TypeTokens lead a ts) (hargs : ArgumentTokens [blank] args us) :
    ArgumentTokens lead (a :: args) (ts ++ ⟨[], .mark, ","⟩ :: us)

end

def IsPlain (a : DeclaredType) : Prop := ∀ lead, ∃ ts, TypeTokens lead a ts

theorem isPlain_keyword {k : String} (h : k ∈ predefinedTypes) : IsPlain (.ofKeyword k) :=
  fun _ => ⟨_, .keyword h⟩

theorem IsPlain.array {a : DeclaredType} (h : IsPlain a) : IsPlain (.arrayOf a) := by
  intro lead
  obtain ⟨ts, hts⟩ := h lead
  exact ⟨_, .array hts⟩

theorem IsPlain.reference {a : DeclaredType} (h : IsPlain a) {n : String}
    (hn : ∀ lead, ∃ ts, NameTokens lead n ts) : IsPlain (.reference n [a]) := by
  intro lead
  obtain ⟨ts, hts⟩ := hn lead
  obtain ⟨us, hus⟩ := h []
  exact ⟨_, .generic hts (.last hus)⟩

/-! ### Texts -/

theorem toList_spell_append {ts : List Token} (h : ts ≠ []) (us : List Token) :
    (spell (ts ++ us)).toList = (spell ts).toList ++ charactersOf (lexemesOf us) := by
  obtain ⟨t, ts, rfl⟩ := List.exists_cons_of_ne_nil h
  rw [List.cons_append, toList_spell_cons, toList_spell_cons, lexemesOf_append, charactersOf_append,
    List.append_assoc]

/-- A list of tokens starts with a word behind `lead`. The word is none that a predicate starts with,
and no further word follows it at once. -/
def StartsWithWord (lead : List Lexeme) (ts : List Token) : Prop :=
  ∃ w tail, ts = ⟨lead, .word, w⟩ :: tail ∧ IsWordText w.toList ∧
    (∀ t ∈ tail.head?, t.kind ≠ .word) ∧ w ≠ "asserts"

theorem StartsWithWord.ne_nil {lead : List Lexeme} {ts : List Token} (h : StartsWithWord lead ts) :
    ts ≠ [] := by
  obtain ⟨w, tail, rfl, -⟩ := h
  simp

theorem StartsWithWord.append {lead : List Lexeme} {ts : List Token} (h : StartsWithWord lead ts)
    {t : Token} (ht : t.kind ≠ .word) (us : List Token) :
    StartsWithWord lead (ts ++ t :: us) := by
  obtain ⟨w, tail, rfl, hw, htail, hasserts⟩ := h
  refine ⟨w, tail ++ t :: us, rfl, hw, ?_, hasserts⟩
  cases tail with
  | nil => simpa using ht
  | cons u tail => exact htail

theorem StartsWithWord.charactersOf {lead : List Lexeme} {ts : List Token}
    (h : StartsWithWord lead ts) :
    charactersOf (lexemesOf ts) = Source.charactersOf lead ++ (spell ts).toList := by
  obtain ⟨w, tail, rfl, -⟩ := h
  rw [lexemesOf_cons, charactersOf_append, charactersOf_cons, toList_spell_cons]

theorem isWordText_predefined {k : String} (h : k ∈ predefinedTypes) : IsWordText k.toList := by
  simp only [predefinedTypes, List.mem_cons, List.not_mem_nil, or_false] at h
  obtain rfl | rfl | rfl | rfl | rfl | rfl | rfl | rfl | rfl := h <;>
    exact isWordText_cons (by decide) (by decide)

theorem ne_of_not_mem {w w' : String} {ws : List String} (h : w ∉ ws) (h' : w' ∈ ws) : w ≠ w' := by
  rintro rfl
  exact h h'

theorem NameTokens.startsWithWord {lead : List Lexeme} {n : String} {ts : List Token}
    (h : NameTokens lead n ts) : StartsWithWord lead ts := by
  induction h with
  | word hw => exact ⟨_, [], rfl, hw.1, by simp, ne_of_not_mem hw.2 (by decide)⟩
  | dotted _ _ ih => exact ih.append (by simp) _

theorem TypeTokens.startsWithWord {lead : List Lexeme} {a : DeclaredType} {ts : List Token} :
    TypeTokens lead a ts → StartsWithWord lead ts
  | .keyword hk =>
    ⟨_, [], rfl, isWordText_predefined hk, by simp, (ne_of_not_mem (by decide) hk).symm⟩
  | .array h => h.startsWithWord.append (by simp) _
  | .name h => h.startsWithWord
  | .generic h _ => h.startsWithWord.append (by simp) _

theorem ArgumentTokens.startsWithWord {lead : List Lexeme} {args : List DeclaredType}
    {ts : List Token} (h : ArgumentTokens lead args ts) : StartsWithWord lead ts := by
  cases h with
  | last h => exact h.startsWithWord
  | more h _ => exact h.startsWithWord.append (by simp) _

theorem NameTokens.toList_spell {lead : List Lexeme} {n : String} {ts : List Token}
    (h : NameTokens lead n ts) : (spell ts).toList = n.toList := by
  induction h with
  | word _ => simp [toList_spell_cons, charactersOf]
  | dotted h _ ih =>
    rw [toList_spell_append h.startsWithWord.ne_nil, ih]
    simp [charactersOf]

theorem reference_cons_text (n : String) {args : List DeclaredType} (h : args ≠ []) :
    (DeclaredType.reference n args).text =
      n ++ "<" ++ ", ".intercalate (args.map DeclaredType.text) ++ ">" := by
  have hempty : args.isEmpty = false := by simpa using h
  simp [DeclaredType.reference, hempty, DeclaredType.text]

theorem ArgumentTokens.ne_nil {lead : List Lexeme} {args : List DeclaredType} {ts : List Token}
    (h : ArgumentTokens lead args ts) : args ≠ [] := by
  cases h <;> simp

mutual

theorem TypeTokens.toList_spell {lead : List Lexeme} {a : DeclaredType} {ts : List Token} :
    TypeTokens lead a ts → (spell ts).toList = a.text.toList
  | .keyword _ => by simp [toList_spell_cons, charactersOf, DeclaredType.ofKeyword, DeclaredType.text]
  | .array h => by
    rw [toList_spell_append h.startsWithWord.ne_nil, h.toList_spell]
    simp [charactersOf, DeclaredType.arrayOf, DeclaredType.text]
  | .name h => h.toList_spell
  | .generic h hargs => by
    rw [toList_spell_append h.startsWithWord.ne_nil, h.toList_spell,
      reference_cons_text _ hargs.ne_nil, lexemesOf_cons, lexemesOf_append]
    simp only [List.nil_append, charactersOf_cons, charactersOf_append,
      hargs.startsWithWord.charactersOf, hargs.toList_spell]
    simp [charactersOf]

theorem ArgumentTokens.toList_spell {lead : List Lexeme} {args : List DeclaredType}
    {ts : List Token} :
    ArgumentTokens lead args ts →
      (spell ts).toList = (", ".intercalate (args.map DeclaredType.text)).toList
  | .last h => by simp [h.toList_spell]
  | .more h hargs => by
    rw [toList_spell_append h.startsWithWord.ne_nil, h.toList_spell, List.map_cons,
      String.intercalate_cons_of_ne_nil (by simpa using hargs.ne_nil), lexemesOf_cons, List.nil_append, charactersOf_cons,
      hargs.startsWithWord.charactersOf, hargs.toList_spell]
    simp [charactersOf, blank]

end

theorem TypeTokens.charactersOf {lead : List Lexeme} {a : DeclaredType} {ts : List Token}
    (h : TypeTokens lead a ts) :
    charactersOf (lexemesOf ts) = Source.charactersOf lead ++ a.text.toList := by
  rw [h.startsWithWord.charactersOf, h.toList_spell]

/-! ### Cutting the tokens of a type -/

def CutsLead (d : Dialect) (lead : List Lexeme) : Prop :=
  ∀ rest, EndsSpace rest → Cuts d lead rest

theorem cutsLead_nil (d : Dialect) : CutsLead d [] := fun rest _ => cuts_nil d rest

theorem cutsLead_blank (d : Dialect) : CutsLead d [blank] :=
  fun _ hr => cuts_space (by decide) (List.all_eq_true.mp (by decide)) hr

theorem IsWordText.endsSpace {w : List Char} (h : IsWordText w) (rest : List Char) :
    EndsSpace (w ++ rest) := by
  have hname := h.isNameChar
  obtain ⟨c, cs, rfl, -, -⟩ := h
  intro c' hc'
  obtain rfl : c' = c := by simpa using hc'.symm
  have hc := hname c' (by simp)
  simp only [Source.isNameChar, Bool.and_eq_true, Bool.not_eq_true'] at hc
  exact hc.1.2

def CutsOperand (d : Dialect) (xs : List Lexeme) (rest : List Char) : Prop :=
  ∀ p : Place, p.inCode = true →
    Lexed d p xs rest ∧ (p.afterAll xs).frames = p.frames ∧ (p.afterAll xs).operand = false

theorem CutsOperand.cuts {d : Dialect} {xs : List Lexeme} {rest : List Char}
    (h : CutsOperand d xs rest) : Cuts d xs rest :=
  fun p hp => ⟨(h p hp).1, (h p hp).2.1⟩

theorem CutsOperand.angle {d : Dialect} {xs : List Lexeme} {rest : List Char}
    (h : CutsOperand d xs ('<' :: rest)) : Cuts d (xs ++ [⟨.mark, "<"⟩]) rest := by
  intro p hp
  obtain ⟨hlexed, hframes, hoperand⟩ := h p hp
  have hangle : Lexed d (p.afterAll xs) [⟨.mark, "<"⟩] rest :=
    ⟨by decide, next_angle (inCode_of_frames_eq hframes hp) hoperand rest, trivial⟩
  refine ⟨lexed_append hlexed hangle, ?_⟩
  rw [afterAll_append, afterAll_cons, afterAll_nil, frames_after_mark, hframes]

theorem cuts_leadWord {d : Dialect} {lead : List Lexeme} (hlead : CutsLead d lead) {w : String}
    (hw : IsWordText w.toList) {rest : List Char} (hr : EndsName rest) :
    Cuts d (lead ++ [⟨.word, w⟩]) rest := by
  refine (hlead _ ?_).append (cuts_word hw hr)
  simpa [charactersOf] using hw.endsSpace rest

theorem operandAfterWord_typeName {w : String} (h : w ∉ typeWords) (p : Place) :
    p.operandAfterWord w = false := by
  have hop : w ∉ operatorWords := fun hw => h (by simp [typeWords, hw])
  have hjoin : w ∉ joiningWords := fun hw => h (by simp [typeWords, hw])
  simp [Place.operandAfterWord, hop, hjoin]

theorem NameTokens.cutsOperand {d : Dialect} {lead : List Lexeme} (hlead : CutsLead d lead)
    {n : String} {ts : List Token} (h : NameTokens lead n ts) {rest : List Char}
    (hr : EndsName rest) : CutsOperand d (lexemesOf ts) rest := by
  induction h generalizing rest with
  | word hw =>
    intro p hp
    obtain ⟨hlexed, hframes⟩ := cuts_leadWord hlead hw.1 hr p hp
    rw [lexemesOf_cons, lexemesOf_nil]
    refine ⟨hlexed, hframes, ?_⟩
    rw [afterAll_append]
    exact operandAfterWord_typeName hw.2 _
  | @dotted n w ts _ hw ih =>
    have hdot : EndsName ('.' :: (w.toList ++ rest)) := by simp [EndsName]; decide
    have hname := (ih hdot).cuts
    have hlast : Cuts d [⟨.mark, "."⟩, ⟨.word, w⟩] rest :=
      (cuts_one (by decide) (fun p hp => by simpa [charactersOf] using next_dot hp hw rest)
        (frames_after_mark _)).append (cuts_word hw hr)
    intro p hp
    obtain ⟨hlexed, hframes⟩ := (Cuts.append (by simpa [charactersOf] using hname) hlast) p hp
    rw [lexemesOf_append]
    refine ⟨hlexed, hframes, ?_⟩
    -- a word behind a dot is the name of a member
    rw [afterAll_append]
    rfl

theorem endsName_of_not_isNameChar {c : Char} (hc : isNameChar c = false ∧ c ≠ '\\')
    (rest : List Char) : EndsName (c :: rest) := by
  intro c' hc'
  obtain rfl : c' = c := by simpa using hc'.symm
  exact hc

mutual

theorem TypeTokens.cuts {d : Dialect} {lead : List Lexeme} {a : DeclaredType} {ts : List Token}
    (hlead : CutsLead d lead) {rest : List Char} (hr : EndsName rest) :
    TypeTokens lead a ts → Cuts d (lexemesOf ts) rest
  | .keyword hk => by
    rw [lexemesOf_cons, lexemesOf_nil]
    exact cuts_leadWord hlead (isWordText_predefined hk) hr
  | .array h => by
    have hbrackets : Cuts d [⟨.opener, "["⟩, ⟨.closer, "]"⟩] rest :=
      cuts_group (.inr (.inl ⟨rfl, rfl⟩)) (cuts_nil d _)
    have htype := h.cuts hlead (endsName_of_not_isNameChar (c := '[') (by decide) (']' :: rest))
    rw [lexemesOf_append]
    exact Cuts.append htype hbrackets
  | .name h => (h.cutsOperand hlead hr).cuts
  | .generic h hargs => by
    have hclose : Cuts d [⟨.mark, ">"⟩] rest := cuts_simpleMark (by decide) rest
    have hinner := hargs.cuts (cutsLead_nil d)
      (endsName_of_not_isNameChar (c := '>') (by decide) rest)
    rw [lexemesOf_append, lexemesOf_cons, lexemesOf_append, List.nil_append,
      ← List.singleton_append, ← List.append_assoc]
    refine Cuts.append (CutsOperand.angle ?_) (Cuts.append hinner hclose)
    exact h.cutsOperand hlead (endsName_of_not_isNameChar (by decide) _)

theorem ArgumentTokens.cuts {d : Dialect} {lead : List Lexeme} {args : List DeclaredType}
    {ts : List Token} (hlead : CutsLead d lead) {rest : List Char} (hr : EndsName rest) :
    ArgumentTokens lead args ts → Cuts d (lexemesOf ts) rest
  | .last h => h.cuts hlead hr
  | .more h hargs => by
    have hfurther := hargs.cuts (cutsLead_blank d) hr
    rw [lexemesOf_append, lexemesOf_cons, List.nil_append, ← List.singleton_append]
    refine Cuts.append ?_ (Cuts.append (cuts_simpleMark (by decide) _) hfurther)
    exact h.cuts hlead (endsName_of_not_isNameChar (by decide) _)

end

/-! ### Brackets in a list of tokens -/

/-- A list of tokens in which every bracket is closed: cutting behind a bracketed stretch passes
over it. -/
def Balanced (ts : List Token) : Prop :=
  ∀ depth rest, splitGroup depth (ts ++ rest) =
    (ts ++ (splitGroup depth rest).1, (splitGroup depth rest).2)

theorem balanced_nil : Balanced [] := fun _ _ => rfl

theorem Balanced.append {ts us : List Token} (h : Balanced ts) (h' : Balanced us) :
    Balanced (ts ++ us) := by
  intro depth rest
  rw [List.append_assoc, h, h', List.append_assoc]

theorem Balanced.cons {t : Token} (hopen : t.kind ≠ .opener) (hclose : t.kind ≠ .closer)
    {ts : List Token} (h : Balanced ts) : Balanced (t :: ts) := by
  intro depth rest
  rw [List.cons_append, splitGroup.eq_def]
  cases hk : t.kind <;> simp_all [Balanced]

theorem splitGroup_close (t : Token) (ht : t.kind = .closer) (rest : List Token) :
    splitGroup 0 (t :: rest) = ([t], rest) := by
  simp [splitGroup, ht]

theorem Balanced.group {o c : Token} (ho : o.kind = .opener) (hc : c.kind = .closer)
    {ts : List Token} (h : Balanced ts) : Balanced (o :: (ts ++ [c])) := by
  intro depth rest
  have hinner := h (depth + 1) (c :: rest)
  have hclose : splitGroup (depth + 1) (c :: rest) =
      (c :: (splitGroup depth rest).1, (splitGroup depth rest).2) := by
    simp [splitGroup, hc]
  have hfirst : splitGroup depth (o :: (ts ++ c :: rest)) =
      (o :: (splitGroup (depth + 1) (ts ++ c :: rest)).1,
        (splitGroup (depth + 1) (ts ++ c :: rest)).2) := by
    simp [splitGroup, ho]
  rw [List.cons_append, List.append_assoc, List.singleton_append, hfirst, hinner, hclose]
  simp

theorem splitPiece_group {o c : Token} (ho : o.kind = .opener) (hc : c.kind = .closer)
    {ts : List Token} (h : Balanced ts) (rest : List Token) :
    splitPiece (o :: (ts ++ c :: rest)) = (o :: (ts ++ [c]), rest) := by
  have hcut : splitGroup 0 (ts ++ c :: rest) = (ts ++ [c], rest) := by
    rw [h 0, splitGroup_close c hc]
  simp [splitPiece, ho, hcut]

theorem inside_group {o c : Token} (hc : c.kind = .closer) (ts : List Token) :
    inside (o :: (ts ++ [c])) = ts := by
  simp [inside, hc]

theorem NameTokens.balanced {lead : List Lexeme} {n : String} {ts : List Token}
    (h : NameTokens lead n ts) : Balanced ts := by
  induction h with
  | word _ => exact balanced_nil.cons (by simp) (by simp)
  | dotted _ _ ih =>
    exact ih.append ((balanced_nil.cons (by simp) (by simp)).cons (by simp) (by simp))

mutual

theorem TypeTokens.balanced {lead : List Lexeme} {a : DeclaredType} {ts : List Token} :
    TypeTokens lead a ts → Balanced ts
  | .keyword _ => balanced_nil.cons (by simp) (by simp)
  | .array h => h.balanced.append (balanced_nil.group rfl rfl)
  | .name h => h.balanced
  | .generic h hargs =>
    h.balanced.append ((hargs.balanced.append (balanced_nil.cons (by simp) (by simp))).cons
      (by simp) (by simp))

theorem ArgumentTokens.balanced {lead : List Lexeme} {args : List DeclaredType} {ts : List Token} :
    ArgumentTokens lead args ts → Balanced ts
  | .last h => h.balanced
  | .more h hargs => h.balanced.append (hargs.balanced.cons (by simp) (by simp))

end

theorem isProper_of_lead {lead : List Lexeme} (hlead : ∀ x ∈ lead, x.kind.isTrivia = true)
    {k : LexemeKind} (hk : k.isTrivia = false) (x : String) : Token.IsProper ⟨lead, k, x⟩ :=
  ⟨hlead, hk⟩

theorem isTrivia_blank : ∀ x ∈ [blank], x.kind.isTrivia = true := by decide

theorem NameTokens.isProper {lead : List Lexeme} (hlead : ∀ x ∈ lead, x.kind.isTrivia = true)
    {n : String} {ts : List Token} (h : NameTokens lead n ts) : ∀ t ∈ ts, t.IsProper := by
  induction h with
  | word _ =>
    simpa using isProper_of_lead hlead rfl _
  | dotted _ _ ih =>
    simp only [List.forall_mem_append, List.forall_mem_cons]
    exact ⟨ih, isProper_of_lead (by simp) rfl _, isProper_of_lead (by simp) rfl _, by simp⟩

mutual

theorem TypeTokens.isProper {lead : List Lexeme} (hlead : ∀ x ∈ lead, x.kind.isTrivia = true)
    {a : DeclaredType} {ts : List Token} : TypeTokens lead a ts → ∀ t ∈ ts, t.IsProper
  | .keyword _ => by simpa using isProper_of_lead hlead rfl _
  | .array h => by
    simp only [List.forall_mem_append, List.forall_mem_cons]
    exact ⟨h.isProper hlead, isProper_of_lead (by simp) rfl _, isProper_of_lead (by simp) rfl _,
      by simp⟩
  | .name h => h.isProper hlead
  | .generic h hargs => by
    simp only [List.forall_mem_append, List.forall_mem_cons]
    exact ⟨h.isProper hlead, isProper_of_lead (by simp) rfl _, hargs.isProper (by simp),
      isProper_of_lead (by simp) rfl _, by simp⟩

theorem ArgumentTokens.isProper {lead : List Lexeme} (hlead : ∀ x ∈ lead, x.kind.isTrivia = true)
    {args : List DeclaredType} {ts : List Token} :
    ArgumentTokens lead args ts → ∀ t ∈ ts, t.IsProper
  | .last h => h.isProper hlead
  | .more h hargs => by
    simp only [List.forall_mem_append, List.forall_mem_cons]
    exact ⟨h.isProper hlead, isProper_of_lead (by simp) rfl _, hargs.isProper isTrivia_blank⟩

end

/-! ### Reading the tokens of a type -/

/-- What follows neither goes on with a dotted name nor opens type arguments. -/
def EndsReference (rest : List Token) : Prop :=
  ∀ t ∈ rest.head?, t.isMark "." = false ∧ t.isMark "<" = false

/-- What follows does not go on with a type. -/
structure EndsType (rest : List Token) : Prop where
  reference : EndsReference rest
  array : ∀ t ∈ rest.head?, t.opens "[" = false
  joins : continuesType rest = false

theorem upTo_append (ts rest : List Token) : upTo (ts ++ rest) rest = ts := by
  simp [upTo]

theorem dropDotted_of_endsReference {rest : List Token} (h : EndsReference rest) :
    dropDotted rest = rest := by
  match rest, h with
  | [], _ => rfl
  | [_], _ => rfl
  | dot :: part :: ts, h =>
    have hdot := (h dot (by simp)).1
    simp [dropDotted, hdot]

theorem NameTokens.exists_dots {lead : List Lexeme} {n : String} {ts : List Token}
    (h : NameTokens lead n ts) :
    ∃ w dots, ts = ⟨lead, .word, w⟩ :: dots ∧ w ∉ typeWords ∧
      ∀ rest, dropDotted (dots ++ rest) = dropDotted rest := by
  induction h with
  | word hw => exact ⟨_, [], rfl, hw.2, fun _ => rfl⟩
  | @dotted n w ts _ _ ih =>
    obtain ⟨first, dots, rfl, hfirst, hdots⟩ := ih
    refine ⟨first, dots ++ [⟨[], .mark, "."⟩, ⟨[], .word, w⟩], rfl, hfirst, fun rest => ?_⟩
    rw [List.append_assoc, hdots]
    rfl

theorem isTypeOperator_typeName {w : String} (h : w ∉ typeWords) (next : Option Token) :
    isTypeOperator w next = false := by
  unfold isTypeOperator
  split
  · rfl
  · split <;> first | rfl | exact (h (by decide)).elim

theorem readOperand_typeName {w : String} (h : w ∉ typeWords) (fuel : Nat) (lead : List Lexeme)
    (ts : List Token) :
    readOperand (fuel + 1) (⟨lead, .word, w⟩ :: ts) = readReference fuel ⟨lead, .word, w⟩ ts := by
  have hpre : w ∉ predefinedTypes := fun hw => h (by simp [typeWords, hw])
  have hlit : w ∉ literalTypes := fun hw => h (by simp [typeWords, hw])
  rw [readOperand.eq_def]
  simp only [hpre, hlit, if_false]
  split
  · exact (h (by decide)).elim
  · exact (h (by decide)).elim
  · exact (h (by decide)).elim
  · simp [isTypeOperator_typeName h]

theorem readReference_name {lead : List Lexeme} {n w : String} {dots rest : List Token}
    (h : NameTokens lead n (⟨lead, .word, w⟩ :: dots))
    (hdots : dropDotted (dots ++ rest) = rest) (hrest : EndsReference rest) (fuel : Nat) :
    readReference (fuel + 1) ⟨lead, .word, w⟩ (dots ++ rest) =
      some (.name n, rest) := by
  have hname : spell (⟨lead, .word, w⟩ :: dots) = n := String.toList_inj.mp h.toList_spell
  rw [readReference]
  simp only [hdots, upTo_append, hname]
  cases rest with
  | nil => rfl
  | cons t rest => simp [(hrest t (by simp)).2]

theorem readReference_generic {lead : List Lexeme} {n w : String} {dots us rest : List Token}
    {args : List DeclaredType} {nodes : List TypeNode} {fuel : Nat}
    (h : NameTokens lead n (⟨lead, .word, w⟩ :: dots)) (hargs : ArgumentTokens [] args us)
    (hdots : dropDotted (dots ++ ⟨[], .mark, "<"⟩ :: (us ++ ⟨[], .mark, ">"⟩ :: rest)) =
      ⟨[], .mark, "<"⟩ :: (us ++ ⟨[], .mark, ">"⟩ :: rest))
    (hread : readArguments fuel (us ++ ⟨[], .mark, ">"⟩ :: rest) = some (nodes, rest)) :
    readReference (fuel + 1) ⟨lead, .word, w⟩
        (dots ++ ⟨[], .mark, "<"⟩ :: (us ++ ⟨[], .mark, ">"⟩ :: rest)) =
      some (.generic n nodes (DeclaredType.reference n args).text, rest) := by
  have hname : spell (⟨lead, .word, w⟩ :: dots) = n := String.toList_inj.mp h.toList_spell
  have htext : spell (⟨lead, .word, w⟩ ::
      (dots ++ ⟨[], .mark, "<"⟩ :: (us ++ [⟨[], .mark, ">"⟩]))) =
      (DeclaredType.reference n args).text :=
    String.toList_inj.mp (TypeTokens.generic h hargs).toList_spell
  have hupTo : upTo (dots ++ ⟨[], .mark, "<"⟩ :: (us ++ ⟨[], .mark, ">"⟩ :: rest)) rest =
      dots ++ ⟨[], .mark, "<"⟩ :: (us ++ [⟨[], .mark, ">"⟩]) := by
    have := upTo_append (dots ++ ⟨[], .mark, "<"⟩ :: (us ++ [⟨[], .mark, ">"⟩])) rest
    simpa using this
  rw [readReference]
  simp only [hdots, upTo_append, hname]
  simp [Token.isMark, hread, hupTo, htext]

theorem readSuffixes_brackets (atEnd : Bool) {n : Nat} (a : TypeNode) {rest : List Token}
    (hn : (⟨[], .opener, "["⟩ :: ⟨[], .closer, "]"⟩ :: rest : List Token).length ≤ n) :
    ∃ m, rest.length ≤ m ∧
      readSuffixes atEnd n a (⟨[], .opener, "["⟩ :: ⟨[], .closer, "]"⟩ :: rest) =
        readSuffixes atEnd m (.array a (a.text ++ "[]")) rest := by
  cases n with
  | zero => simp at hn
  | succ n =>
    refine ⟨n, by simp at hn; omega, ?_⟩
    have hpiece : splitPiece (⟨[], .opener, "["⟩ :: ⟨[], .closer, "]"⟩ :: rest) =
        ([⟨[], .opener, "["⟩, ⟨[], .closer, "]"⟩], rest) :=
      splitPiece_group rfl rfl balanced_nil rest
    rw [readSuffixes]
    simp [continuesArray, Token.opens, Token.followsLineEnd, hpiece, Token.spelling]

theorem readSuffixes_end (atEnd : Bool) {m : Nat} (a : TypeNode) {rest : List Token}
    (hm : rest.length ≤ m) (h : ∀ t ∈ rest.head?, t.opens "[" = false) :
    readSuffixes atEnd m a rest = (a, rest) := by
  match m, rest, hm with
  | 0, [], _ => rfl
  | _ + 1, [], _ => rfl
  | m + 1, t :: ts, _ => simp [readSuffixes, continuesArray, h t (by simp)]

/-- Reading an operand off the tokens stops behind the innermost element type, and the brackets that
follow make the whole type of it. -/
def ReadsOperand (a : TypeNode) (ts : List Token) : Prop :=
  ∀ fuel rest, 4 * ts.length ≤ fuel + 1 → EndsReference rest →
    ∃ b r, readOperand fuel (ts ++ rest) = some (b, r) ∧
      ∀ atEnd n, r.length ≤ n →
        ∃ m, rest.length ≤ m ∧ readSuffixes atEnd n b r = readSuffixes atEnd m a rest

def ReadsArguments (args : List TypeNode) (ts : List Token) : Prop :=
  ∀ fuel rest, 4 * ts.length + 1 ≤ fuel →
    readArguments fuel (ts ++ ⟨[], .mark, ">"⟩ :: rest) = some (args, rest)

theorem ReadsOperand.array {a : TypeNode} {ts : List Token} (h : ReadsOperand a ts) :
    ReadsOperand (.array a (a.text ++ "[]")) (ts ++ [⟨[], .opener, "["⟩, ⟨[], .closer, "]"⟩]) := by
  intro fuel rest hfuel _
  have hbracket : EndsReference (⟨[], .opener, "["⟩ :: ⟨[], .closer, "]"⟩ :: rest) := by
    simp [EndsReference, Token.isMark]
  simp only [List.length_append] at hfuel
  obtain ⟨b, r, hread, hsuffixes⟩ := h fuel _ (by omega) hbracket
  refine ⟨b, r, by simpa using hread, fun atEnd n hn => ?_⟩
  obtain ⟨m, hm, heq⟩ := hsuffixes atEnd n hn
  obtain ⟨m', hm', heq'⟩ := readSuffixes_brackets atEnd a hm
  exact ⟨m', hm', heq.trans heq'⟩

theorem startsFunctionType_eq_false {lead : List Lexeme} {ts : List Token}
    (h : StartsWithWord lead ts) (rest : List Token) : startsFunctionType (ts ++ rest) = false := by
  obtain ⟨w, tail, rfl, -⟩ := h
  simp [startsFunctionType, Token.isMark, Token.opens]

theorem ReadsOperand.readType {a : TypeNode} {lead : List Lexeme} {ts rest : List Token}
    (h : ReadsOperand a ts) (hstart : StartsWithWord lead ts) (hrest : EndsType rest)
    (atEnd : Bool) (fuel : Nat) (hfuel : 4 * ts.length ≤ fuel) :
    readType atEnd fuel (ts ++ rest) = some (a, rest) := by
  have hpos : 0 < ts.length := List.length_pos_iff.mpr hstart.ne_nil
  cases fuel with
  | zero => omega
  | succ fuel =>
    obtain ⟨b, r, hread, hsuffixes⟩ := h fuel rest hfuel hrest.reference
    obtain ⟨m, hm, heq⟩ := hsuffixes atEnd r.length (Nat.le_refl _)
    rw [readSuffixes_end atEnd a hm hrest.array] at heq
    rw [Source.readType, startsFunctionType_eq_false hstart rest]
    simp [hread, heq, hrest.joins]

theorem endsType_mark {m : String} (h : m = ">" ∨ m = ",") (rest : List Token) :
    EndsType (⟨[], .mark, m⟩ :: rest) := by
  obtain rfl | rfl := h <;>
    exact ⟨by simp [EndsReference, Token.isMark], by simp [Token.opens],
      by simp [continuesType, Token.isMark, Token.isWord]⟩

theorem dropFinalComma_close (rest : List Token) :
    dropFinalComma (⟨[], .mark, ">"⟩ :: rest) = ⟨[], .mark, ">"⟩ :: rest := by
  cases rest <;> simp [dropFinalComma, Token.isMark]

theorem dropFinalComma_word {lead : List Lexeme} {us : List Token} (h : StartsWithWord lead us)
    (rest : List Token) :
    dropFinalComma (⟨[], .mark, ","⟩ :: (us ++ rest)) = ⟨[], .mark, ","⟩ :: (us ++ rest) := by
  obtain ⟨w, tail, rfl, -⟩ := h
  simp [dropFinalComma, Token.isMark]

theorem readsOperand_name {lead : List Lexeme} {n : String} {ts : List Token}
    (h : NameTokens lead n ts) : ReadsOperand (.name n) ts := by
  intro fuel rest hfuel hrest
  obtain ⟨w, dots, rfl, hw, hdots⟩ := h.exists_dots
  obtain ⟨fuel, rfl⟩ : ∃ f, fuel = f + 2 := ⟨fuel - 2, by simp at hfuel; omega⟩
  have hdrop : dropDotted (dots ++ rest) = rest :=
    (hdots rest).trans (dropDotted_of_endsReference hrest)
  refine ⟨.name n, rest, ?_, fun _ n hn => ⟨n, hn, rfl⟩⟩
  rw [List.cons_append, readOperand_typeName hw, readReference_name h hdrop hrest]

theorem readsOperand_generic {lead : List Lexeme} {n : String} {ts us : List Token}
    {args : List DeclaredType} {nodes : List TypeNode} (h : NameTokens lead n ts)
    (hargs : ArgumentTokens [] args us) (hread : ReadsArguments nodes us) :
    ReadsOperand (.generic n nodes (DeclaredType.reference n args).text)
      (ts ++ ⟨[], .mark, "<"⟩ :: (us ++ [⟨[], .mark, ">"⟩])) := by
  intro fuel rest hfuel _
  obtain ⟨w, dots, rfl, hw, hdots⟩ := h.exists_dots
  simp only [List.length_append, List.length_cons] at hfuel
  obtain ⟨fuel, rfl⟩ : ∃ f, fuel = f + 2 := ⟨fuel - 2, by omega⟩
  -- an angle bracket ends the dotted name
  have hangle : dropDotted (⟨[], .mark, "<"⟩ :: (us ++ ⟨[], .mark, ">"⟩ :: rest)) =
      ⟨[], .mark, "<"⟩ :: (us ++ ⟨[], .mark, ">"⟩ :: rest) := by
    obtain ⟨w', tail, rfl, -⟩ := hargs.startsWithWord
    simp [dropDotted, Token.isMark]
  have hinner := hread fuel rest (by omega)
  have hreference := readReference_generic h hargs ((hdots _).trans hangle) hinner
  refine ⟨_, rest, ?_, fun _ n hn => ⟨n, hn, rfl⟩⟩
  rw [List.cons_append, List.cons_append, readOperand_typeName hw]
  simpa using hreference

theorem lower_array {node : TypeNode} {a : DeclaredType} (h : node.lower = a) :
    (TypeNode.array node (node.text ++ "[]")).lower = .arrayOf a := by
  rw [TypeNode.lower, DeclaredType.arrayOf, ← h, TypeNode.text_lower]

theorem lower_generic {nodes : List TypeNode} {args : List DeclaredType}
    (h : nodes.map TypeNode.lower = args) (hne : args ≠ []) (n : String) :
    (TypeNode.generic n nodes (DeclaredType.reference n args).text).lower = .reference n args := by
  have hempty : args.isEmpty = false := by simpa using hne
  rw [TypeNode.lower, TypeNode.lowerAll_eq_map, h]
  simp [DeclaredType.reference, hempty, DeclaredType.text]

mutual

theorem TypeTokens.readsOperand {lead : List Lexeme} {a : DeclaredType} {ts : List Token} :
    TypeTokens lead a ts → ∃ node : TypeNode, node.lower = a ∧ ReadsOperand node ts
  | @TypeTokens.keyword _ k hk => by
    refine ⟨.predefined k, by rw [TypeNode.lower]; rfl, fun fuel rest hfuel _ => ?_⟩
    obtain ⟨fuel, rfl⟩ : ∃ f, fuel = f + 1 := ⟨fuel - 1, by simp at hfuel; omega⟩
    refine ⟨_, rest, ?_, fun _ n hn => ⟨n, hn, rfl⟩⟩
    rw [List.singleton_append, readOperand.eq_def]
    simp only [hk, if_true]
  | .array h => by
    obtain ⟨node, hnode, hread⟩ := h.readsOperand
    exact ⟨_, lower_array hnode, hread.array⟩
  | @TypeTokens.name _ n _ h => ⟨.name n, by rw [TypeNode.lower]; rfl, readsOperand_name h⟩
  | .generic h hargs => by
    obtain ⟨nodes, hnodes, hread⟩ := hargs.readsArguments
    exact ⟨_, lower_generic hnodes hargs.ne_nil _, readsOperand_generic h hargs hread⟩

theorem ArgumentTokens.readsArguments {lead : List Lexeme} {args : List DeclaredType}
    {ts : List Token} :
    ArgumentTokens lead args ts →
      ∃ nodes : List TypeNode, nodes.map TypeNode.lower = args ∧ ReadsArguments nodes ts
  | .last h => by
    obtain ⟨node, hnode, hread⟩ := h.readsOperand
    refine ⟨[node], by rw [List.map_singleton, hnode], fun fuel rest hfuel => ?_⟩
    obtain ⟨fuel, rfl⟩ : ∃ f, fuel = f + 1 := ⟨fuel - 1, by omega⟩
    have hfirst := hread.readType h.startsWithWord (endsType_mark (.inl rfl) rest)
      false fuel (Nat.le_of_succ_le_succ hfuel)
    rw [readArguments, hfirst]
    simp [dropFinalComma_close, Token.isMark]
  | .more h hargs => by
    obtain ⟨node, hnode, hread⟩ := h.readsOperand
    obtain ⟨nodes, hnodes, hmore⟩ := hargs.readsArguments
    refine ⟨node :: nodes, by rw [List.map_cons, hnode, hnodes], fun fuel rest hfuel => ?_⟩
    simp only [List.length_append, List.length_cons] at hfuel
    obtain ⟨fuel, rfl⟩ : ∃ f, fuel = f + 1 := ⟨fuel - 1, by omega⟩
    have hfirst := fun r => hread.readType h.startsWithWord
      (endsType_mark (.inr rfl) r) false fuel (by omega)
    have hfurther := hmore fuel rest (by omega)
    rw [List.append_assoc, List.cons_append, readArguments, hfirst]
    simp [dropFinalComma_word hargs.startsWithWord, Token.isMark, hfurther]

end

/-- A plain type is read back from its tokens, with the same shape and text at every level. -/
theorem readDeclaredType_typeTokens {lead : List Lexeme} {a : DeclaredType} {ts rest : List Token}
    (h : TypeTokens lead a ts) (hrest : EndsType rest) (atEnd : Bool) :
    readDeclaredType atEnd (ts ++ rest) = some (a, rest) := by
  obtain ⟨node, hnode, hread⟩ := h.readsOperand
  have htype := hread.readType h.startsWithWord hrest atEnd (4 * (ts ++ rest).length + 4)
    (by rw [List.length_append]; omega)
  rw [readDeclaredType, htype, Option.map_some, hnode]

theorem startsPredicate_eq_false {lead : List Lexeme} {ts rest : List Token}
    (h : StartsWithWord lead ts) (hrest : continuesType rest = false) :
    startsPredicate (ts ++ rest) = false := by
  obtain ⟨w, tail, rfl, -, htail, hasserts⟩ := h
  cases tail with
  | cons t tail => simp [startsPredicate, htail t (by simp)]
  | nil =>
    cases rest with
    | nil => rfl
    | cons t rest =>
      -- a word `is` on the same line would go on with the type
      have his : t.kind = .word → t.text = "is" → t.startsLine = true := by
        simpa [continuesType, Token.isWord] using (Bool.or_eq_false_iff.mp hrest).2
      have hno : t.kind = .word → t.startsLine = false → ¬t.text = "is" := by
        intro hk hline htext
        simp [his hk htext] at hline
      simpa [startsPredicate, hasserts] using hno

theorem readResult_typeTokens {colon : Token} (hcolon : colon.isMark ":" = true)
    {lead : List Lexeme} {a : DeclaredType} {ts rest : List Token} (h : TypeTokens lead a ts)
    (hrest : EndsType rest) (atEnd : Bool) :
    readResult atEnd (colon :: (ts ++ rest)) = (some a, rest) := by
  rw [readResult_cons, startsPredicate_eq_false h.startsWithWord hrest.joins,
    readDeclaredType_typeTokens h hrest]
  simp [hcolon]

end ScriptManifest.Source
