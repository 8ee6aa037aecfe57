import Mathlib.Data.List.Find
import ScriptManifest.Proofs.PlainSource

/-!
Lexemes in front of a blank. What is cut off in front of a blank does not depend on what follows the
blank (`next_blank`), so the lexemes in front of it stay as they are when the text behind it changes
(`prefix_lexemes_blank`). Markup apart, whose start depends on all that follows.
-/

namespace ScriptManifest.Source

/-! ### Lengths that have settled -/

/-- A length that no longer changes once it has stopped inside a text. -/
def Settles (length : List Char → Nat) : Prop :=
  ∀ cs more, length cs < cs.length → length (cs ++ more) = length cs

theorem settles_takeWhile (p : Char → Bool) : Settles fun cs => (cs.takeWhile p).length := by
  intro cs more h
  dsimp only at h ⊢
  have hne : (cs.takeWhile p).length ≠ cs.length := Nat.ne_of_lt h
  rw [List.takeWhile_append, if_neg hne]

theorem settles_numberLength (decimal exponent : Bool) : Settles (numberLength decimal exponent) := by
  intro cs more h
  fun_induction numberLength decimal exponent cs <;> grind [numberLength]

theorem quotedLength_cons (q : Char) {c : Char} (hc : c ≠ '\\') (cs : List Char) :
    quotedLength q (c :: cs) =
      if c = q then 1 else if c = '\n' then 0 else 1 + quotedLength q cs := by
  rw [quotedLength]
  intro _ _ h
  exact (hc h).elim

theorem settles_quotedLength {q : Char} (hq : q ≠ '\\') : Settles (quotedLength q) := by
  intro cs more h
  fun_induction quotedLength q cs with
  | case1 => simp at h
  | case2 c cs ih => grind [quotedLength]
  | case3 cs hc => grind [quotedLength_cons]
  | case4 cs hc => grind [quotedLength_cons]
  | case5 c cs hc hq hn ih =>
    by_cases hslash : c = '\\'
    · subst hslash
      -- a backslash at the end of the text is not the end of the quotation
      cases cs with
      | nil => simp [quotedLength] at h
      | cons d cs => exact (hc d cs rfl rfl).elim
    · rw [List.length_cons] at h
      rw [List.cons_append, quotedLength_cons q hslash, if_neg hq, if_neg hn, ih (by omega)]

theorem settles_commentLength : Settles commentLength := by
  intro cs more h
  fun_induction commentLength cs with
  | case1 => simp at h
  | case2 cs => simp [commentLength]
  | case3 c cs hc ih =>
    cases cs with
    | nil => simp [commentLength] at h
    | cons d cs =>
      rw [List.length_cons] at h
      rw [List.cons_append, commentLength.eq_3, ih (by omega)]
      intro tail hstar htail
      cases htail
      exact hc cs hstar rfl

theorem settles_templateLength : Settles templateLength := by
  intro cs more h
  fun_induction templateLength cs with
  | case1 => simp at h
  | case2 c cs ih => grind [templateLength]
  | case3 cs => simp [templateLength]
  | case4 cs => simp [templateLength]
  | case5 c cs hslash hdollar htick ih =>
    cases cs with
    | nil => simp [templateLength] at h
    | cons d cs =>
      rw [List.length_cons] at h
      rw [List.cons_append, templateLength.eq_4, if_neg htick, ih (by omega)]
      · intro e tail hc _
        exact hslash d cs hc rfl
      · intro tail hc htail
        cases htail
        exact hdollar cs hc rfl

theorem patternLength_cons (inClass : Bool) {c : Char} (hc : c ≠ '\\') (cs : List Char) :
    patternLength inClass (c :: cs) =
      if isLineBreak c then 0
      else if inClass then 1 + patternLength (c != ']') cs
      else if c = '/' then 1 + (cs.takeWhile isNameChar).length
      else 1 + patternLength (c == '[') cs := by
  rw [patternLength]
  intro _ _ h
  exact (hc h).elim

theorem settles_patternLength (inClass : Bool) : Settles (patternLength inClass) := by
  intro cs more h
  fun_induction patternLength inClass cs with
  | case1 => simp at h
  | case2 inClass c cs ih => grind [patternLength]
  | case3 inClass c cs hc hline =>
    have hslash : c ≠ '\\' := by
      rintro rfl
      exact absurd hline (by decide)
    rw [List.cons_append, patternLength_cons inClass hslash, if_pos hline]
  | case4 c cs hc hline ih =>
    have hslash : c ≠ '\\' := by
      rintro rfl
      cases cs with
      | nil => simp [patternLength] at h
      | cons d cs => exact (hc d cs rfl rfl).elim
    rw [List.length_cons] at h
    rw [List.cons_append, patternLength_cons true hslash, if_neg hline, if_pos rfl, ih (by omega)]
  | case5 inClass cs hclass hc hline =>
    have htake : (cs.takeWhile isNameChar).length < cs.length →
        ((cs ++ more).takeWhile isNameChar).length = (cs.takeWhile isNameChar).length :=
      settles_takeWhile isNameChar cs more
    rw [List.length_cons] at h
    rw [List.cons_append, patternLength_cons inClass (by decide), if_neg hline, if_neg hclass,
      if_pos rfl, htake (by omega)]
  | case6 inClass c cs hc hline hclass hend ih =>
    have hslash : c ≠ '\\' := by
      rintro rfl
      cases cs with
      | nil => simp [patternLength] at h
      | cons d cs => exact (hc d cs rfl rfl).elim
    rw [List.length_cons] at h
    rw [List.cons_append, patternLength_cons inClass hslash, if_neg hline, if_neg hclass,
      if_neg hend, ih (by omega)]

/-! ### Characters in front of a blank -/

theorem isSpace_ne {c x : Char} (hc : isSpace c = true) (hx : isSpace x = false) : c ≠ x := by
  rintro rfl
  simp [hc] at hx

theorem not_isNameChar_of_isSpace {c : Char} (hc : isSpace c = true) : isNameChar c = false := by
  simp [isNameChar, hc]

theorem not_isHexDigit_of_isSpace {c : Char} (hc : isSpace c = true) : isHexDigit c = false := by
  rw [Bool.eq_false_iff]
  intro hx
  simp only [isHexDigit, isSpace, Char.isDigit, Char.le_def, UInt32.le_iff_toNat_le, Bool.or_eq_true,
    Bool.and_eq_true, decide_eq_true_eq, beq_iff_eq] at hx hc
  simp at hx
  omega

theorem nameLength_cons {c : Char} (hc : c ≠ '\\') (cs : List Char) :
    nameLength false (c :: cs) = if isNameChar c then 1 + nameLength false cs else 0 := by
  rw [nameLength]
  · intro _ h
    exact (hc h).elim
  · intro _ h
    exact (hc h).elim

theorem nameLength_backslash {c : Char} (hc : c ≠ 'u') (cs : List Char) :
    nameLength false ('\\' :: c :: cs) = 0 := by
  rw [nameLength]
  · rw [if_neg (by decide)]
  · intro _ _ h
    exact (hc (List.cons.inj h).1).elim
  · intro _ _ h
    exact (hc (List.cons.inj h).1).elim

theorem nameLength_escape {c : Char} (hc : c ≠ '{') (cs : List Char) :
    nameLength false ('\\' :: 'u' :: c :: cs) = 2 + nameLength false (c :: cs) := by
  rw [nameLength]
  intro _ h
  exact (hc (List.cons.inj h).1).elim

theorem nameLength_blank {c : Char} (hc : isSpace c = true) (more : List Char) (inEscape : Bool)
    (cs : List Char) : nameLength inEscape (cs ++ c :: more) = nameLength inEscape (cs ++ [c]) := by
  have hname := not_isNameChar_of_isSpace hc
  have hslash : c ≠ '\\' := isSpace_ne hc (by decide)
  have hu : c ≠ 'u' := isSpace_ne hc (by decide)
  have hopen : c ≠ '{' := isSpace_ne hc (by decide)
  have hclose : c ≠ '}' := isSpace_ne hc (by decide)
  have hhex := not_isHexDigit_of_isSpace hc
  fun_induction nameLength inEscape cs with
  | case1 inEscape => cases inEscape <;> simp [nameLength_cons, nameLength, *]
  | case2 cs ih => simp [nameLength, ih]
  | case3 d cs hd hx ih => simp [nameLength, hd, hx, ih]
  | case4 d cs hd hx => simp [nameLength, hd, hx]
  | case5 cs ih => simp [nameLength, ih]
  | case6 cs hno ih =>
    cases cs with
    | nil => simp [nameLength_escape, nameLength_cons, *]
    | cons d cs =>
      have hd : d ≠ '{' := by
        rintro rfl
        exact hno cs rfl
      simp only [List.cons_append] at ih ⊢
      rw [nameLength_escape hd, nameLength_escape hd, ih]
  | case7 d cs _ _ hd ih =>
    have hd' : d ≠ '\\' := isNameChar_ne hd (by decide)
    rw [List.cons_append, List.cons_append, nameLength_cons hd', nameLength_cons hd', ih]
  | case8 d cs _ hu' hd =>
    by_cases hd' : d = '\\'
    · subst hd'
      cases cs with
      | nil => simp [nameLength_backslash hu]
      | cons e cs =>
        have he : e ≠ 'u' := by
          rintro rfl
          exact hu' cs rfl rfl
        simp [nameLength_backslash he]
    · simp [nameLength_cons hd', hd]

theorem isPrefixOf_blank {c : Char} (hc : isSpace c = true) (more : List Char) {w : List Char}
    (hw : w.any isSpace = false) (cs : List Char) :
    w.isPrefixOf (cs ++ c :: more) = w.isPrefixOf (cs ++ [c]) := by
  induction w generalizing cs with
  | nil => simp
  | cons x w ih =>
    rw [List.any_cons, Bool.or_eq_false_iff] at hw
    cases cs with
    | nil =>
      have hne : (x == c) = false := beq_eq_false_iff_ne.mpr (isSpace_ne hc hw.1).symm
      simp [List.isPrefixOf, hne]
    | cons y cs => rw [List.cons_append, List.cons_append, List.isPrefixOf, List.isPrefixOf, ih hw.2]

theorem head?_blank (c : Char) (more cs : List Char) :
    (cs ++ c :: more).head? = (cs ++ [c]).head? := by
  cases cs <;> rfl

theorem markLength_eq {cs : List Char} (h : ¬ ['?', '.'] <+: cs) :
    markLength cs = ((longMarks.find? (·.isPrefixOf cs)).map List.length).getD 1 := by
  rw [markLength]
  intro _ _ hcs
  exact h (by simp [hcs])

theorem markLength_blank {c : Char} (hc : isSpace c = true) (more cs : List Char) :
    markLength (cs ++ c :: more) = markLength (cs ++ [c]) := by
  have hfind : longMarks.find? (·.isPrefixOf (cs ++ c :: more)) =
      longMarks.find? (·.isPrefixOf (cs ++ [c])) :=
    List.find?_congr fun w hw => isPrefixOf_blank hc more (by revert w; decide) cs
  have hsame := isPrefixOf_blank hc more (w := ['?', '.']) (by decide) cs
  by_cases h : ['?', '.'] <+: cs ++ [c]
  · -- what follows the dot stands in front of the blank, or is the blank
    have hdot : c ≠ '.' := isSpace_ne hc (by decide)
    match cs with
    | [] => simp at h
    | [x] => simp [hdot.symm] at h
    | [x, y] =>
      obtain ⟨rfl, rfl⟩ : '?' = x ∧ '.' = y := by simpa using h
      simp [markLength]
    | x :: y :: z :: cs =>
      obtain ⟨rfl, rfl⟩ : '?' = x ∧ '.' = y := by simpa using h
      simp [markLength]
  · have h' : ¬ ['?', '.'] <+: cs ++ c :: more := by
      rw [← List.isPrefixOf_iff_prefix] at h ⊢
      rwa [hsame]
    rw [markLength_eq h, markLength_eq h', hfind]

/-! ### The next lexeme -/

/-- What is cut off is the same in a longer text, if it ends within the first `bound` characters. -/
def Keeps (bound : Nat) (next next' : LexemeKind × Nat) : Prop := next.2 ≤ bound → next' = next

theorem keeps_rfl (bound : Nat) (next : LexemeKind × Nat) : Keeps bound next next := fun _ => rfl

theorem Keeps.ite {bound : Nat} {next next' other other' : LexemeKind × Nat} (b : Prop) [Decidable b]
    (h : Keeps bound next next') (h' : Keeps bound other other') :
    Keeps bound (if b then next else other) (if b then next' else other') := by
  split
  · exact h
  · exact h'

theorem Settles.keeps {length : List Char → Nat} (h : Settles length) (kind : LexemeKind)
    {cs more : List Char} {bound k : Nat} (hle : bound < k + cs.length) :
    Keeps bound (kind, k + length cs) (kind, k + length (cs ++ more)) := by
  intro hlength
  dsimp only at hlength
  rw [h cs more (by omega)]

theorem nextInCode_slash (d : Dialect) (p : Place) {rest : List Char}
    (h : ∀ c ∈ rest.head?, c ≠ '/' ∧ c ≠ '*') :
    p.nextInCode d ('/' :: rest) =
      if p.operand then (.pattern, 1 + patternLength false rest) else (.mark, 1) := by
  have hclose := closing?_ne (c := '/') (by decide) p
  unfold Place.nextInCode
  split
  · next heq => cases heq
  · next heq =>
    cases heq
    exact ((h '/' (by simp)).1 rfl).elim
  · next heq =>
    cases heq
    exact ((h '*' (by simp)).2 rfl).elim
  · next heq =>
    cases heq
    simp [isSpace, isNameStart, isNameChar, isPunctuation, hclose, markLength, longMarks]

theorem nextInCode_lineComment (d : Dialect) (p : Place) (rest : List Char) :
    p.nextInCode d ('/' :: '/' :: rest) = (.comment, 2 + (rest.takeWhile staysInLine).length) := by
  unfold Place.nextInCode
  rfl

theorem nextInCode_typeScript {c : Char} (hc : c ≠ '/') (p : Place) (rest : List Char) :
    p.nextInCode .typeScript (c :: rest) =
      if isSpace c then (.space, 0 + ((c :: rest).takeWhile isSpace).length)
      else if p.operand && "<!--".toList.isPrefixOf (c :: rest) then
        (.aside, 0 + ((c :: rest).takeWhile staysInLine).length)
      else if (p.operand || p.lineBreak) && "-->".toList.isPrefixOf (c :: rest) then
        (.aside, 0 + ((c :: rest).takeWhile staysInLine).length)
      else if isNameStart c || (c = '\\' && rest.head? = some 'u') then
        (.word, nameLength false (c :: rest))
      else if c.isDigit || (c = '.' && rest.head?.any Char.isDigit) then
        (.number,
          0 + numberLength (rest.head? != some 'x' && rest.head? != some 'X') false (c :: rest))
      else if c = '"' || c = '\x27' then (.text, 1 + quotedLength c rest)
      else if c = '\x60' || c = '(' || c = '[' || c = '{' then (.opener, 1)
      else if p.frames.head?.bind Frame.closing? = some c then (.closer, 1)
      else (.mark, markLength (c :: rest)) := by
  rw [nextInCode_cons hc]
  simp [hc, Dialect.hasMarkup]

theorem nextInCode_slash_blank (p : Place) {c : Char} (hc : isSpace c = true)
    (more cs : List Char) :
    Keeps (cs.length + 1) (p.nextInCode .typeScript ('/' :: (cs ++ [c])))
      (p.nextInCode .typeScript ('/' :: (cs ++ [c] ++ more))) := by
  by_cases hline : cs.head? = some '/'
  · obtain ⟨cs, rfl⟩ := List.head?_eq_some_iff.mp hline
    simp only [List.cons_append, nextInCode_lineComment, List.length_cons]
    exact (settles_takeWhile staysInLine).keeps _ (by simp; omega)
  by_cases hblock : cs.head? = some '*'
  · obtain ⟨cs, rfl⟩ := List.head?_eq_some_iff.mp hblock
    simp only [List.cons_append, nextInCode_comment, List.length_cons]
    exact settles_commentLength.keeps _ (by simp; omega)
  have hhead (rest : List Char) : ∀ d ∈ (cs ++ [c] ++ rest).head?, d ≠ '/' ∧ d ≠ '*' := by
    cases cs with
    | nil => simp [isSpace_ne hc (show isSpace '/' = false by decide),
        isSpace_ne hc (show isSpace '*' = false by decide)]
    | cons d cs => simp_all
  have hshort := nextInCode_slash .typeScript p (hhead [])
  rw [List.append_nil] at hshort
  rw [hshort, nextInCode_slash .typeScript p (hhead more)]
  exact .ite _ ((settles_patternLength false).keeps _ (by simp)) (keeps_rfl _ _)

theorem nextInCode_blank (p : Place) {c : Char} (hc : isSpace c = true) (more cs : List Char) :
    Keeps cs.length (p.nextInCode .typeScript (cs ++ [c]))
      (p.nextInCode .typeScript (cs ++ [c] ++ more)) := by
  cases cs with
  | nil =>
    intro hle
    rw [List.nil_append, nextInCode_cons (isSpace_ne hc (by decide)), if_pos hc] at hle
    simp [hc] at hle
  | cons x cs =>
    by_cases hx : x = '/'
    · subst hx
      exact nextInCode_slash_blank p hc more cs
    · have happend : cs ++ [c] ++ more = cs ++ c :: more := by simp
      have hhead : (cs ++ [c] ++ more).head? = (cs ++ [c]).head? := happend ▸ head?_blank c more cs
      have hmarkup := isPrefixOf_blank hc more (w := "<!--".toList) (by decide) (x :: cs)
      have harrow := isPrefixOf_blank hc more (w := "-->".toList) (by decide) (x :: cs)
      have hname := nameLength_blank hc more false (x :: cs)
      have hmark := markLength_blank hc more (x :: cs)
      simp only [List.cons_append, ← happend] at hmarkup harrow hname hmark
      have hsettled {length : List Char → Nat} (h : Settles length) (kind : LexemeKind) :
          Keeps (x :: cs).length (kind, 0 + length (x :: (cs ++ [c])))
            (kind, 0 + length (x :: (cs ++ [c] ++ more))) := by
        rw [← List.cons_append]
        exact h.keeps kind (by simp)
      simp only [List.cons_append]
      rw [nextInCode_typeScript hx, nextInCode_typeScript hx, hhead, hmarkup, harrow, hname, hmark]
      refine .ite _ (hsettled (settles_takeWhile _) _) (.ite _ (hsettled (settles_takeWhile _) _)
        (.ite _ (hsettled (settles_takeWhile _) _) (.ite _ (keeps_rfl _ _)
        (.ite _ (hsettled (settles_numberLength _ _) _) ?_))))
      split
      · next hquote =>
        have hbackslash : x ≠ '\\' := by
          rintro rfl
          simp at hquote
        exact (settles_quotedLength hbackslash).keeps _ (by simp)
      · exact .ite _ (keeps_rfl _ _) (.ite _ (keeps_rfl _ _) (keeps_rfl _ _))

theorem nextInTemplate_eq {cs : List Char} (h : ¬ ['$', '{'] <+: cs) :
    nextInTemplate cs =
      if cs.head? = some '\x60' then (.closer, 1) else (.piece, 0 + templateLength cs) := by
  rw [nextInTemplate, Nat.zero_add]
  intro _ hcs
  exact h (by simp [hcs])

theorem nextInTemplate_blank {c : Char} (hc : isSpace c = true) (more cs : List Char) :
    Keeps cs.length (nextInTemplate (cs ++ [c])) (nextInTemplate (cs ++ [c] ++ more)) := by
  have hsame := isPrefixOf_blank hc more (w := ['$', '{']) (by decide) cs
  have happend : cs ++ [c] ++ more = cs ++ c :: more := by simp
  have hhead : (cs ++ [c] ++ more).head? = (cs ++ [c]).head? := happend ▸ head?_blank c more cs
  by_cases h : ['$', '{'] <+: cs ++ [c]
  · obtain ⟨rest, hrest⟩ := h
    rw [← hrest, List.append_assoc]
    exact keeps_rfl _ _
  · have h' : ¬ ['$', '{'] <+: cs ++ [c] ++ more := by
      rw [← List.isPrefixOf_iff_prefix] at h ⊢
      rwa [happend, hsame]
    rw [nextInTemplate_eq h, nextInTemplate_eq h', hhead]
    exact .ite _ (keeps_rfl _ _) (settles_templateLength.keeps _ (by simp))

theorem next_blank {p : Place} (hp : p.isPlain) {c : Char} (hc : isSpace c = true)
    (more cs : List Char) :
    Keeps cs.length (p.next .typeScript (cs ++ [c])) (p.next .typeScript (cs ++ [c] ++ more)) := by
  unfold Place.next
  split
  · exact nextInTemplate_blank hc more cs
  · next heq => exact absurd (hp.head heq) (by simp [Frame.isMarkup])
  · next heq => exact absurd (hp.head heq) (by simp [Frame.isMarkup])
  · exact nextInCode_blank p hc more cs

/-! ### Brackets -/

def bracketTexts : List String := ["(", "[", "\x7b", "\x60", "$\x7b"]

theorem eq_of_ite_kind {b : Prop} [Decidable b] {kind sought : LexemeKind} (hkind : kind ≠ sought)
    {k n : Nat} {next : LexemeKind × Nat} (h : (if b then (kind, k) else next) = (sought, n)) :
    next = (sought, n) := by
  split at h
  · exact (hkind (congrArg Prod.fst h)).elim
  · exact h

theorem exists_cons_of_nextInCode {d : Dialect} {p : Place} {cs : List Char} {kind : LexemeKind}
    {n : Nat} (h : p.nextInCode d cs = (kind, n)) (hkind : kind ∉ [.comment, .pattern, .mark]) :
    ∃ c rest, cs = c :: rest ∧ c ≠ '/' := by
  replace hkind : (p.nextInCode d cs).1 ∉ [.comment, .pattern, .mark] := by rwa [h]
  cases cs with
  | nil =>
    have hmark : p.nextInCode d [] = (.mark, 0) := rfl
    simp [hmark] at hkind
  | cons c cs =>
    refine ⟨c, cs, rfl, ?_⟩
    rintro rfl
    by_cases hline : cs.head? = some '/'
    · obtain ⟨cs, rfl⟩ := List.head?_eq_some_iff.mp hline
      simp [nextInCode_lineComment] at hkind
    by_cases hblock : cs.head? = some '*'
    · obtain ⟨cs, rfl⟩ := List.head?_eq_some_iff.mp hblock
      simp [nextInCode_comment] at hkind
    rw [nextInCode_slash _ _ (by cases cs <;> simp_all)] at hkind
    cases hoperand : p.operand <;> simp [hoperand] at hkind

theorem opener_of_nextInCode {p : Place} {cs : List Char} {n : Nat}
    (h : p.nextInCode .typeScript cs = (.opener, n)) :
    String.ofList (cs.take (max n 1)) ∈ bracketTexts := by
  obtain ⟨c, cs, rfl, hc⟩ := exists_cons_of_nextInCode h (by decide)
  rw [nextInCode_typeScript hc] at h
  iterate 6 replace h := eq_of_ite_kind (by decide) h
  split at h
  · next hbracket =>
    cases h
    have hone : (['\x60', '(', '[', '\x7b'].all fun c =>
        String.ofList [c] ∈ bracketTexts) = true := by
      decide
    simp only [List.all_cons, Bool.and_eq_true, decide_eq_true_eq] at hone
    simp only [Bool.or_eq_true, decide_eq_true_eq] at hbracket
    obtain ((rfl | rfl) | rfl) | rfl := hbracket
    · exact hone.1
    · exact hone.2.1
    · exact hone.2.2.1
    · exact hone.2.2.2.1
  · cases congrArg Prod.fst (eq_of_ite_kind (by decide) h)

theorem opener_of_next {p : Place} (hp : p.isPlain) {cs : List Char} {n : Nat}
    (h : p.next .typeScript cs = (.opener, n)) :
    String.ofList (cs.take (max n 1)) ∈ bracketTexts := by
  unfold Place.next at h
  split at h
  · by_cases hopen : ['$', '{'] <+: cs
    · obtain ⟨rest, rfl⟩ := hopen
      cases h
      have htwo : String.ofList ['$', '\x7b'] ∈ bracketTexts := by decide
      exact htwo
    · rw [nextInTemplate_eq hopen] at h
      cases congrArg Prod.fst (eq_of_ite_kind (by decide) h)
  · next heq => exact absurd (hp.head heq) (by simp [Frame.isMarkup])
  · next heq => exact absurd (hp.head heq) (by simp [Frame.isMarkup])
  · exact opener_of_nextInCode h

/-! ### Lexemes in front of a blank -/

def Place.cut (d : Dialect) (p : Place) (cs : List Char) : Lexeme :=
  ⟨(p.next d cs).1, String.ofList (cs.take (max (p.next d cs).2 1))⟩

theorem lexAll_cut (d : Dialect) (p : Place) {cs : List Char} (hcs : cs ≠ []) :
    lexAll d p cs =
      p.cut d cs :: lexAll d (p.after (p.cut d cs)) (cs.drop (max (p.next d cs).2 1)) := by
  obtain ⟨c, cs, rfl⟩ := List.exists_cons_of_ne_nil hcs
  rw [lexAll, List.length_cons, lexemesFrom]
  simp only
  rw [lexemesFrom_eq_lexAll]
  · rfl
  · simp only [List.length_drop, List.length_cons]
    omega

theorem isPlain_after_cut {p : Place} (hp : p.isPlain) (cs : List Char) :
    (p.after (p.cut .typeScript cs)).isPlain := by
  apply isPlain_after hp
  by_cases hkind : (p.next .typeScript cs).1 = .opener
  · have hnext : p.next .typeScript cs = (.opener, (p.next .typeScript cs).2) := by
      rw [← hkind]
    have hmem := opener_of_next hp hnext
    have hne : ∀ s ∈ bracketTexts, s ≠ "<" := by decide
    simp [Lexeme.opensMarkup, Place.cut, hne _ hmem]
  · simp [Lexeme.opensMarkup, Place.cut, hkind]

theorem cut_blank {p : Place} (hp : p.isPlain) {c : Char} (hc : isSpace c = true)
    (more : List Char) {cs : List Char} (hle : max (p.next .typeScript (cs ++ [c])).2 1 ≤ cs.length) :
    p.next .typeScript (cs ++ [c] ++ more) = p.next .typeScript (cs ++ [c]) ∧
      p.cut .typeScript (cs ++ [c] ++ more) = p.cut .typeScript (cs ++ [c]) := by
  have hnext := next_blank hp hc more cs (by omega)
  refine ⟨hnext, ?_⟩
  rw [Place.cut, Place.cut, hnext, List.take_append_of_le_length]
  simp
  omega

theorem prefix_lexAll_blank {p : Place} (hp : p.isPlain) {c : Char} (hc : isSpace c = true)
    (more : List Char) {us : List Lexeme} {cs : List Char}
    (h : us <+: lexAll .typeScript p (cs ++ [c])) (hle : (charactersOf us).length ≤ cs.length) :
    us <+: lexAll .typeScript p (cs ++ [c] ++ more) := by
  induction us generalizing p cs with
  | nil => exact List.nil_prefix
  | cons u us ih =>
    rw [lexAll_cut _ _ (by simp), List.cons_prefix_cons] at h
    obtain ⟨hu, hus⟩ := h
    -- the lexeme ends in front of the blank
    have hlength : u.text.length = min (max (p.next .typeScript (cs ++ [c])).2 1) (cs.length + 1) := by
      rw [hu]
      simp [Place.cut]
    rw [charactersOf_cons, List.length_append, String.length_toList, hlength] at hle
    have hmax : max (p.next .typeScript (cs ++ [c])).2 1 ≤ cs.length := by omega
    obtain ⟨hnext, hcut⟩ := cut_blank hp hc more hmax
    rw [lexAll_cut _ _ (by simp), List.cons_prefix_cons, hcut, hnext]
    refine ⟨hu, ?_⟩
    rw [List.drop_append_of_le_length hmax] at hus
    rw [List.append_assoc, List.drop_append_of_le_length hmax, ← List.append_assoc]
    apply ih (isPlain_after_cut hp _) hus
    rw [List.length_drop]
    omega

theorem isPlain_start : Place.isPlain {} := fun _ hf => by cases hf

/-- The lexemes in front of a blank stay as they are when the text behind the blank changes. -/
theorem prefix_lexemes_blank {c : Char} (hc : isSpace c = true) (more : List Char)
    {us : List Lexeme} {cs : List Char}
    (h : us <+: lexemes .typeScript (String.ofList (cs ++ [c])))
    (hle : (charactersOf us).length ≤ cs.length) :
    us <+: lexemes .typeScript (String.ofList (cs ++ [c] ++ more)) := by
  have hshebang : "#!".toList.isPrefixOf (cs ++ [c] ++ more) = "#!".toList.isPrefixOf (cs ++ [c]) := by
    have hsame := isPrefixOf_blank hc more (w := "#!".toList) (by decide) cs
    simpa using hsame
  rw [lexemes] at h ⊢
  simp only [String.toList_ofList, hshebang] at h ⊢
  split
  · next hline =>
    rw [if_pos hline] at h
    cases us with
    | nil => exact List.nil_prefix
    | cons u us =>
      -- the first line ends in front of the blank
      obtain ⟨hu, hus⟩ := List.cons_prefix_cons.mp h
      have hlength : u.text.length = ((cs ++ [c]).takeWhile staysInLine).length := by
        rw [hu]
        simp
      rw [charactersOf_cons, List.length_append, String.length_toList, hlength] at hle
      have hne : ((cs ++ [c]).takeWhile staysInLine).length ≠ (cs ++ [c]).length := by
        rw [List.length_append, List.length_singleton]
        omega
      have hdrop : (cs ++ [c]).dropWhile staysInLine =
          cs.drop ((cs ++ [c]).takeWhile staysInLine).length ++ [c] := by
        have hsplit := List.takeWhile_append_dropWhile (p := staysInLine) (l := cs ++ [c])
        rw [← List.drop_append_of_le_length (by omega)]
        conv_rhs => arg 2; rw [← hsplit]
        rw [List.drop_left]
      have htake : (cs ++ [c] ++ more).takeWhile staysInLine = (cs ++ [c]).takeWhile staysInLine := by
        rw [List.takeWhile_append, if_neg hne]
      have hdrop' : (cs ++ [c] ++ more).dropWhile staysInLine =
          (cs ++ [c]).dropWhile staysInLine ++ more := by
        rw [List.dropWhile_append, if_neg (by simp [hdrop])]
      rw [hdrop, lexemesFrom_eq_lexAll _ _ _ _ (by simp)] at hus
      rw [htake, hdrop', hdrop, lexemesFrom_eq_lexAll _ _ _ _ (by simp), List.cons_prefix_cons]
      refine ⟨hu, prefix_lexAll_blank isPlain_start hc more hus ?_⟩
      rw [List.length_drop]
      omega
  · next hline =>
    rw [if_neg hline, lexemesFrom_eq_lexAll _ _ _ _ (Nat.le_refl _)] at h
    rw [lexemesFrom_eq_lexAll _ _ _ _ (Nat.le_refl _)]
    exact prefix_lexAll_blank isPlain_start hc more h hle

theorem opener_of_mem_lexemesFrom {fuel : Nat} {p : Place} (hp : p.isPlain) {cs : List Char}
    {x : Lexeme} (hx : x ∈ lexemesFrom .typeScript fuel p cs) (hk : x.kind = .opener) :
    x.text ∈ bracketTexts := by
  induction fuel generalizing p cs with
  | zero => cases hx
  | succ fuel ih =>
    cases cs with
    | nil => cases hx
    | cons c cs =>
      have hx : x ∈ p.cut .typeScript (c :: cs) ::
          lexemesFrom .typeScript fuel (p.after (p.cut .typeScript (c :: cs)))
            ((c :: cs).drop (max (p.next .typeScript (c :: cs)).2 1)) := hx
      obtain rfl | hx := List.mem_cons.mp hx
      · have hnext : p.next .typeScript (c :: cs) = (.opener, (p.next .typeScript (c :: cs)).2) := by
          rw [← hk]
          rfl
        exact opener_of_next hp hnext
      · exact ih (isPlain_after_cut hp (c :: cs)) hx

theorem opener_of_mem_lexemes {source : String} {x : Lexeme}
    (hx : x ∈ lexemes .typeScript source) (hk : x.kind = .opener) : x.text ∈ bracketTexts := by
  rw [lexemes] at hx
  split at hx
  · obtain rfl | hx := List.mem_cons.mp hx
    · cases hk
    · exact opener_of_mem_lexemesFrom isPlain_start hx hk
  · exact opener_of_mem_lexemesFrom isPlain_start hx hk

end ScriptManifest.Source
