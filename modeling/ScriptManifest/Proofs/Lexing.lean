import ScriptManifest.Source.Program

/-!
Cutting printed code into the lexemes it was printed from. What follows a lexeme decides whether it
ends there, so every kind of lexeme has one fact which says how it is cut off in front of a rest
(`next_word` and so on); `Lexed` puts these together for a list of lexemes, and a text that is
`Lexed` is cut into exactly those lexemes (`lexAll_of_lexed`).
-/

namespace ScriptManifest.Source

/-! ### Lists of lexemes -/

def lexAll (d : Dialect) (p : Place) (cs : List Char) : List Lexeme := lexemesFrom d cs.length p cs

theorem lexemesFrom_eq_lexAll (d : Dialect) (fuel : Nat) (p : Place) (cs : List Char)
    (h : cs.length ≤ fuel) : lexemesFrom d fuel p cs = lexAll d p cs := by
  suffices ∀ n m p (cs : List Char), cs.length ≤ n → cs.length ≤ m →
      lexemesFrom d n p cs = lexemesFrom d m p cs from this fuel cs.length p cs h (Nat.le_refl _)
  clear h
  intro n
  induction n with
  | zero =>
    intro m p cs hn _
    rw [List.length_eq_zero_iff.mp (Nat.le_zero.mp hn)]
    cases m <;> rfl
  | succ n ih =>
    intro m p cs hn hm
    cases cs with
    | nil => cases m <;> rfl
    | cons c cs =>
      cases m with
      | zero => simp at hm
      | succ m =>
        have hdrop : ∀ k, ((c :: cs).drop (max k 1)).length ≤ cs.length := by
          intro k
          simp only [List.length_drop, List.length_cons]
          omega
        simp only [List.length_cons, Nat.add_le_add_iff_right] at hn hm
        rw [lexemesFrom, lexemesFrom]
        simp only [List.cons.injEq, true_and]
        exact ih m _ _ (Nat.le_trans (hdrop _) hn) (Nat.le_trans (hdrop _) hm)

theorem lexAll_nil (d : Dialect) (p : Place) : lexAll d p [] = [] := rfl

theorem lexAll_append {d : Dialect} {p : Place} {x : Lexeme} {rest : List Char}
    (hx : x.text.toList ≠ [])
    (hn : p.next d (x.text.toList ++ rest) = (x.kind, x.text.toList.length)) :
    lexAll d p (x.text.toList ++ rest) = x :: lexAll d (p.after x) rest := by
  obtain ⟨c, cs, hc⟩ := List.exists_cons_of_ne_nil hx
  have hlen : max x.text.toList.length 1 = x.text.toList.length := by rw [hc]; simp
  have hone : lexAll d p (x.text.toList ++ rest) =
      x :: lexemesFrom d (cs ++ rest).length (p.after x) rest := by
    rw [lexAll, hc, List.cons_append, List.length_cons, lexemesFrom, ← List.cons_append, ← hc, hn]
    simp only [hlen, List.take_left, List.drop_left, String.ofList_toList]
  rw [hone, lexemesFrom_eq_lexAll]
  simp

def Place.afterAll (p : Place) (xs : List Lexeme) : Place := xs.foldl Place.after p

@[simp] theorem afterAll_nil (p : Place) : p.afterAll [] = p := rfl

@[simp] theorem afterAll_cons (p : Place) (x : Lexeme) (xs : List Lexeme) :
    p.afterAll (x :: xs) = (p.after x).afterAll xs := rfl

theorem afterAll_append (p : Place) (xs ys : List Lexeme) :
    p.afterAll (xs ++ ys) = (p.afterAll xs).afterAll ys := List.foldl_append

theorem charactersOf_append (xs ys : List Lexeme) :
    charactersOf (xs ++ ys) = charactersOf xs ++ charactersOf ys := List.flatMap_append

/-- From a place on, and in front of `rest`, every lexeme of a list is cut off as it stands. -/
def Lexed (d : Dialect) : Place → List Lexeme → (rest : List Char) → Prop
  | _, [], _ => True
  | p, x :: xs, rest =>
    x.text.toList ≠ [] ∧
      p.next d (x.text.toList ++ (charactersOf xs ++ rest)) = (x.kind, x.text.toList.length) ∧
      Lexed d (p.after x) xs rest

theorem lexed_append {d : Dialect} {p : Place} {xs ys : List Lexeme} {rest : List Char}
    (hx : Lexed d p xs (charactersOf ys ++ rest)) (hy : Lexed d (p.afterAll xs) ys rest) :
    Lexed d p (xs ++ ys) rest := by
  induction xs generalizing p with
  | nil => exact hy
  | cons x xs ih =>
    obtain ⟨hne, hnext, htail⟩ := hx
    rw [List.cons_append]
    refine ⟨hne, ?_, ih htail hy⟩
    rwa [charactersOf_append, List.append_assoc]

/-- A text is cut into the lexemes that it is made of. -/
theorem lexAll_of_lexed {d : Dialect} {p : Place} {xs : List Lexeme} {rest : List Char}
    (h : Lexed d p xs rest) :
    lexAll d p (charactersOf xs ++ rest) = xs ++ lexAll d (p.afterAll xs) rest := by
  induction xs generalizing p with
  | nil => rfl
  | cons x xs ih =>
    obtain ⟨hne, hnext, htail⟩ := h
    rw [charactersOf_cons, List.append_assoc, lexAll_append hne hnext, ih htail]
    rfl

/-! ### Places in code -/

def Frame.isCode : Frame → Bool
  | template | tag _ | content => false
  | paren _ | bracket | brace _ | substitution | embedded => true

def Place.inCode (p : Place) : Bool := p.frames.head?.all Frame.isCode

theorem next_of_inCode {p : Place} (h : p.inCode = true) (d : Dialect) (cs : List Char) :
    p.next d cs = p.nextInCode d cs := by
  unfold Place.next
  split <;> simp_all [Place.inCode, Frame.isCode]

theorem nextInCode_cons {c : Char} (hc : c ≠ '/') (d : Dialect) (p : Place) (rest : List Char) :
    p.nextInCode d (c :: rest) =
      if isSpace c then (.space, ((c :: rest).takeWhile isSpace).length)
      else if p.operand && "<!--".toList.isPrefixOf (c :: rest) then
        (.aside, ((c :: rest).takeWhile staysInLine).length)
      else if (p.operand || p.lineBreak) && "-->".toList.isPrefixOf (c :: rest) then
        (.aside, ((c :: rest).takeWhile staysInLine).length)
      else if isNameStart c || (c = '\\' && rest.head? = some 'u') then
        (.word, nameLength false (c :: rest))
      else if c.isDigit || (c = '.' && rest.head?.any Char.isDigit) then
        (.number, numberLength (rest.head? != some 'x' && rest.head? != some 'X') false (c :: rest))
      else if c = '"' || c = '\x27' then (.text, 1 + quotedLength c rest)
      else if c = '\x60' || c = '(' || c = '[' || c = '{' then (.opener, 1)
      else if c = '/' && p.operand then (.pattern, 1 + patternLength false rest)
      else if c = '<' && p.operand && p.last != "<" && d.hasMarkup && startsMarkup d.isTyped rest then
        (.opener, 1)
      else if p.frames.head?.bind Frame.closing? = some c then (.closer, 1)
      else (.mark, markLength (c :: rest)) := by
  unfold Place.nextInCode
  split
  · next heq => cases heq
  · next heq => cases heq; exact (hc rfl).elim
  · next heq => cases heq; exact (hc rfl).elim
  · next heq => cases heq; rfl

/-! ### Words -/

theorem isNameChar_ne {c c' : Char} (h : isNameChar c = true) (h' : isNameChar c' = false) :
    c ≠ c' := by
  rintro rfl
  simp [h] at h'

def EndsName (rest : List Char) : Prop := ∀ c ∈ rest.head?, isNameChar c = false ∧ c ≠ '\\'

theorem nameLength_append {w rest : List Char} (hw : ∀ c ∈ w, isNameChar c = true)
    (hr : EndsName rest) : nameLength false (w ++ rest) = w.length := by
  induction w with
  | nil =>
    cases rest with
    | nil => rfl
    | cons c cs =>
      obtain ⟨hname, hslash⟩ := hr c (by simp)
      rw [List.nil_append, nameLength.eq_def]
      split <;> simp_all
  | cons c w ih =>
    have hc := hw c (by simp)
    have hslash : c ≠ '\\' := isNameChar_ne hc (by decide)
    have hrest := ih fun c' h' => hw c' (List.mem_cons_of_mem c h')
    rw [List.cons_append, nameLength.eq_def]
    split <;> simp_all
    omega

def IsWordText (w : List Char) : Prop :=
  ∃ c cs, w = c :: cs ∧ isNameStart c = true ∧ ∀ x ∈ cs, isNameChar x = true

theorem isWordText_cons {c : Char} {cs : List Char} (hc : isNameStart c = true)
    (hcs : cs.all isNameChar = true) : IsWordText (c :: cs) :=
  ⟨c, cs, rfl, hc, List.all_eq_true.mp hcs⟩

theorem IsWordText.isNameChar {w : List Char} (h : IsWordText w) :
    ∀ c ∈ w, Source.isNameChar c = true := by
  obtain ⟨c, cs, rfl, hc, hcs⟩ := h
  intro x hx
  obtain rfl | hx := List.mem_cons.mp hx
  · simp only [isNameStart, Bool.and_eq_true] at hc
    exact hc.1
  · exact hcs x hx

theorem next_word {d : Dialect} {p : Place} (hp : p.inCode = true) {w rest : List Char}
    (hw : IsWordText w) (hr : EndsName rest) : p.next d (w ++ rest) = (.word, w.length) := by
  have hlength := nameLength_append hw.isNameChar hr
  obtain ⟨c, cs, rfl, hc, -⟩ := hw
  have hname : isNameChar c = true := by
    simp only [isNameStart, Bool.and_eq_true] at hc
    exact hc.1
  have hspace : isSpace c = false := by
    simp only [isNameChar, Bool.and_eq_true, Bool.not_eq_true'] at hname
    exact hname.1.2
  have hangle : '<' ≠ c := (isNameChar_ne hname (by decide)).symm
  have hdash : '-' ≠ c := (isNameChar_ne hname (by decide)).symm
  rw [List.cons_append] at hlength ⊢
  rw [next_of_inCode hp, nextInCode_cons (isNameChar_ne hname (by decide))]
  simp [hspace, hangle, hdash, hc, hlength]

/-! ### Space and comments -/

def EndsSpace (rest : List Char) : Prop := ∀ c ∈ rest.head?, isSpace c = false

theorem takeWhile_isSpace_append {ws rest : List Char} (hws : ∀ c ∈ ws, isSpace c = true)
    (hr : EndsSpace rest) : (ws ++ rest).takeWhile isSpace = ws := by
  have hrest : rest.takeWhile isSpace = [] := by
    cases rest with
    | nil => rfl
    | cons c cs => simp [hr c (by simp)]
  rw [List.takeWhile_append_of_pos hws, hrest, List.append_nil]

theorem next_space {d : Dialect} {p : Place} (hp : p.inCode = true) {ws rest : List Char}
    (hne : ws ≠ []) (hws : ∀ c ∈ ws, isSpace c = true) (hr : EndsSpace rest) :
    p.next d (ws ++ rest) = (.space, ws.length) := by
  have htake := takeWhile_isSpace_append hws hr
  obtain ⟨c, cs, rfl⟩ := List.exists_cons_of_ne_nil hne
  have hc := hws c (by simp)
  have hslash : c ≠ '/' := by
    rintro rfl
    exact absurd hc (by decide)
  rw [List.cons_append] at htake ⊢
  rw [next_of_inCode hp, nextInCode_cons hslash, if_pos hc, htake]

def StaysOpen (cs : List Char) : Prop := occurs ['*', '/'] cs = false

theorem StaysOpen.tail {c : Char} {cs : List Char} (h : StaysOpen (c :: cs)) : StaysOpen cs := by
  simp only [StaysOpen, occurs, Bool.or_eq_false_iff] at h
  exact h.2

theorem StaysOpen.append_cons {xs ys : List Char} {c : Char} (hx : StaysOpen xs) (hc : c ≠ '/')
    (hy : StaysOpen (c :: ys)) : StaysOpen (xs ++ c :: ys) := by
  induction xs with
  | nil => exact hy
  | cons x xs ih =>
    have htail := ih hx.tail
    simp only [StaysOpen, occurs, Bool.or_eq_false_iff] at hx
    rw [List.cons_append, StaysOpen, occurs, htail, Bool.or_false]
    -- what could end the comment here stands in `xs`, or in front of `c`
    cases xs with
    | nil => simp [List.isPrefixOf, hc.symm]
    | cons x' xs => simpa [List.isPrefixOf] using hx.1

theorem commentLength_append {body rest : List Char} (h : StaysOpen body) :
    commentLength (body ++ '*' :: '/' :: rest) = body.length + 2 := by
  induction body with
  | nil => rfl
  | cons c body ih =>
    have htail := ih h.tail
    rw [List.cons_append, commentLength.eq_def]
    split
    · next heq => cases heq
    · next heq =>
      -- a star in front of a slash would end the comment inside the body
      simp only [List.cons.injEq] at heq
      obtain ⟨rfl, heq⟩ := heq
      cases body with
      | nil => simp at heq
      | cons c' body =>
        simp only [List.cons_append, List.cons.injEq] at heq
        obtain ⟨rfl, -⟩ := heq
        simp [StaysOpen, occurs] at h
    · next heq =>
      cases heq
      rw [htail, List.length_cons]
      omega

theorem nextInCode_comment (d : Dialect) (p : Place) (rest : List Char) :
    p.nextInCode d ('/' :: '*' :: rest) = (.comment, 2 + commentLength rest) := by
  unfold Place.nextInCode
  rfl

theorem next_comment {d : Dialect} {p : Place} (hp : p.inCode = true) {body : List Char}
    (hb : StaysOpen body) (rest : List Char) :
    p.next d ('/' :: '*' :: body ++ '*' :: '/' :: rest) = (.comment, body.length + 4) := by
  rw [next_of_inCode hp, List.cons_append, List.cons_append, nextInCode_comment,
    commentLength_append hb]
  congr 1
  omega

/-! ### Brackets and marks -/

def IsPair (opener closer : Char) : Prop :=
  (opener = '(' ∧ closer = ')') ∨ (opener = '[' ∧ closer = ']') ∨
    (opener = '\x7b' ∧ closer = '\x7d')

theorem next_opener {d : Dialect} {p : Place} (hp : p.inCode = true) {o c : Char} (h : IsPair o c)
    (rest : List Char) : p.next d (o :: rest) = (.opener, 1) := by
  rw [next_of_inCode hp]
  obtain ⟨rfl, -⟩ | ⟨rfl, -⟩ | ⟨rfl, -⟩ := h <;>
    simp [nextInCode_cons, isSpace, isNameStart, isNameChar, isPunctuation]

theorem next_closer {d : Dialect} {p : Place} (hp : p.inCode = true) {o c : Char} (h : IsPair o c)
    (hf : p.frames.head?.bind Frame.closing? = some c) (rest : List Char) :
    p.next d (c :: rest) = (.closer, 1) := by
  rw [next_of_inCode hp]
  obtain ⟨-, rfl⟩ | ⟨-, rfl⟩ | ⟨-, rfl⟩ := h <;>
    simp [nextInCode_cons, isSpace, isNameStart, isNameChar, isPunctuation, hf]

theorem closing?_ne {c : Char} (hc : c ∉ [')', ']', '\x7d']) (p : Place) :
    p.frames.head?.bind Frame.closing? ≠ some c := by
  intro h
  obtain ⟨f, -, hf⟩ := Option.bind_eq_some_iff.mp h
  cases f <;> cases hf <;> simp at hc

def simpleMarks : List Char := [':', ',', '>']

theorem next_simpleMark {d : Dialect} {p : Place} (hp : p.inCode = true) {c : Char}
    (h : c ∈ simpleMarks) (rest : List Char) : p.next d (c :: rest) = (.mark, 1) := by
  rw [next_of_inCode hp]
  simp only [simpleMarks, List.mem_cons, List.not_mem_nil, or_false] at h
  have hclose := closing?_ne (c := c) (by obtain rfl | rfl | rfl := h <;> decide) p
  obtain rfl | rfl | rfl := h <;>
    simp [nextInCode_cons, isSpace, isNameStart, isNameChar, isPunctuation, hclose, markLength,
      longMarks]

theorem next_angle {d : Dialect} {p : Place} (hp : p.inCode = true) (ho : p.operand = false)
    (rest : List Char) : p.next d ('<' :: rest) = (.mark, 1) := by
  have hclose := closing?_ne (c := '<') (by decide) p
  rw [next_of_inCode hp]
  simp [nextInCode_cons, isSpace, isNameStart, isNameChar, isPunctuation, hclose, ho, markLength,
    longMarks]

theorem next_dot {d : Dialect} {p : Place} (hp : p.inCode = true) {w : List Char}
    (hw : IsWordText w) (rest : List Char) : p.next d ('.' :: (w ++ rest)) = (.mark, 1) := by
  have hclose := closing?_ne (c := '.') (by decide) p
  obtain ⟨c, cs, rfl, hc, -⟩ := hw
  simp only [isNameStart, Bool.and_eq_true, Bool.not_eq_true'] at hc
  have hdot : '.' ≠ c := (isNameChar_ne hc.1 (by decide)).symm
  rw [next_of_inCode hp]
  simp [nextInCode_cons, isSpace, isNameStart, isNameChar, isPunctuation, hclose, hc.2, hdot,
    markLength, longMarks]

/-! ### The brackets that are open behind a lexeme -/

theorem inCode_of_frames_eq {p q : Place} (h : q.frames = p.frames) (hp : p.inCode = true) :
    q.inCode = true := by
  rw [Place.inCode] at hp ⊢
  rwa [h]

theorem frames_after_trivia {x : Lexeme} (hx : x.kind.isTrivia = true) (p : Place) :
    (p.after x).frames = p.frames := by
  simp [Place.after, hx]

theorem frames_after_word (w : String) (p : Place) : (p.after ⟨.word, w⟩).frames = p.frames := rfl

theorem frames_after_mark (m : String) (p : Place) : (p.after ⟨.mark, m⟩).frames = p.frames := by
  simp only [Place.after, LexemeKind.isTrivia, Bool.false_eq_true, if_false, Place.afterToken]
  split <;> try rfl
  split <;> rfl

theorem frames_after_opener {o c : Char} (h : IsPair o c) (p : Place) :
    ∃ f : Frame, f.isCode = true ∧ f.closing? = some c ∧
      (p.after ⟨.opener, String.ofList [o]⟩).frames = f :: p.frames := by
  refine ⟨p.opened (String.ofList [o]), ?_, ?_, rfl⟩
  · obtain ⟨rfl, -⟩ | ⟨rfl, -⟩ | ⟨rfl, -⟩ := h
    · rfl
    · rfl
    · simp only [Place.opened]
      split <;> rfl
  · obtain ⟨rfl, rfl⟩ | ⟨rfl, rfl⟩ | ⟨rfl, rfl⟩ := h
    · rfl
    · rfl
    · simp only [Place.opened]
      split <;> rfl

theorem frames_after_closer {p : Place} {f : Frame} {fs : List Frame} (hf : f.isCode = true)
    (hp : p.frames = f :: fs) (c : String) : (p.after ⟨.closer, c⟩).frames = fs := by
  change closeFrames p.frames = fs
  rw [hp]
  cases f <;> first | rfl | cases hf

/-! ### Stretches of code -/

/-- Wherever code is read, and in front of `rest`, the lexemes are cut off as they stand and leave
open what was open before. -/
def Cuts (d : Dialect) (xs : List Lexeme) (rest : List Char) : Prop :=
  ∀ p : Place, p.inCode = true → Lexed d p xs rest ∧ (p.afterAll xs).frames = p.frames

theorem cuts_nil (d : Dialect) (rest : List Char) : Cuts d [] rest := fun _ _ => ⟨trivial, rfl⟩

theorem Cuts.append {d : Dialect} {xs ys : List Lexeme} {rest : List Char}
    (hx : Cuts d xs (charactersOf ys ++ rest)) (hy : Cuts d ys rest) : Cuts d (xs ++ ys) rest := by
  intro p hp
  obtain ⟨hlexed, hframes⟩ := hx p hp
  obtain ⟨hlexed', hframes'⟩ := hy _ (inCode_of_frames_eq hframes hp)
  refine ⟨lexed_append hlexed hlexed', ?_⟩
  rw [afterAll_append, hframes', hframes]

theorem cuts_one {d : Dialect} {x : Lexeme} {rest : List Char} (hx : x.text.toList ≠ [])
    (hn : ∀ p : Place, p.inCode = true →
      p.next d (x.text.toList ++ rest) = (x.kind, x.text.toList.length))
    (hf : ∀ p : Place, (p.after x).frames = p.frames) : Cuts d [x] rest :=
  fun p hp => ⟨⟨hx, hn p hp, trivial⟩, hf p⟩

theorem cuts_word {d : Dialect} {w : String} {rest : List Char} (hw : IsWordText w.toList)
    (hr : EndsName rest) : Cuts d [⟨.word, w⟩] rest := by
  have hne : w.toList ≠ [] := by
    obtain ⟨c, cs, hc, -, -⟩ := hw
    simp [hc]
  exact cuts_one hne (fun p hp => next_word hp hw hr) (frames_after_word w)

theorem cuts_space {d : Dialect} {ws : String} {rest : List Char} (hne : ws.toList ≠ [])
    (hws : ∀ c ∈ ws.toList, isSpace c = true) (hr : EndsSpace rest) : Cuts d [⟨.space, ws⟩] rest :=
  cuts_one hne (fun _ hp => next_space hp hne hws hr) (frames_after_trivia rfl)

def IsComment (s : String) : Prop :=
  ∃ body, StaysOpen body ∧ s.toList = '/' :: '*' :: body ++ ['*', '/']

theorem cuts_comment {d : Dialect} {s : String} (hs : IsComment s) (rest : List Char) :
    Cuts d [⟨.comment, s⟩] rest := by
  obtain ⟨body, hbody, hs⟩ := hs
  refine cuts_one (by simp [hs]) (fun p hp => ?_) (frames_after_trivia rfl)
  have hnext := next_comment (d := d) hp hbody rest
  simpa [hs] using hnext

theorem cuts_simpleMark {d : Dialect} {c : Char} (h : c ∈ simpleMarks) (rest : List Char) :
    Cuts d [⟨.mark, String.ofList [c]⟩] rest :=
  cuts_one (by simp) (fun _ hp => by simpa using next_simpleMark hp h rest) (frames_after_mark _)

theorem cuts_group {d : Dialect} {o c : Char} (h : IsPair o c) {xs : List Lexeme} {rest : List Char}
    (hx : Cuts d xs (c :: rest)) :
    Cuts d (⟨.opener, String.ofList [o]⟩ :: (xs ++ [⟨.closer, String.ofList [c]⟩])) rest := by
  intro p hp
  obtain ⟨f, hcode, hclosing, hframes⟩ := frames_after_opener h p
  have hin : (p.after ⟨.opener, String.ofList [o]⟩).inCode = true := by
    rw [Place.inCode, hframes]
    exact hcode
  obtain ⟨hlexed, hframes'⟩ := hx _ hin
  have hlast : Lexed d ((p.after ⟨.opener, String.ofList [o]⟩).afterAll xs)
      [⟨.closer, String.ofList [c]⟩] rest := by
    refine ⟨by simp, ?_, trivial⟩
    have hbind : ((p.after ⟨.opener, String.ofList [o]⟩).afterAll xs).frames.head?.bind
        Frame.closing? = some c := by
      rw [hframes', hframes]
      exact hclosing
    simpa [charactersOf] using next_closer (inCode_of_frames_eq hframes' hin) h hbind rest
  refine ⟨⟨by simp, by simpa using next_opener hp h _, lexed_append ?_ hlast⟩, ?_⟩
  · simpa [charactersOf] using hlexed
  · rw [afterAll_cons, afterAll_append]
    exact frames_after_closer hcode (hframes'.trans hframes) _

/-! ### Tokens -/

def Token.lexemes (t : Token) : List Lexeme := t.lead ++ [⟨t.kind, t.text⟩]

def lexemesOf (ts : List Token) : List Lexeme := ts.flatMap Token.lexemes

@[simp] theorem lexemesOf_nil : lexemesOf [] = [] := rfl

@[simp] theorem lexemesOf_cons (t : Token) (ts : List Token) :
    lexemesOf (t :: ts) = t.lead ++ ⟨t.kind, t.text⟩ :: lexemesOf ts := by
  simp [lexemesOf, Token.lexemes]

@[simp] theorem lexemesOf_append (ts us : List Token) :
    lexemesOf (ts ++ us) = lexemesOf ts ++ lexemesOf us := List.flatMap_append

def Token.IsProper (t : Token) : Prop :=
  (∀ x ∈ t.lead, x.kind.isTrivia = true) ∧ t.kind.isTrivia = false

theorem ofLexemesAfter_trivia (lead : List Lexeme) {xs : List Lexeme}
    (hx : ∀ x ∈ xs, x.kind.isTrivia = true) (ys : List Lexeme) :
    Token.ofLexemesAfter lead (xs ++ ys) = Token.ofLexemesAfter (lead ++ xs) ys := by
  induction xs generalizing lead with
  | nil => simp
  | cons x xs ih =>
    have hfirst := hx x (by simp)
    have hrest := ih (lead ++ [x]) fun x' h' => hx x' (List.mem_cons_of_mem x h')
    rw [List.cons_append, Token.ofLexemesAfter, if_pos hfirst, hrest]
    simp

theorem ofLexemes_lexemesOf {ts : List Token} (hts : ∀ t ∈ ts, t.IsProper) {trail : List Lexeme}
    (htrail : ∀ x ∈ trail, x.kind.isTrivia = true) :
    Token.ofLexemes (lexemesOf ts ++ trail) = ts := by
  rw [Token.ofLexemes]
  induction ts with
  | nil => simpa [Token.ofLexemesAfter] using ofLexemesAfter_trivia [] htrail []
  | cons t ts ih =>
    obtain ⟨hlead, hkind⟩ := hts t (by simp)
    have hrest := ih fun t' h' => hts t' (List.mem_cons_of_mem t h')
    rw [lexemesOf_cons, List.append_assoc, ofLexemesAfter_trivia [] hlead, List.nil_append,
      List.cons_append, Token.ofLexemesAfter, if_neg (by simp [hkind]), hrest]

theorem tokensOf_eq {d : Dialect} {source : String} {ts : List Token} {trail : List Lexeme}
    (hsource : source.toList = charactersOf (lexemesOf ts ++ trail))
    (hshebang : "#!".toList.isPrefixOf source.toList = false)
    (hts : ∀ t ∈ ts, t.IsProper) (htrail : ∀ x ∈ trail, x.kind.isTrivia = true)
    (hcuts : Cuts d (lexemesOf ts ++ trail) []) : tokensOf d source = ts := by
  have hlexed := lexAll_of_lexed (hcuts {} rfl).1
  rw [lexAll_nil, List.append_nil, List.append_nil, ← hsource] at hlexed
  have hlexemes : lexemes d source = lexemesOf ts ++ trail := by
    rw [lexemes, hshebang]
    exact hlexed
  rw [tokensOf, hlexemes, ofLexemes_lexemesOf hts htrail]

theorem toList_spell_cons (t : Token) (ts : List Token) :
    (spell (t :: ts)).toList = t.text.toList ++ charactersOf (lexemesOf ts) := by
  rw [spell, String.toList_append]
  congr 1
  induction ts with
  | nil => rfl
  | cons u us ih =>
    simp only [List.map_cons, String.join_cons, String.toList_append, ih, Token.spelling,
      String.toList_join, List.flatMap_map, lexemesOf_cons, charactersOf_append, charactersOf_cons,
      List.append_assoc]
    rfl

end ScriptManifest.Source
