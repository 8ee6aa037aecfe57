import ScriptManifest.Proofs.SignatureOrigin

/-!
Tokens under a change of layout. What may be put into the gap in front of a token is a `Gap`; two
lists of tokens are `Relaid` if they differ only in what stands between the tokens, and not where a
type is sensitive to it: inside a dotted name and between the words of `unique symbol` the gap
belongs to the type, and no line may end in front of the word `is` or between `asserts` and a word.
Square brackets are held in some places, and no line may end in front of them there either. Readers
that look at bare tokens only leave tokens that are `Relaid` (`Relaid.read`).
-/

namespace ScriptManifest.Source

/-! ### Gaps -/

/-- What may be put into the gap in front of a token. -/
inductive Gap
  | free
  /-- Anything that ends no line. -/
  | unbroken
  | fixed
deriving DecidableEq, Repr

/-- The gap between two tokens of a type; `held` is set if a square bracket is held there. -/
def gapIn (held : Bool) (t u : Token) : Gap :=
  if t.isMark "." || u.isMark "." || (t.isWord "unique" && u.isWord "symbol") then .fixed
  else if u.isWord "is" || (t.isWord "asserts" && u.kind == .word) then .unbroken
  else if held && u.opens "[" then .unbroken
  else .free

/-- The gaps in front of the tokens of a type that follow the token `t`. Where brackets are held is
told by the number of tokens from there to the end. -/
def gapsOf (held : Nat → Bool) (t : Token) : List Token → List Gap
  | [] => []
  | u :: us => gapIn (held (us.length + 1)) t u :: gapsOf held u us

def Token.bare (t : Token) : Token := { t with lead := [] }

def Gap.Allows : Gap → (t t' : Token) → Prop
  | free, t, t' => t'.bare = t.bare
  | unbroken, t, t' =>
    t'.bare = t.bare ∧ t'.startsLine = t.startsLine ∧ t'.followsLineEnd = t.followsLineEnd
  | fixed, t, t' => t' = t

inductive Respects : List Gap → List Token → List Token → Prop
  | nil : Respects [] [] []
  | cons {g : Gap} {t t' : Token} {gs : List Gap} {ts ts' : List Token} (h : g.Allows t t')
    (hs : Respects gs ts ts') : Respects (g :: gs) (t :: ts) (t' :: ts')

/-- Tokens that differ in layout only, and nowhere that a type is sensitive to it. What stands in
front of the first token is free. -/
inductive Relaid (held : Nat → Bool) : List Token → List Token → Prop
  | nil : Relaid held [] []
  | cons {t t' : Token} {ts ts' : List Token} (hbare : t'.bare = t.bare)
    (hline : t.isWord "is" = true → t'.startsLine = t.startsLine)
    (hbracket : held (ts.length + 1) = true → t.opens "[" = true →
      t'.followsLineEnd = t.followsLineEnd)
    (hnext : ∀ u ∈ ts.head?, ∀ u' ∈ ts'.head?, (gapIn (held ts.length) t u).Allows u u')
    (h : Relaid held ts ts') :
    Relaid held (t :: ts) (t' :: ts')

variable {held : Nat → Bool}

@[simp] theorem kind_bare (t : Token) : t.bare.kind = t.kind := rfl

@[simp] theorem text_bare (t : Token) : t.bare.text = t.text := rfl

@[simp] theorem isMark_bare (m : String) (t : Token) : t.bare.isMark m = t.isMark m := rfl

@[simp] theorem isWord_bare (w : String) (t : Token) : t.bare.isWord w = t.isWord w := rfl

@[simp] theorem opens_bare (o : String) (t : Token) : t.bare.opens o = t.opens o := rfl

theorem kind_of_bare {t t' : Token} (h : t'.bare = t.bare) : t'.kind = t.kind := by
  rw [← kind_bare t', h, kind_bare]

theorem text_of_bare {t t' : Token} (h : t'.bare = t.bare) : t'.text = t.text := by
  rw [← text_bare t', h, text_bare]

theorem isMark_of_bare {t t' : Token} (h : t'.bare = t.bare) (m : String) : t'.isMark m = t.isMark m := by
  rw [← isMark_bare m t', h, isMark_bare]

theorem isWord_of_bare {t t' : Token} (h : t'.bare = t.bare) (w : String) : t'.isWord w = t.isWord w := by
  rw [← isWord_bare w t', h, isWord_bare]

theorem opens_of_bare {t t' : Token} (h : t'.bare = t.bare) (o : String) : t'.opens o = t.opens o := by
  rw [← opens_bare o t', h, opens_bare]

theorem Gap.Allows.refl (g : Gap) (t : Token) : g.Allows t t := by
  cases g <;> simp [Gap.Allows]

theorem Gap.Allows.trans {g : Gap} {t t' t'' : Token} (h : g.Allows t t') (h' : g.Allows t' t'') :
    g.Allows t t'' := by
  cases g with
  | free => exact Eq.trans h' h
  | unbroken => exact ⟨h'.1.trans h.1, h'.2.1.trans h.2.1, h'.2.2.trans h.2.2⟩
  | fixed => exact Eq.trans h' h

theorem Gap.Allows.bare {g : Gap} {t t' : Token} (h : g.Allows t t') : t'.bare = t.bare := by
  cases g with
  | free => exact h
  | unbroken => exact h.1
  | fixed => rw [h]

theorem Gap.Allows.startsLine {g : Gap} {t t' : Token} (h : g.Allows t t') (hg : g ≠ .free) :
    t'.startsLine = t.startsLine := by
  cases g with
  | free => exact (hg rfl).elim
  | unbroken => exact h.2.1
  | fixed => rw [h]

theorem Gap.Allows.followsLineEnd {g : Gap} {t t' : Token} (h : g.Allows t t') (hg : g ≠ .free) :
    t'.followsLineEnd = t.followsLineEnd := by
  cases g with
  | free => exact (hg rfl).elim
  | unbroken => exact h.2.2
  | fixed => rw [h]

theorem gapIn_is {u : Token} (hu : u.isWord "is" = true) (here : Bool) (t : Token) :
    gapIn here t u ≠ .free := by
  unfold gapIn
  split
  · simp
  · simp [hu]

theorem gapIn_asserts {t u : Token} (ht : t.isWord "asserts" = true) (hu : u.kind = .word)
    (here : Bool) : gapIn here t u ≠ .free := by
  unfold gapIn
  split
  · simp
  · simp [ht, hu]

theorem gapIn_bracket {u : Token} (hu : u.opens "[" = true) (t : Token) : gapIn true t u ≠ .free := by
  unfold gapIn
  split
  · simp
  · split <;> simp [hu]

theorem gapIn_dot {t u : Token} (h : t.isMark "." = true ∨ u.isMark "." = true) (here : Bool) :
    gapIn here t u = .fixed := by
  obtain h | h := h <;> simp [gapIn, h]

theorem gapIn_unique {t u : Token} (ht : t.isWord "unique" = true) (hu : u.isWord "symbol" = true)
    (here : Bool) : gapIn here t u = .fixed := by
  simp [gapIn, ht, hu]

theorem Respects.map_bare {gs : List Gap} {ts ts' : List Token} (h : Respects gs ts ts') :
    ts'.map Token.bare = ts.map Token.bare := by
  induction h with
  | nil => rfl
  | cons h _ ih => rw [List.map_cons, List.map_cons, h.bare, ih]

theorem respects_refl {gs : List Gap} {ts : List Token} (h : gs.length = ts.length) :
    Respects gs ts ts := by
  induction gs generalizing ts with
  | nil =>
    obtain rfl : ts = [] := List.length_eq_zero_iff.mp (by simpa using h.symm)
    exact .nil
  | cons g gs ih =>
    obtain ⟨t, ts, rfl⟩ := List.exists_cons_of_length_eq_add_one h.symm
    exact .cons (Gap.Allows.refl g t) (ih (by simpa using h))

theorem Respects.trans {gs : List Gap} {ts ts' ts'' : List Token} (h : Respects gs ts ts')
    (h' : Respects gs ts' ts'') : Respects gs ts ts'' := by
  induction h generalizing ts'' with
  | nil => exact h'
  | cons hg _ ih =>
    cases h' with
    | cons hg' hs' => exact .cons (hg.trans hg') (ih hs')

theorem Respects.length {gs : List Gap} {ts ts' : List Token} (h : Respects gs ts ts') :
    gs.length = ts'.length := by
  induction h with
  | nil => rfl
  | cons _ _ ih => rw [List.length_cons, List.length_cons, ih]

theorem respects_replace {g : Gap} {gs : List Gap} {ts us : List Token} {t t' : Token}
    (hlength : gs.length = (ts ++ t :: us).length) (hgap : gs[ts.length]? = some g)
    (h : g.Allows t t') : Respects gs (ts ++ t :: us) (ts ++ t' :: us) := by
  induction ts generalizing gs with
  | nil =>
    obtain ⟨g', gs, rfl⟩ := List.exists_cons_of_length_eq_add_one hlength
    obtain rfl : g' = g := by simpa using hgap
    exact .cons h (respects_refl (by simpa using hlength))
  | cons v ts ih =>
    obtain ⟨g', gs, rfl⟩ := List.exists_cons_of_length_eq_add_one hlength
    exact .cons (Gap.Allows.refl g' v) (ih (by simpa using hlength) (by simpa using hgap))

theorem Respects.append_cases {gs hs : List Gap} {ts us vs : List Token}
    (h : Respects (gs ++ hs) (ts ++ us) vs) (hlength : gs.length = ts.length) :
    ∃ ts' us', vs = ts' ++ us' ∧ Respects gs ts ts' ∧ Respects hs us us' := by
  induction gs generalizing ts vs with
  | nil =>
    obtain rfl : ts = [] := List.length_eq_zero_iff.mp (by simpa using hlength.symm)
    exact ⟨[], vs, rfl, .nil, h⟩
  | cons g gs ih =>
    obtain ⟨t, ts, rfl⟩ := List.exists_cons_of_length_eq_add_one hlength.symm
    cases h with
    | @cons _ _ t' _ _ _ ht hts =>
      obtain ⟨ts', us', rfl, hts, hus⟩ := ih hts (by simpa using hlength)
      exact ⟨t' :: ts', us', rfl, .cons ht hts, hus⟩

theorem Respects.eq_of_fixed {ts ts' : List Token} (h : Respects (ts.map fun _ => .fixed) ts ts') :
    ts' = ts := by
  induction ts generalizing ts' with
  | nil =>
    cases h
    rfl
  | cons t ts ih =>
    cases h with
    | cons ht hts => rw [ht, ih hts]

@[simp] theorem length_gapsOf (t : Token) (ts : List Token) :
    (gapsOf held t ts).length = ts.length := by
  induction ts generalizing t with
  | nil => rfl
  | cons u us ih => rw [gapsOf, List.length_cons, List.length_cons, ih]

theorem Respects.relaid {t : Token} {ts ts' : List Token} (h : Respects (gapsOf held t ts) ts ts') :
    Relaid held ts ts' := by
  induction ts generalizing t ts' with
  | nil =>
    cases h
    exact .nil
  | cons u us ih =>
    cases h with
    | cons hu hus =>
      refine .cons hu.bare (fun his => hu.startsLine (gapIn_is his _ t))
        (fun hheld hopens => hu.followsLineEnd (hheld ▸ gapIn_bracket hopens t)) ?_ (ih hus)
      cases us with
      | nil => simp
      | cons v vs =>
        cases hus with
        | cons hv _ => simpa using hv

theorem relaid_refl (ts : List Token) : Relaid held ts ts := by
  induction ts with
  | nil => exact .nil
  | cons t ts ih =>
    refine .cons rfl (fun _ => rfl) (fun _ _ => rfl) (fun u hu u' hu' => ?_) ih
    obtain rfl : u' = u := by simp_all
    exact Gap.Allows.refl _ u'

theorem Relaid.append_same {ts ts' us : List Token}
    (h : Relaid (fun n => held (n + us.length)) ts ts') : Relaid held (ts ++ us) (ts' ++ us) := by
  induction h with
  | nil => exact relaid_refl us
  | @cons t t' ts ts' hbare hline hbracket hnext h ih =>
    rw [List.cons_append, List.cons_append]
    refine .cons hbare hline (fun hheld => hbracket ?_) ?_ ih
    · rwa [List.length_append, Nat.add_right_comm] at hheld
    rw [List.length_append]
    cases h with
    | nil =>
      intro u hu u' hu'
      obtain rfl : u' = u := by simp_all
      exact Gap.Allows.refl _ u'
    | cons _ _ _ _ _ => exact hnext

theorem Relaid.map_bare {ts ts' : List Token} (h : Relaid held ts ts') :
    ts'.map Token.bare = ts.map Token.bare := by
  induction h with
  | nil => rfl
  | cons hbare _ _ _ _ ih => rw [List.map_cons, List.map_cons, hbare, ih]

theorem Relaid.length {ts ts' : List Token} (h : Relaid held ts ts') : ts'.length = ts.length := by
  have hlength := congrArg List.length h.map_bare
  simpa using hlength

theorem Relaid.suffix {ts ts' rest rest' : List Token} (h : Relaid held ts ts') (hr : rest <:+ ts)
    (hr' : rest' <:+ ts') (hlength : rest'.length = rest.length) : Relaid held rest rest' := by
  induction h with
  | nil =>
    rw [List.suffix_nil] at hr hr'
    rw [hr, hr']
    exact .nil
  | @cons t t' ts ts' hbare hline hbracket hnext h ih =>
    have htail := h.length
    obtain rfl | hr := List.suffix_cons_iff.mp hr
    · have hwhole : rest' = t' :: ts' := hr'.eq_of_length (by simp [hlength, htail])
      rw [hwhole]
      exact .cons hbare hline hbracket hnext h
    · obtain rfl | hr' := List.suffix_cons_iff.mp hr'
      · have hle := hr.length_le
        simp only [List.length_cons] at hlength
        omega
      · exact ih hr hr'

/-! ### Readers that do not look at layout -/

/-- A reader that looks at bare tokens only. -/
def IgnoresLayout (read : List Token → List Token) : Prop :=
  ∀ ts, read (ts.map Token.bare) = (read ts).map Token.bare

theorem IgnoresLayout.length {read : List Token → List Token} (h : IgnoresLayout read)
    {ts ts' : List Token} (hts : ts'.map Token.bare = ts.map Token.bare) :
    (read ts').length = (read ts).length := by
  have hread : (read ts').map Token.bare = (read ts).map Token.bare := by
    rw [← h ts', hts, h ts]
  simpa using congrArg List.length hread

/-- Such a reader, if it leaves an end of its tokens, leaves tokens that differ in layout only. -/
theorem Relaid.read {read : List Token → List Token} (hread : IgnoresLayout read)
    (hsuffix : ∀ ts, read ts <:+ ts) {ts ts' : List Token} (h : Relaid held ts ts') :
    Relaid held (read ts) (read ts') :=
  h.suffix (hsuffix ts) (hsuffix ts') (hread.length h.map_bare)

theorem splitGroup_bare (depth : Nat) (ts : List Token) :
    splitGroup depth (ts.map Token.bare) =
      ((splitGroup depth ts).1.map Token.bare, (splitGroup depth ts).2.map Token.bare) := by
  induction ts generalizing depth with
  | nil => rfl
  | cons t ts ih =>
    rw [List.map_cons, splitGroup.eq_def, splitGroup.eq_def]
    simp only [kind_bare]
    split
    · simp
    · simp [ih]
    · simp [ih]
    · simp [ih]

theorem splitPiece_bare (ts : List Token) :
    splitPiece (ts.map Token.bare) =
      ((splitPiece ts).1.map Token.bare, (splitPiece ts).2.map Token.bare) := by
  cases ts with
  | nil => rfl
  | cons t ts =>
    rw [List.map_cons, splitPiece, splitPiece, kind_bare]
    split
    · simp [splitGroup_bare]
    · simp

theorem ignoresLayout_splitPiece : IgnoresLayout fun ts => (splitPiece ts).2 := by
  intro ts
  exact congrArg Prod.snd (splitPiece_bare ts)

theorem ignoresLayout_dropDotted : IgnoresLayout dropDotted := by
  intro ts
  fun_induction dropDotted ts with
  | case1 dot part ts h ih =>
    rw [List.map_cons, List.map_cons, dropDotted, isMark_bare, kind_bare, if_pos h, ih]
  | case2 dot part ts h =>
    rw [List.map_cons, List.map_cons, dropDotted, isMark_bare, kind_bare, if_neg h]
  | case3 ts h =>
    match ts, h with
    | [], _ => rfl
    | [_], _ => rfl
    | dot :: part :: ts, h => exact (h dot part ts rfl).elim

theorem ignoresLayout_dropCall : IgnoresLayout dropCall := by
  intro ts
  cases ts with
  | nil => rfl
  | cons t ts =>
    rw [List.map_cons, dropCall, dropCall, opens_bare, ← List.map_cons]
    split
    · exact ignoresLayout_splitPiece (t :: ts)
    · rfl

theorem ignoresLayout_dropFinalComma : IgnoresLayout dropFinalComma := by
  intro ts
  match ts with
  | [] => rfl
  | [_] => rfl
  | comma :: t :: ts =>
    rw [List.map_cons, List.map_cons, dropFinalComma, dropFinalComma, isMark_bare, isMark_bare]
    split <;> rfl

theorem Relaid.splitPiece {ts ts' : List Token} (h : Relaid held ts ts') :
    Relaid held (splitPiece ts).2 (splitPiece ts').2 :=
  h.read ignoresLayout_splitPiece splitPiece_suffix

theorem Relaid.dropDotted {ts ts' : List Token} (h : Relaid held ts ts') :
    Relaid held (dropDotted ts) (dropDotted ts') :=
  h.read ignoresLayout_dropDotted dropDotted_suffix

theorem Relaid.dropCall {ts ts' : List Token} (h : Relaid held ts ts') :
    Relaid held (dropCall ts) (dropCall ts') :=
  h.read ignoresLayout_dropCall dropCall_suffix

theorem Relaid.dropFinalComma {ts ts' : List Token} (h : Relaid held ts ts') :
    Relaid held (dropFinalComma ts) (dropFinalComma ts') :=
  h.read ignoresLayout_dropFinalComma dropFinalComma_suffix

end ScriptManifest.Source
