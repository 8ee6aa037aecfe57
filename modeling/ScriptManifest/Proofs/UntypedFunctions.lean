import ScriptManifest.Proofs.Locality
import ScriptManifest.Proofs.PlainSource
import ScriptManifest.Proofs.SignatureOrigin
import ScriptManifest.Proofs.TypeReading

/-!
Functions without annotations, in code that every dialect reads. The readers of typed and of untyped
code find the same parameters in them, for the comma behind a default value never stands between type
arguments: what follows it is a parameter and no type (`UntypedParameters.blocksAngles`).
-/

namespace ScriptManifest.Source

/-! ### Code without annotations -/

inductive Closed : List Token → Prop
  | nil : Closed []
  | token {t : Token} {ts : List Token} (ho : t.kind ≠ .opener) (hc : t.kind ≠ .closer)
    (h : Closed ts) : Closed (t :: ts)
  | group {o c : Token} {inner ts : List Token} (ho : o.kind = .opener) (hc : c.kind = .closer)
    (hi : Closed inner) (h : Closed ts) : Closed (o :: (inner ++ c :: ts))

/-- The tokens of an expression: every bracket is closed, and no comma stands outside of them. -/
inductive IsValue : List Token → Prop
  | nil : IsValue []
  | token {t : Token} {ts : List Token} (ho : t.kind ≠ .opener) (hc : t.kind ≠ .closer)
    (hcomma : t.isMark "," = false) (h : IsValue ts) : IsValue (t :: ts)
  | group {o c : Token} {inner ts : List Token} (ho : o.kind = .opener) (hc : c.kind = .closer)
    (hi : Closed inner) (h : IsValue ts) : IsValue (o :: (inner ++ c :: ts))

/-- What a parameter binds: a name, or an object or array pattern. -/
inductive IsPattern : List Token → Prop
  | word {t : Token} (h : t.kind = .word) : IsPattern [t]
  | group {o c : Token} {inner : List Token} (ho : o.opens "\x7b" = true ∨ o.opens "[" = true)
    (hc : c.kind = .closer) (hi : Closed inner) : IsPattern (o :: (inner ++ [c]))

/-- A parameter without an annotation, and the text of its pattern. -/
inductive UntypedParameter : String → List Token → Prop
  | plain {ts : List Token} (h : IsPattern ts) : UntypedParameter (spell ts) ts
  | rest {dots : Token} {ts : List Token} (hd : dots.isMark "..." = true) (h : IsPattern ts) :
    UntypedParameter (spell ts) (dots :: ts)
  | initial {equals : Token} {ts value : List Token} (h : IsPattern ts)
    (he : equals.isMark "=" = true) (hv : IsValue value) :
    UntypedParameter (spell ts) (ts ++ equals :: value)

/-- Parameters with commas between them, and perhaps behind the last one. -/
inductive UntypedParameters : List String → List Token → Prop
  | none : UntypedParameters [] []
  | last {n : String} {ts : List Token} (h : UntypedParameter n ts) : UntypedParameters [n] ts
  | more {n : String} {ns : List String} {comma : Token} {ts us : List Token}
    (h : UntypedParameter n ts) (hc : comma.isMark "," = true) (hs : UntypedParameters ns us) :
    UntypedParameters (n :: ns) (ts ++ comma :: us)

theorem Closed.balanced {ts : List Token} (h : Closed ts) : Balanced ts := by
  induction h with
  | nil => exact balanced_nil
  | token ho hc _ ih => exact ih.cons ho hc
  | @group o c inner ts ho hc _ _ hinner hts =>
    have hgroup := (hinner.group ho hc).append hts
    simpa using hgroup

theorem Closed.append {ts us : List Token} (h : Closed ts) (h' : Closed us) : Closed (ts ++ us) := by
  induction h with
  | nil => exact h'
  | token ho hc _ ih => exact .token ho hc ih
  | group ho hc hi _ _ ih =>
    rw [List.cons_append, List.append_assoc]
    exact .group ho hc hi ih

theorem Token.isMark_iff {t : Token} {m : String} : t.isMark m = true ↔ t.kind = .mark ∧ t.text = m := by
  simp [Token.isMark]

theorem Token.kind_of_opens {t : Token} {m : String} (h : t.opens m = true) : t.kind = .opener := by
  simp only [Token.opens, Bool.and_eq_true, beq_iff_eq] at h
  exact h.1

theorem IsPattern.ne_nil {ts : List Token} (h : IsPattern ts) : ts ≠ [] := by
  cases h <;> simp

theorem Token.closed_of_isMark {t : Token} {m : String} (h : t.isMark m = true) {ts : List Token}
    (hts : Closed ts) : Closed (t :: ts) := by
  have hk := (Token.isMark_iff.mp h).1
  exact .token (by simp [hk]) (by simp [hk]) hts

theorem IsValue.closed {ts : List Token} (h : IsValue ts) : Closed ts := by
  induction h with
  | nil => exact .nil
  | token ho hc _ _ ih => exact .token ho hc ih
  | group ho hc hi _ ih => exact .group ho hc hi ih

theorem IsPattern.closed {ts : List Token} (h : IsPattern ts) : Closed ts := by
  cases h with
  | word h => exact .token (by simp [h]) (by simp [h]) .nil
  | group ho hc hi => exact .group (ho.elim Token.kind_of_opens Token.kind_of_opens) hc hi .nil

theorem UntypedParameter.closed {n : String} {ts : List Token} (h : UntypedParameter n ts) :
    Closed ts := by
  cases h with
  | plain h => exact h.closed
  | rest hd h => exact Token.closed_of_isMark hd h.closed
  | initial h he hv => exact h.closed.append (Token.closed_of_isMark he hv.closed)

theorem UntypedParameters.closed {ns : List String} {ts : List Token}
    (h : UntypedParameters ns ts) : Closed ts := by
  induction h with
  | none => exact .nil
  | last h => exact h.closed
  | more h hc _ ih => exact h.closed.append (Token.closed_of_isMark hc ih)

theorem IsPattern.splitPiece {ts : List Token} (h : IsPattern ts) (rest : List Token) :
    splitPiece (ts ++ rest) = (ts, rest) := by
  cases h with
  | word h => simp [Source.splitPiece, h]
  | @group o c inner ho hc hi =>
    have hopener : o.kind = .opener := ho.elim Token.kind_of_opens Token.kind_of_opens
    simpa using splitPiece_group hopener hc hi.balanced rest

theorem IsPattern.dropMark {ts : List Token} (h : IsPattern ts) (m : String) (rest : List Token) :
    dropMark m (ts ++ rest) = ts ++ rest := by
  cases h with
  | word h => simp [Source.dropMark, Token.isMark, h]
  | @group o c inner ho hc hi =>
    have hopener : o.kind = .opener := ho.elim Token.kind_of_opens Token.kind_of_opens
    simp [Source.dropMark, Token.isMark, hopener]

def EndsPattern (rest : List Token) : Prop :=
  ∀ t ∈ rest.head?, t.isMark "=" = true ∨ t.isMark "," = true

theorem EndsPattern.startsPattern {rest : List Token} (h : EndsPattern rest) :
    rest.head?.any startsPattern = false := by
  cases rest with
  | nil => rfl
  | cons t rest =>
    obtain ht | ht := h t (by simp) <;>
      simp [Source.startsPattern, Token.opens, Token.isMark, (Token.isMark_iff.mp ht).1,
        (Token.isMark_iff.mp ht).2]

theorem EndsPattern.isMark_eq_false {rest : List Token} (h : EndsPattern rest) {m : String}
    (hm : m ≠ "=" ∧ m ≠ ",") : ∀ t ∈ rest.head?, t.isMark m = false := by
  intro t ht
  obtain ht | ht := h t ht <;>
    simp [Token.isMark, (Token.isMark_iff.mp ht).1, (Token.isMark_iff.mp ht).2, hm.1.symm, hm.2.symm]

theorem dropMark_of_head {m : String} {rest : List Token}
    (h : ∀ t ∈ rest.head?, t.isMark m = false) : dropMark m rest = rest := by
  cases rest with
  | nil => rfl
  | cons t rest => simp [dropMark, h t (by simp)]

theorem readAnnotated_of_head (typed atEnd : Bool) {rest : List Token}
    (h : ∀ t ∈ rest.head?, t.isMark ":" = false) :
    readAnnotated typed atEnd rest = (none, rest) := by
  cases typed with
  | false => rfl
  | true =>
    cases rest with
    | nil => rfl
    | cons t rest => simp [readResult_cons, h t (by simp)]

theorem IsPattern.dropModifiers {ts rest : List Token} (h : IsPattern ts)
    (hr : rest.head?.any Source.startsPattern = false) (fuel : Nat) : dropModifiers fuel (ts ++ rest) = ts ++ rest := by
  cases fuel with
  | zero => rfl
  | succ fuel =>
    cases h with
    | word h => simp [Source.dropModifiers, Token.isMark, h, hr]
    | @group o c inner ho hc hi =>
      have hopener : o.kind = .opener := ho.elim Token.kind_of_opens Token.kind_of_opens
      simp [Source.dropModifiers, Token.isMark, hopener]

/-! ### Default values -/

theorem dropValue_hold (typed : Bool) (n depth : Nat) (ts : List Token) :
    dropValue typed n depth ts = dropValue typed 0 depth (ts.drop n) := by
  induction n generalizing ts with
  | zero => rfl
  | succ n ih =>
    cases ts with
    | nil => simp [dropValue]
    | cons t ts =>
      rw [dropValue, ih]
      rfl

theorem Closed.dropValue {typed : Bool} {ts : List Token} (h : Closed ts) (depth : Nat)
    (rest : List Token) :
    dropValue typed 0 (depth + 1) (ts ++ rest) = dropValue typed 0 (depth + 1) rest := by
  induction h generalizing depth rest with
  | nil => rfl
  | @token t ts ho hc _ ih =>
    rw [List.cons_append, ← ih depth rest, Source.dropValue.eq_def]
    cases hk : t.kind <;> simp_all
  | @group o c inner ts ho hc _ _ hinner hts =>
    rw [List.cons_append, List.append_assoc, List.cons_append, Source.dropValue.eq_def]
    simp only [ho]
    rw [hinner (depth + 1), Source.dropValue.eq_def]
    simp only [hc]
    exact hts depth rest

theorem Closed.anglesLength {ts : List Token} (h : Closed ts) (angles depth : Nat)
    (rest : List Token) :
    anglesLength (angles + 1) (depth + 1) (ts ++ rest) =
      (anglesLength (angles + 1) (depth + 1) rest).map (· + ts.length) := by
  induction h generalizing depth rest with
  | nil => simp
  | @token t ts ho hc _ ih =>
    have hstep : Source.anglesLength (angles + 1) (depth + 1) (t :: (ts ++ rest)) =
        (Source.anglesLength (angles + 1) (depth + 1) (ts ++ rest)).map (· + 1) := by
      rw [Source.anglesLength]
      cases hk : t.kind <;> simp_all
    rw [List.cons_append, hstep, ih depth rest, Option.map_map]
    rfl
  | @group o c inner ts ho hc _ _ hinner hts =>
    have hopen : Source.anglesLength (angles + 1) (depth + 1) (o :: (inner ++ c :: (ts ++ rest))) =
        (Source.anglesLength (angles + 1) (depth + 2) (inner ++ c :: (ts ++ rest))).map (· + 1) := by
      rw [Source.anglesLength]
      simp only [ho]
    have hclose : Source.anglesLength (angles + 1) (depth + 2) (c :: (ts ++ rest)) =
        (Source.anglesLength (angles + 1) (depth + 1) (ts ++ rest)).map (· + 1) := by
      rw [Source.anglesLength]
      simp only [hc]
    rw [List.cons_append, List.append_assoc, List.cons_append, hopen, hinner, hclose, hts]
    simp only [Option.map_map]
    congr 1
    funext n
    simp only [Function.comp_apply, List.length_cons, List.length_append]
    omega

theorem anglesLength_group {o c : Token} {inner : List Token} (ho : o.kind = .opener)
    (hc : c.kind = .closer) (hi : Closed inner) (angles : Nat) (rest : List Token) :
    anglesLength (angles + 1) 0 (o :: (inner ++ c :: rest)) =
      (anglesLength (angles + 1) 0 rest).map (· + (inner.length + 2)) := by
  have hopen : anglesLength (angles + 1) 0 (o :: (inner ++ c :: rest)) =
      (anglesLength (angles + 1) 1 (inner ++ c :: rest)).map (· + 1) := by
    rw [anglesLength]
    simp only [ho]
  have hclose : anglesLength (angles + 1) 1 (c :: rest) =
      (anglesLength (angles + 1) 0 rest).map (· + 1) := by
    rw [anglesLength]
    simp only [hc]
  rw [hopen, hi.anglesLength, hclose]
  simp only [Option.map_map]
  congr 1
  funext n
  simp only [Function.comp_apply]
  omega

def BlocksAngles (rest : List Token) : Prop := ∀ angles, anglesLength (angles + 1) 0 rest = none

theorem blocksAngles_nil : BlocksAngles [] := fun _ => rfl

theorem blocksAngles_mark {t : Token} {m : String} (ht : t.isMark m = true)
    (hm : m ∉ "<" :: ">" :: typeMarks) (rest : List Token) : BlocksAngles (t :: rest) := by
  intro angles
  obtain ⟨hk, htext⟩ := Token.isMark_iff.mp ht
  simp only [List.mem_cons, not_or] at hm
  rw [anglesLength]
  simp [hk, htext, hm.1, hm.2.1, hm.2.2]

theorem BlocksAngles.comma {t : Token} (ht : t.isMark "," = true) {rest : List Token}
    (h : BlocksAngles rest) : BlocksAngles (t :: rest) := by
  intro angles
  obtain ⟨hk, htext⟩ := Token.isMark_iff.mp ht
  rw [anglesLength]
  simp [hk, htext, typeMarks, h angles]

theorem IsPattern.blocksAngles {ts rest : List Token} (h : IsPattern ts) (hr : BlocksAngles rest) :
    BlocksAngles (ts ++ rest) := by
  intro angles
  cases h with
  | word h =>
    rw [List.singleton_append, anglesLength]
    simp [h, hr angles]
  | @group o c inner ho hc hi =>
    have hopener : o.kind = .opener := ho.elim Token.kind_of_opens Token.kind_of_opens
    have hgroup := anglesLength_group hopener hc hi angles rest
    rw [List.cons_append, List.append_assoc, List.singleton_append, hgroup, hr angles]
    rfl

theorem UntypedParameter.blocksAngles {n : String} {ts rest : List Token}
    (h : UntypedParameter n ts) (hr : BlocksAngles rest) : BlocksAngles (ts ++ rest) := by
  cases h with
  | plain h => exact h.blocksAngles hr
  | rest hd h => exact blocksAngles_mark hd (by decide) _
  | initial h he hv =>
    rw [List.append_assoc]
    exact h.blocksAngles (blocksAngles_mark he (by decide) _)

theorem UntypedParameters.blocksAngles {ns : List String} {ts : List Token}
    (h : UntypedParameters ns ts) : BlocksAngles ts := by
  induction h with
  | none => exact blocksAngles_nil
  | last h =>
    have hlast := h.blocksAngles blocksAngles_nil
    rwa [List.append_nil] at hlast
  | more h hc _ ih => exact h.blocksAngles (ih.comma hc)

theorem IsValue.drop_anglesLength {v rest : List Token} (hv : IsValue v) (hr : BlocksAngles rest)
    {angles n : Nat} (hn : anglesLength (angles + 1) 0 (v ++ rest) = some n) :
    n ≤ v.length ∧ IsValue (v.drop n) := by
  induction hv generalizing angles n with
  | nil => simp [hr angles] at hn
  | @token t ts ho hc hcomma hts ih =>
    -- every token but the last closing angle bracket leaves the count to what follows it
    have hnext : ∀ {a : Nat}, (anglesLength (a + 1) 0 (ts ++ rest)).map (· + 1) = some n →
        n ≤ (t :: ts).length ∧ IsValue ((t :: ts).drop n) := by
      intro a ha
      obtain ⟨m, hm, rfl⟩ := Option.map_eq_some_iff.mp ha
      have ⟨hle, hdrop⟩ := ih hm
      exact ⟨by simpa using hle, by simpa using hdrop⟩
    rw [List.cons_append, anglesLength] at hn
    split at hn
    · next hk => exact (ho hk).elim
    · exact hnext hn
    · exact hnext hn
    · exact hnext hn
    · split at hn
      · exact hnext hn
      · split at hn
        · cases angles with
          | zero =>
            rw [anglesLength] at hn
            cases hn
            exact ⟨by simp, by simpa using hts⟩
          | succ angles => exact hnext hn
        · split at hn
          · exact hnext hn
          · cases hn
    · cases hn
  | @group o c inner ts ho hc hi hts ih =>
    rw [List.cons_append, List.append_assoc, List.cons_append, anglesLength_group ho hc hi] at hn
    obtain ⟨m, hm, rfl⟩ := Option.map_eq_some_iff.mp hn
    have ⟨hle, hdrop⟩ := ih hm
    refine ⟨by simp only [List.length_cons, List.length_append]; omega, ?_⟩
    have hsplit : o :: (inner ++ c :: ts) = (o :: (inner ++ [c])) ++ ts := by simp
    have hlength : m + (inner.length + 2) = (o :: (inner ++ [c])).length + m := by
      simp only [List.length_cons, List.length_append, List.length_nil]
      omega
    rwa [hsplit, hlength, List.drop_length_add_append]

theorem IsValue.drop_bracketedTypesLength {v rest : List Token} (hv : IsValue v)
    (hr : BlocksAngles rest) :
    bracketedTypesLength (v ++ rest) ≤ v.length ∧
      IsValue (v.drop (bracketedTypesLength (v ++ rest))) := by
  unfold bracketedTypesLength
  cases hn : anglesLength 1 0 (v ++ rest) with
  | none => exact ⟨Nat.zero_le _, hv⟩
  | some n => exact hv.drop_anglesLength hr hn

theorem dropValue_of_head (typed : Bool) {rest : List Token}
    (hend : ∀ t ∈ rest.head?, t.isMark "," = true) : dropValue typed 0 0 rest = rest := by
  cases rest with
  | nil => rfl
  | cons t rest =>
    obtain ⟨hk, htext⟩ := Token.isMark_iff.mp (hend t (by simp))
    simp [dropValue, hk, htext]

theorem IsValue.dropValue {typed : Bool} {v rest : List Token} (hv : IsValue v)
    (hr : BlocksAngles rest) (hend : ∀ t ∈ rest.head?, t.isMark "," = true) :
    dropValue typed 0 0 (v ++ rest) = rest := by
  -- by induction on the length, for type arguments are passed over in one step
  induction hlength : v.length using Nat.strongRecOn generalizing v with
  | ind length ih =>
    cases hv with
    | nil => exact dropValue_of_head typed hend
    | @token t ts ho hc hcomma hts =>
      have hnext := ih ts.length (by simp at hlength; omega) hts rfl
      rw [List.cons_append, Source.dropValue.eq_def]
      dsimp only
      split
      · next hk => exact (ho hk).elim
      · next hk =>
        have hne : t.text ≠ "," := by simpa [Token.isMark, hk] using hcomma
        rw [if_neg hne]
        split
        · have ⟨hle, hdrop⟩ := hts.drop_bracketedTypesLength hr
          rw [dropValue_hold, List.drop_append_of_le_length hle]
          exact ih _ (by simp at hlength ⊢; omega) hdrop rfl
        · exact hnext
      · exact hnext
    | @group o c inner ts ho hc hi hts =>
      have hnext := ih ts.length (by simp at hlength; omega) hts rfl
      rw [List.cons_append, List.append_assoc, List.cons_append, Source.dropValue.eq_def]
      simp only [ho]
      rw [hi.dropValue 0, Source.dropValue.eq_def]
      simp only [hc]
      exact hnext

/-! ### Parameters -/

theorem readParameter_pattern {typed : Bool} {ts us tail rest : List Token}
    (hfront : dropMark "..." (dropModifiers ts.length ts) = us ++ tail) (hus : IsPattern us)
    (htail : EndsPattern tail) (hdrop : dropValue typed 0 0 tail = rest) :
    readParameter typed ts = (⟨spell us, none⟩, rest) := by
  have hmark := dropMark_of_head (htail.isMark_eq_false (m := "?") (by decide))
  have hcolon := readAnnotated_of_head typed false (htail.isMark_eq_false (m := ":") (by decide))
  simp only [readParameter_eq, hfront, hus.splitPiece, hmark, hcolon, hdrop]

theorem readParameter_untyped (typed : Bool) {n : String} {ts rest : List Token}
    (h : UntypedParameter n ts) (hr : BlocksAngles rest)
    (hend : ∀ t ∈ rest.head?, t.isMark "," = true) :
    readParameter typed (ts ++ rest) = (⟨n, none⟩, rest) := by
  have hcomma : EndsPattern rest := fun t ht => .inr (hend t ht)
  have hnone := dropValue_of_head typed hend
  cases h with
  | plain h =>
    apply readParameter_pattern _ h hcomma hnone
    rw [h.dropModifiers hcomma.startsPattern, h.dropMark]
  | @rest dots ts hd h =>
    apply readParameter_pattern _ h hcomma hnone
    obtain ⟨hk, htext⟩ := Token.isMark_iff.mp hd
    simp [dropModifiers, dropMark, Token.isMark, hk, htext]
  | @initial equals ts value h he hv =>
    obtain ⟨hk, htext⟩ := Token.isMark_iff.mp he
    have htail : EndsPattern (equals :: (value ++ rest)) := by
      intro t ht
      obtain rfl : equals = t := by simpa using ht
      exact .inl he
    have hvalue : IsValue (equals :: value) :=
      .token (by simp [hk]) (by simp [hk]) (by simp [Token.isMark, htext]) hv
    rw [List.append_assoc, List.cons_append]
    apply readParameter_pattern _ h htail (hvalue.dropValue hr hend)
    rw [h.dropModifiers htail.startsPattern, h.dropMark]

theorem UntypedParameter.exists_cons {n : String} {ts : List Token} (h : UntypedParameter n ts) :
    ∃ t us, ts = t :: us ∧ t.isMark "," = false := by
  have hpattern : ∀ {us : List Token}, IsPattern us → ∃ t vs, us = t :: vs ∧ t.isMark "," = false := by
    intro us hus
    cases hus with
    | word h => exact ⟨_, _, rfl, by simp [Token.isMark, h]⟩
    | group ho _ _ =>
      have hopener := ho.elim Token.kind_of_opens Token.kind_of_opens
      exact ⟨_, _, rfl, by simp [Token.isMark, hopener]⟩
  cases h with
  | plain h => exact hpattern h
  | rest hd h => exact ⟨_, _, rfl, by simp [Token.isMark, (Token.isMark_iff.mp hd).2]⟩
  | initial h he hv =>
    obtain ⟨t, vs, rfl, ht⟩ := hpattern h
    exact ⟨t, _, rfl, ht⟩

theorem readParameters_cons (typed : Bool) {n : String} {ts rest : List Token}
    (h : UntypedParameter n ts) (hr : BlocksAngles rest)
    (hend : ∀ t ∈ rest.head?, t.isMark "," = true) (fuel : Nat) :
    readParameters typed (fuel + 1) (ts ++ rest) = ⟨n, none⟩ :: readParameters typed fuel rest := by
  have hread := readParameter_untyped typed h hr hend
  obtain ⟨t, us, rfl, ht⟩ := h.exists_cons
  rw [List.cons_append] at hread ⊢
  rw [readParameters_succ, hread]
  simp [ht]

theorem readParameters_untyped (typed : Bool) {ns : List String} {ts : List Token}
    (h : UntypedParameters ns ts) (fuel : Nat) (hfuel : ts.length ≤ fuel) :
    readParameters typed fuel ts = ns.map fun n => ⟨n, none⟩ := by
  induction h generalizing fuel with
  | none => cases fuel <;> rfl
  | @last n ts h =>
    obtain ⟨fuel, rfl⟩ : ∃ f, fuel = f + 1 := by
      obtain ⟨t, us, rfl, -⟩ := h.exists_cons
      exact ⟨fuel - 1, by simp at hfuel; omega⟩
    have hone := readParameters_cons typed h blocksAngles_nil (by simp) fuel
    rw [List.append_nil] at hone
    rw [hone]
    cases fuel <;> rfl
  | @more n ns comma ts us h hc hs ih =>
    simp only [List.length_append, List.length_cons] at hfuel
    have hpos : 0 < ts.length := by
      obtain ⟨t, vs, rfl, -⟩ := h.exists_cons
      simp
    obtain ⟨fuel, rfl⟩ : ∃ f, fuel = f + 2 := ⟨fuel - 2, by omega⟩
    have hone := readParameters_cons typed h (hs.blocksAngles.comma hc)
      (by simpa using hc) (fuel + 1)
    have hrest : readParameters typed (fuel + 1) (comma :: us) = ns.map fun n => ⟨n, none⟩ := by
      rw [readParameters_succ, if_pos hc]
      exact ih fuel (by omega)
    rw [hone, hrest, List.map_cons]

/-! ### Declarations -/

/-- What stands in front of a function that is declared: nothing or `export`, and `export default`
for one that may go without a name. -/
inductive Introduces : (anonymous : Bool) → List Token → Prop
  | plain : Introduces false []
  | exported {e : Token} (he : e.isWord "export" = true) : Introduces false [e]
  | default {e d : Token} (he : e.isWord "export" = true) (hd : d.isWord "default" = true) :
    Introduces true [e, d]

/-- The word `function`, or `async function` on one line. -/
inductive StartsFunction : List Token → Prop
  | plain {f : Token} (hf : f.isWord "function" = true) : StartsFunction [f]
  | async {a f : Token} (ha : a.isWord "async" = true) (hf : f.isWord "function" = true)
    (hline : f.startsLine = false) : StartsFunction [a, f]

/-- The name of a function, behind the star of a generator; only some go without one. -/
inductive NamesFunction (anonymous : Bool) : Option String → List Token → Prop
  | named {n : Token} (hn : n.kind = .word) : NamesFunction anonymous (some n.text) [n]
  | generator {s n : Token} (hs : s.isMark "*" = true) (hn : n.kind = .word) :
    NamesFunction anonymous (some n.text) [s, n]
  | nameless (h : anonymous = true) : NamesFunction anonymous none []
  | namelessGenerator {s : Token} (h : anonymous = true) (hs : s.isMark "*" = true) :
    NamesFunction anonymous none [s]

/-- A function declaration without annotations: its name, its parameters and its tokens. -/
inductive UntypedFunction : Option String → List String → List Token → Prop
  | mk {anonymous : Bool} {name : Option String} {names : List String}
    {front start title inner body : List Token} {o c o' c' : Token}
    (hfront : Introduces anonymous front) (hstart : StartsFunction start)
    (htitle : NamesFunction anonymous name title) (ho : o.opens "(" = true) (hc : c.kind = .closer)
    (hinner : UntypedParameters names inner) (ho' : o'.opens "\x7b" = true)
    (hc' : c'.kind = .closer) (hbody : Closed body) :
    UntypedFunction name names
      (front ++ (start ++ (title ++ o :: (inner ++ c :: o' :: (body ++ [c'])))))

theorem NamesFunction.readName {anonymous : Bool} {name : Option String} {title : List Token}
    (h : NamesFunction anonymous name title) {o : Token} (ho : o.kind = .opener)
    (rest : List Token) :
    readName (dropMark "*" (title ++ o :: rest)) = (name, o :: rest) := by
  cases h with
  | named hn => simp [dropMark, Token.isMark, Source.readName, hn]
  | generator hs hn => simp [dropMark, hs, Source.readName, hn]
  | nameless => simp [dropMark, Token.isMark, Source.readName, ho]
  | namelessGenerator _ hs => simp [dropMark, hs, Source.readName, ho]

theorem readSignature_untyped (typed : Bool) {anonymous : Bool} {name : Option String}
    {names : List String} {title inner body : List Token} {o c o' c' : Token}
    (htitle : NamesFunction anonymous name title) (ho : o.opens "(" = true) (hc : c.kind = .closer)
    (hinner : UntypedParameters names inner) (ho' : o'.opens "\x7b" = true)
    (hc' : c'.kind = .closer) (hbody : Closed body) :
    readSignature typed (title ++ o :: (inner ++ c :: o' :: (body ++ [c']))) =
      some ⟨⟨name, names.map fun n => ⟨n, none⟩, none⟩, body, []⟩ := by
  have hk := Token.kind_of_opens ho
  have hk' := Token.kind_of_opens ho'
  have hgroup := splitPiece_group hk hc hinner.closed.balanced (o' :: (body ++ [c']))
  have hparameters := readParameters_untyped typed hinner (inner.length + 1 + 1) (by omega)
  have hresult : readAnnotated typed true (o' :: (body ++ [c'])) = (none, o' :: (body ++ [c'])) :=
    readAnnotated_of_head typed true (by simp [Token.isMark, hk'])
  have hbraces := splitPiece_group hk' hc' hbody.balanced []
  have hangle : o.isMark "<" = false := by simp [Token.isMark, hk]
  simp only [readSignature_eq, htitle.readName hk, dropTypeParameters, hangle, Bool.false_eq_true,
    if_false, ho, if_true, hgroup, hresult, readBody, ho', hbraces, inside_group hc,
    inside_group hc', List.length_cons, List.length_append, List.length_nil, hparameters]

theorem isWord_eq_false {t : Token} {w w' : String} (h : t.isWord w = true) (hw : w ≠ w') :
    t.isWord w' = false := by
  simp only [Token.isWord, Bool.and_eq_true, beq_iff_eq] at h
  simp [Token.isWord, h.2, hw]

theorem StartsFunction.readFunction (typed anyLine : Bool) {start : List Token}
    (h : StartsFunction start) (rest : List Token) :
    readFunction typed anyLine (start ++ rest) = readSignature typed rest := by
  cases h with
  | plain hf => simp [Source.readFunction, hf]
  | async ha hf hline =>
    simp [Source.readFunction, ha, hf, hline, isWord_eq_false ha (show "async" ≠ "function" by decide)]

theorem StartsFunction.exists_cons {start : List Token} (h : StartsFunction start) :
    ∃ t us, start = t :: us ∧ t.isMark "=" = false ∧ t.isWord "export" = false ∧
      t.isWord "declare" = false ∧ t.isWord "default" = false := by
  have hfacts : ∀ {t : Token} {w : String}, t.isWord w = true → w ∉ ["export", "declare", "default"] →
      t.isMark "=" = false ∧ t.isWord "export" = false ∧ t.isWord "declare" = false ∧
        t.isWord "default" = false := by
    intro t w ht hw
    simp only [Token.isWord, Bool.and_eq_true, beq_iff_eq] at ht
    simp only [List.mem_cons, List.not_mem_nil, or_false, not_or] at hw
    simp [Token.isMark, Token.isWord, ht.1, ht.2, hw.1, hw.2.1, hw.2.2]
  cases h with
  | plain hf => exact ⟨_, [], rfl, hfacts hf (by decide)⟩
  | async ha hf hline => exact ⟨_, _, rfl, hfacts ha (by decide)⟩

def Declares (wrappers : List Label) (label : Label) (s : Signature) : Prop :=
  ∀ children, (wrapNode wrappers (.node label children)).signatures .program = [s]

theorem declares_plain (s : Signature) : Declares [] (.declaration s) s := by
  simp [Declares, wrapNode, Tree.signatures, Label.declared?, Label.isWrapper]

theorem declares_exported (s : Signature) : Declares [.exported] (.declaration s) s := by
  simp [Declares, wrapNode, Tree.signatures, Tree.signatures.signaturesOf, Label.declared?,
    Label.isWrapper]

theorem declares_expression (s : Signature) : Declares [.exported] (.expression s) s := by
  simp [Declares, wrapNode, Tree.signatures, Tree.signatures.signaturesOf, Label.declared?,
    Label.isWrapper, Label.isExported]

theorem NamesFunction.isSome {name : Option String} {title : List Token}
    (h : NamesFunction false name title) : name.isSome = true := by
  cases h with
  | named | generator => rfl
  | nameless h | namelessGenerator h => cases h

theorem UntypedFunction.readHead {name : Option String} {names : List String} {ts : List Token}
    (h : UntypedFunction name names ts) :
    ∃ wrappers label body, Declares wrappers label ⟨name, names.map fun n => ⟨n, none⟩, none⟩ ∧
      ∀ typed, readHead typed ts = some ⟨wrappers, label, body, []⟩ := by
  obtain @⟨anonymous, name, names, front, start, title, inner, body, o, c, o', c', hfront, hstart,
    htitle, ho, hc, hinner, ho', hc', hbody⟩ := h
  have hread : ∀ typed anyLine, readFunction typed anyLine
      (start ++ (title ++ o :: (inner ++ c :: o' :: (body ++ [c'])))) =
      some ⟨⟨name, names.map fun n => ⟨n, none⟩, none⟩, body, []⟩ := by
    intro typed anyLine
    rw [hstart.readFunction]
    exact readSignature_untyped typed htitle ho hc hinner ho' hc' hbody
  generalize title ++ o :: (inner ++ c :: o' :: (body ++ [c'])) = tail at hread
  obtain ⟨t, us, rfl, hequals, hexport, hdeclare, hdefault⟩ := hstart.exists_cons
  cases hfront with
  | plain =>
    refine ⟨[], _, body, declares_plain _, fun typed => ?_⟩
    rw [List.nil_append, List.cons_append] at *
    simp [Source.readHead, hexport, hdeclare, hread, SignatureReading.asDeclaration?, htitle.isSome]
  | exported he =>
    refine ⟨[.exported], _, body, declares_exported _, fun typed => ?_⟩
    simp only [List.cons_append, List.nil_append] at hread ⊢
    simp [Source.readHead, he, readExported, hdefault, hequals, hdeclare, hread,
      SignatureReading.asDeclaration?, htitle.isSome]
  | default he hd =>
    cases name with
    | some n =>
      refine ⟨[.exported], _, body, declares_exported _, fun typed => ?_⟩
      simp only [List.cons_append, List.nil_append] at hread ⊢
      simp [Source.readHead, he, readExported, hd, hread, SignatureReading.asDeclaration?]
    | none =>
      refine ⟨[.exported], _, body, declares_expression _, fun typed => ?_⟩
      simp only [List.cons_append, List.nil_append] at hread ⊢
      simp [Source.readHead, he, readExported, hd, hread, SignatureReading.asDeclaration?,
        SignatureReading.asOperand?, continuesExpression]

/-! ### The tree of a single declaration -/

theorem ownLead_first (typed : Bool) (t : Token) : Before.ownLead typed {} t = t.lead := by
  cases typed <;> simp [Before.ownLead, Before.takesSemicolon]

theorem declarationsAmong_eq_nil {before items : List Tree}
    (h : ∀ t ∈ items, t.signatures .program = []) : declarationsAmong before items = [] := by
  induction items generalizing before with
  | nil => rfl
  | cons t ts ih =>
    rw [List.forall_mem_cons] at h
    rw [declarationsAmong, h.1, ih h.2]
    rfl

theorem topLevel_single {typed : Bool} {t : Token} {ts body : List Token} {wrappers : List Label}
    {label : Label} {s : Signature} (hs : Declares wrappers label s)
    (h : readHead typed (t :: ts) = some ⟨wrappers, label, body, []⟩) :
    (treeOfTokens typed (t :: ts)).topLevel = [⟨commentRun (leadNodes t.lead).reverse, s⟩] := by
  have hadmits : Before.admits {} t = true := rfl
  have hlead : declarationsAmong [] (leadNodes t.lead) = [] :=
    declarationsAmong_eq_nil fun item hitem => signatures_leadNodes hitem .program
  have hnil : itemsFrom typed ts.length .afterDeclaration [] = [] := by
    cases ts.length <;> simp [itemsFrom]
  simp only [treeOfTokens, Tree.topLevel, Tree.children, List.length_cons, itemsFrom, hadmits, if_true,
    h, ownLead_first, hnil, declarationsAmong_append, hlead, List.nil_append, List.append_nil,
    declarationsAmong, hs _, List.map_cons, List.map_nil]

theorem UntypedFunction.exists_cons {name : Option String} {names : List String} {ts : List Token}
    (h : UntypedFunction name names ts) : ∃ t us, ts = t :: us := by
  apply List.exists_cons_of_ne_nil
  obtain ⟨_, hstart, _, _, _, _, _, _, _⟩ := h
  simp

end ScriptManifest.Source

namespace ScriptManifest

open Source

/-- A function without annotations, in code that both kinds of dialects read, declares the same
parameters in all of them and has the same report, whatever comments stand in it and in front of
it. -/
theorem untyped_function_is_read_alike {source : String} (hplain : IsPlainSource source)
    {name : Option String} {names : List String}
    (h : UntypedFunction name names (tokensOf .javaScript source)) :
    (∃ blocks, ∀ path, declarationsOf source path =
      [⟨blocks, ⟨name, names.map fun n => ⟨n, none⟩, none⟩⟩]) ∧
    ∀ path path', extract source path = extract source path' := by
  obtain ⟨wrappers, label, body, hdeclares, hread⟩ := h.readHead
  obtain ⟨t, ts, htokens⟩ := h.exists_cons
  have hdeclared : ∀ path, declarationsOf source path =
      [⟨(commentRun (leadNodes t.lead).reverse).filterMap Doc.Block.parse?,
        ⟨name, names.map fun n => ⟨n, none⟩, none⟩⟩] := by
    intro path
    rw [declarationsOf, declarations_parse, parse, tokensOf_eq_of_plain _ hplain, htokens,
      topLevel_single hdeclares (htokens ▸ hread _)]
    rfl
  refine ⟨⟨_, hdeclared⟩, fun path path' => ?_⟩
  rw [extract, extract, hdeclared, hdeclared]

def patternScript : String :=
  "/** @customfunction */\nfunction f(\x7b a \x7d, /* two */ b = 1 < 2, ...c) \x7b \x7d\n"

theorem untypedFunction_patternScript :
    UntypedFunction (some "f") ["\x7b a \x7d", "b", "c"] (tokensOf .javaScript patternScript) := by
  let comment : Lexeme := ⟨.comment, "/* two */"⟩
  have htokens : tokensOf .javaScript patternScript =
      [] ++ ([⟨[⟨.comment, "/** @customfunction */"⟩, ⟨.space, "\n"⟩], .word, "function"⟩] ++
        ([⟨[blank], .word, "f"⟩] ++ ⟨[], .opener, "("⟩ ::
          (([⟨[], .opener, "\x7b"⟩, ⟨[blank], .word, "a"⟩, ⟨[blank], .closer, "\x7d"⟩] ++
            ⟨[], .mark, ","⟩ :: (([⟨[blank, comment, blank], .word, "b"⟩] ++ ⟨[blank], .mark, "="⟩ ::
              [⟨[blank], .number, "1"⟩, ⟨[blank], .mark, "<"⟩, ⟨[blank], .number, "2"⟩]) ++
            ⟨[], .mark, ","⟩ :: [⟨[blank], .mark, "..."⟩, ⟨[], .word, "c"⟩])) ++
          ⟨[], .closer, ")"⟩ :: ⟨[blank], .opener, "\x7b"⟩ :: ([] ++ [⟨[blank], .closer, "\x7d"⟩])))) := by
    decide +kernel
  have ha : Closed [⟨[blank], .word, "a"⟩] := .token (by decide) (by decide) .nil
  have hvalue : IsValue [⟨[blank], .number, "1"⟩, ⟨[blank], .mark, "<"⟩, ⟨[blank], .number, "2"⟩] :=
    .token (by decide) (by decide) (by decide) <| .token (by decide) (by decide) (by decide) <|
      .token (by decide) (by decide) (by decide) .nil
  have hname : NamesFunction false (some "f") [⟨[blank], .word, "f"⟩] :=
    @NamesFunction.named false ⟨[blank], .word, "f"⟩ rfl
  have hpattern := UntypedParameter.plain
    (.group (o := ⟨[], .opener, "\x7b"⟩) (c := ⟨[blank], .closer, "\x7d"⟩) (.inl rfl) rfl ha)
  have hinitial := UntypedParameter.initial (.word (t := ⟨[blank, comment, blank], .word, "b"⟩) rfl)
    (rfl : Token.isMark "=" ⟨[blank], .mark, "="⟩ = true) hvalue
  have hrest := UntypedParameter.rest (rfl : Token.isMark "..." ⟨[blank], .mark, "..."⟩ = true)
    (.word (t := ⟨[], .word, "c"⟩) rfl)
  rw [htokens]
  exact .mk .plain (.plain rfl) hname rfl rfl (.more hpattern rfl (.more hinitial rfl (.last hrest)))
    rfl rfl .nil

theorem untyped_function_is_read_alike_patternScript :
    IsPlainSource patternScript ∧
      (∃ blocks, ∀ path, declarationsOf patternScript path =
        [⟨blocks, ⟨some "f", [⟨"\x7b a \x7d", none⟩, ⟨"b", none⟩, ⟨"c", none⟩], none⟩⟩]) ∧
      ∀ path path', extract patternScript path = extract patternScript path' := by
  have hplain : IsPlainSource patternScript := by
    unfold IsPlainSource
    decide +kernel
  exact ⟨hplain, untyped_function_is_read_alike hplain untypedFunction_patternScript⟩

end ScriptManifest
