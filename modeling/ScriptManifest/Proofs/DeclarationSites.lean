import ScriptManifest.Proofs.UntypedFunctions

/-!
Function declarations in any surroundings. A `FunctionStart` is the start of a declaration, up to its
parameters, behind code that is complete: it is read the same whatever follows. What such a
declaration adds to a program is its own signature, between what the code in front of it declares and
what the code behind it declares (`FunctionStart.topLevel`).
-/

namespace ScriptManifest.Source

/-! ### Enough fuel -/

theorem length_inside_le (group : List Token) : (inside group).length ≤ group.length - 1 := by
  cases group with
  | nil => simp [inside]
  | cons t ts =>
    unfold inside
    split
    · simp
    · next heq =>
      cases heq
      split
      · split
        · simp
        · simp
      · simp

theorem length_splitPiece (ts : List Token) :
    (splitPiece ts).1.length + (splitPiece ts).2.length = ts.length := by
  cases ts with
  | nil => rfl
  | cons t ts =>
    rw [splitPiece]
    split
    · have happend := congrArg List.length (splitGroup_append 0 ts)
      simp only [List.length_append, List.length_cons] at happend ⊢
      omega
    · simp only [List.length_cons, List.length_nil]
      omega

theorem length_splitPiece_lt (t : Token) (ts : List Token) :
    (splitPiece (t :: ts)).2.length < (t :: ts).length := by
  have hlength := length_splitPiece (t :: ts)
  have hpos : 0 < (splitPiece (t :: ts)).1.length := by
    rw [splitPiece]
    split <;> simp
  omega

theorem length_readBody_le (ts : List Token) : (readBody ts).1.length ≤ ts.length := by
  cases ts with
  | nil => simp [readBody]
  | cons t ts =>
    rw [readBody]
    split
    · have hinside := length_inside_le (splitPiece (t :: ts)).1
      have hlength := length_splitPiece (t :: ts)
      dsimp only
      omega
    · simp

theorem length_of_readSignature {typed : Bool} {ts : List Token} {r : SignatureReading}
    (h : readSignature typed ts = some r) : r.body.length ≤ ts.length ∧ r.rest.length ≤ ts.length := by
  refine ⟨?_, (suffix_of_readSignature h).length_le⟩
  have hname := (readName_suffix (dropMark "*" ts)).trans (dropMark_suffix "*" ts)
  have hparameters := (dropTypeParameters_suffix (readName (dropMark "*" ts)).2).trans hname
  rw [readSignature_eq] at h
  dsimp only at h
  split at h
  · cases h
  · next t us hus =>
    rw [hus] at hparameters
    split at h
    · cases h
      have hgroup := (splitPiece_suffix (t :: us)).trans hparameters
      have hresult := (readAnnotated_suffix typed true _).trans hgroup
      exact Nat.le_trans (length_readBody_le _) hresult.length_le
    · cases h

def Head.IsShorter (h : Head) (ts : List Token) : Prop :=
  h.body.length < ts.length ∧ h.rest.length < ts.length

theorem Head.IsShorter.cons {h : Head} {ts : List Token} (hs : h.IsShorter ts) (t : Token) :
    h.IsShorter (t :: ts) := by
  have h1 := hs.1
  have h2 := hs.2
  constructor <;> rw [List.length_cons] <;> omega

theorem isShorter_of_readFunction {typed anyLine : Bool} {ts : List Token} {r : SignatureReading}
    (h : readFunction typed anyLine ts = some r) {head : Head} (hbody : head.body = r.body)
    (hrest : head.rest = r.rest) : head.IsShorter ts := by
  have hshorter : ∀ us, readSignature typed us = some r → us.length < ts.length →
      head.IsShorter ts := by
    intro us hus hlt
    obtain ⟨h1, h2⟩ := length_of_readSignature hus
    rw [Head.IsShorter, hbody, hrest]
    constructor <;> omega
  unfold readFunction at h
  split at h
  · cases h
  · next t us =>
    split at h
    · exact hshorter us h (by simp)
    · split at h
      · cases h
      · next u vs =>
        split at h
        · exact hshorter vs h (by rw [List.length_cons, List.length_cons]; omega)
        · cases h

theorem isShorter_declaration {typed anyLine : Bool} {ts : List Token} {wrappers : List Label}
    {h : Head} (hr : (readFunction typed anyLine ts).bind (·.asDeclaration? wrappers) = some h) :
    h.IsShorter ts := by
  obtain ⟨r, hfunction, hhead⟩ := Option.bind_eq_some_iff.mp hr
  unfold SignatureReading.asDeclaration? at hhead
  split at hhead
  · cases hhead
    exact isShorter_of_readFunction hfunction rfl rfl
  · cases hhead

theorem isShorter_operand {typed anyLine : Bool} {ts : List Token} {h : Head}
    (hr : (readFunction typed anyLine ts).bind SignatureReading.asOperand? = some h) :
    h.IsShorter ts := by
  obtain ⟨r, hfunction, hhead⟩ := Option.bind_eq_some_iff.mp hr
  unfold SignatureReading.asOperand? at hhead
  split at hhead
  · cases hhead
  · cases hhead
    exact isShorter_of_readFunction hfunction rfl rfl

theorem isShorter_of_readExported {typed : Bool} {ts : List Token} {h : Head}
    (hr : readExported typed ts = some h) : h.IsShorter ts := by
  unfold readExported at hr
  split at hr
  · cases hr
  · next t rest =>
    split at hr
    · obtain ⟨r, hfunction, hhead⟩ := Option.bind_eq_some_iff.mp hr
      obtain hd | ⟨-, ho⟩ := Option.or_eq_some_iff.mp hhead
      · exact (isShorter_declaration (Option.bind_eq_some_iff.mpr ⟨r, hfunction, hd⟩)).cons t
      · exact (isShorter_operand (Option.bind_eq_some_iff.mpr ⟨r, hfunction, ho⟩)).cons t
    · split at hr
      · exact (isShorter_operand hr).cons t
      · split at hr
        · exact (isShorter_declaration hr).cons t
        · exact isShorter_declaration hr

theorem isShorter_of_readHead {typed : Bool} {ts : List Token} {h : Head}
    (hr : readHead typed ts = some h) : h.IsShorter ts := by
  unfold readHead at hr
  split at hr
  · cases hr
  · next t rest =>
    split at hr
    · exact (isShorter_of_readExported hr).cons t
    · split at hr
      · exact (isShorter_declaration hr).cons t
      · exact isShorter_declaration hr

theorem itemsFrom_eq_of_le (typed : Bool) {n m : Nat} {ts : List Token} (hn : ts.length ≤ n)
    (hm : ts.length ≤ m) (b : Before) : itemsFrom typed n b ts = itemsFrom typed m b ts := by
  induction n generalizing m b ts with
  | zero =>
    obtain rfl : ts = [] := List.length_eq_zero_iff.mp (by omega)
    cases m <;> simp [itemsFrom]
  | succ n ih =>
    cases ts with
    | nil => cases m <;> simp [itemsFrom]
    | cons t ts =>
      cases m with
      | zero => simp at hm
      | succ m =>
        simp only [List.length_cons, Nat.add_le_add_iff_right] at hn hm
        rw [itemsFrom, itemsFrom]
        congr 1
        split
        · next h hh =>
          have hread : readHead typed (t :: ts) = some h := by
            split at hh
            · exact hh
            · cases hh
          obtain ⟨hbody, hrest⟩ := isShorter_of_readHead hread
          simp only [List.length_cons] at hbody hrest
          have hinner : itemsFrom typed n {} h.body = itemsFrom typed m {} h.body :=
            ih (by omega) (by omega) {}
          have houter : itemsFrom typed n .afterDeclaration h.rest =
              itemsFrom typed m .afterDeclaration h.rest := ih (by omega) (by omega) _
          rw [hinner, houter]
        · have hlength := length_splitPiece (t :: ts)
          have hinside := length_inside_le (splitPiece (t :: ts)).1
          have hrest := length_splitPiece_lt t ts
          simp only [List.length_cons] at hlength hrest
          have hinner : itemsFrom typed n {} (inside (splitPiece (t :: ts)).1) =
              itemsFrom typed m {} (inside (splitPiece (t :: ts)).1) := ih (by omega) (by omega) {}
          have houter : itemsFrom typed n (b.after t) (splitPiece (t :: ts)).2 =
              itemsFrom typed m (b.after t) (splitPiece (t :: ts)).2 := ih (by omega) (by omega) _
          dsimp only
          rw [hinner, houter]

def itemsBehind (b : Before) (ts : List Token) : List Tree := itemsFrom true ts.length b ts

theorem itemsFrom_eq_itemsBehind {n : Nat} {ts : List Token} (h : ts.length ≤ n) (b : Before) :
    itemsFrom true n b ts = itemsBehind b ts :=
  itemsFrom_eq_of_le true h (Nat.le_refl _) b

theorem itemsBehind_head {b : Before} {t : Token} {ts : List Token} {h : Head}
    (hadmits : b.admits t = true) (hread : readHead true (t :: ts) = some h) :
    itemsBehind b (t :: ts) =
      leadNodes (b.ownLead true t) ++
        wrapNode h.wrappers (.node h.label [.node .group (itemsBehind {} h.body)]) ::
          itemsBehind .afterDeclaration h.rest := by
  obtain ⟨hbody, hrest⟩ := isShorter_of_readHead hread
  simp only [List.length_cons] at hbody hrest
  rw [itemsBehind, List.length_cons, itemsFrom, if_pos hadmits, hread]
  simp only
  rw [itemsFrom_eq_itemsBehind (by omega), itemsFrom_eq_itemsBehind (by omega)]

theorem itemsBehind_piece {b : Before} {t : Token} {ts : List Token}
    (hread : b.admits t = true → readHead true (t :: ts) = none) :
    itemsBehind b (t :: ts) =
      leadNodes (b.ownLead true t) ++
        .node .code (itemsBehind {} (inside (splitPiece (t :: ts)).1)) ::
          itemsBehind (b.after t) (splitPiece (t :: ts)).2 := by
  have hnone : (if b.admits t = true then readHead true (t :: ts) else none) = none := by
    split
    · next h => exact hread h
    · rfl
  have hlength := length_splitPiece (t :: ts)
  have hinside := length_inside_le (splitPiece (t :: ts)).1
  have hrest := length_splitPiece_lt t ts
  simp only [List.length_cons] at hlength hrest
  rw [itemsBehind, List.length_cons, itemsFrom, hnone]
  simp only
  rw [itemsFrom_eq_itemsBehind (by omega), itemsFrom_eq_itemsBehind (by omega)]

/-! ### Code that is complete -/

/-- Code that is complete in front of the token `first`: whatever follows that token, the code is
read as `items`, and the reader then stands in front of `first` with `b'` behind it. -/
def Passes (b : Before) (pre : List Token) (first : Token) (items : List Tree) (b' : Before) : Prop :=
  ∀ rest, itemsBehind b (pre ++ first :: rest) = items ++ itemsBehind b' (first :: rest)

theorem passes_nil (b : Before) (first : Token) : Passes b [] first [] b := fun _ => rfl

theorem readHead_eq_none {t : Token}
    (ht : t.kind = .word → t.text ∉ ["export", "declare", "function", "async"]) (ts : List Token) :
    readHead true (t :: ts) = none := by
  have hword : ∀ w ∈ ["export", "declare", "function", "async"], t.isWord w = false := by
    intro w hw
    by_cases hk : t.kind = .word
    · have hne : t.text ≠ w := by
        rintro rfl
        exact ht hk hw
      simp [Token.isWord, hne]
    · simp [Token.isWord, hk]
  have hexport := hword "export" (by decide)
  have hdeclare := hword "declare" (by decide)
  have hfunction := hword "function" (by decide)
  have hasync := hword "async" (by decide)
  cases ts <;> simp [readHead, readFunction, hexport, hdeclare, hfunction, hasync]

theorem Passes.piece {b b' : Before} {t first : Token} {us pre : List Token} {items : List Tree}
    (hpiece : ∀ rest, splitPiece (t :: (us ++ rest)) = (t :: us, rest))
    (ht : t.kind = .word → t.text ∉ ["export", "declare", "function", "async"])
    (h : Passes (b.after t) pre first items b') :
    Passes b (t :: (us ++ pre)) first
      (leadNodes (b.ownLead true t) ++ .node .code (itemsBehind {} (inside (t :: us))) :: items)
      b' := by
  intro rest
  rw [List.cons_append, List.append_assoc, itemsBehind_piece fun _ => readHead_eq_none ht _, hpiece,
    h rest]
  simp

def plainItems (b : Before) : List Token → List Tree
  | [] => []
  | t :: ts => leadNodes (b.ownLead true t) ++ .node .code [] :: plainItems (b.after t) ts

theorem passes_plain {ts : List Token}
    (h : ∀ t ∈ ts, t.kind ≠ .opener ∧
      (t.kind = .word → t.text ∉ ["export", "declare", "function", "async"]))
    (b : Before) (first : Token) :
    Passes b ts first (plainItems b ts) (ts.foldl Before.after b) := by
  induction ts generalizing b with
  | nil => exact passes_nil b first
  | cons t ts ih =>
    rw [List.forall_mem_cons] at h
    have hpiece : ∀ rest, splitPiece (t :: ([] ++ rest)) = ([t], rest) := by
      intro rest
      simp [splitPiece, h.1.1]
    exact Passes.piece hpiece h.1.2 (ih h.2 (b.after t))

theorem Passes.declaration {b b' : Before} {t first : Token} {us body pre : List Token}
    {wrappers : List Label} {label : Label} {items : List Tree} (hadmits : b.admits t = true)
    (hread : ∀ rest, readHead true (t :: (us ++ rest)) = some ⟨wrappers, label, body, rest⟩)
    (h : Passes .afterDeclaration pre first items b') :
    Passes b (t :: (us ++ pre)) first
      (leadNodes (b.ownLead true t) ++
        wrapNode wrappers (.node label [.node .group (itemsBehind {} body)]) :: items) b' := by
  intro rest
  rw [List.cons_append, List.append_assoc, itemsBehind_head hadmits (hread _), h rest]
  simp

/-! ### The start of a declaration -/

/-- The words that open a function declaration. -/
inductive DeclarationWords : (anonymous : Bool) → List Token → Prop
  | introduced {anonymous : Bool} {front start : List Token} (hf : Introduces anonymous front)
    (hs : StartsFunction start) : DeclarationWords anonymous (front ++ start)
  | ambient {d t : Token} {ts : List Token} (hd : d.isWord "declare" = true)
    (hline : t.startsLine = false) (hs : StartsFunction (t :: ts)) :
    DeclarationWords false (d :: t :: ts)
  | exportedAmbient {e d : Token} {start : List Token} (he : e.isWord "export" = true)
    (hd : d.isWord "declare" = true) (hs : StartsFunction start) :
    DeclarationWords false (e :: d :: start)

/-- Whether the tokens end with the closing one of `depth` opening angle brackets. -/
def closesAngles : (depth : Nat) → List Token → Bool
  | 0, ts => ts.isEmpty
  | _ + 1, [] => false
  | depth + 1, t :: ts =>
    closesAngles (if t.isMark "<" then depth + 2 else if t.isMark ">" then depth else depth + 1) ts

/-- Type parameters, if there are any. -/
def isTypeParameters : List Token → Bool
  | [] => true
  | t :: ts => t.isMark "<" && closesAngles 1 ts

/-- A function declaration up to and with the parenthesis that opens its parameters. -/
inductive OpensDeclaration : Option String → List Token → Prop
  | mk {anonymous : Bool} {name : Option String} {words title angles : List Token} {o : Token}
    (hwords : DeclarationWords anonymous words) (htitle : NamesFunction anonymous name title)
    (hangles : isTypeParameters angles = true) (ho : o.opens "(" = true) :
    OpensDeclaration name (words ++ (title ++ (angles ++ [o])))

theorem dropAngles_of_closesAngles {depth : Nat} {ts : List Token} (h : closesAngles depth ts = true)
    (rest : List Token) : dropAngles depth (ts ++ rest) = rest := by
  induction ts generalizing depth with
  | nil =>
    cases depth with
    | zero => simp [dropAngles]
    | succ depth => cases h
  | cons t ts ih =>
    cases depth with
    | zero => cases h
    | succ depth => exact ih h

theorem dropTypeParameters_append {angles : List Token} (h : isTypeParameters angles = true)
    {o : Token} (ho : o.kind = .opener) (rest : List Token) :
    dropTypeParameters (angles ++ o :: rest) = o :: rest := by
  cases angles with
  | nil => simp [dropTypeParameters, Token.isMark, ho]
  | cons t ts =>
    rw [isTypeParameters, Bool.and_eq_true] at h
    rw [List.cons_append, dropTypeParameters, if_pos h.1, dropAngles_of_closesAngles h.2]

theorem head?_typeParameters {angles : List Token} (h : isTypeParameters angles = true) {o : Token}
    (ho : o.kind = .opener) (rest : List Token) :
    ∀ t ∈ (angles ++ o :: rest).head?, t.kind ≠ .word ∧ t.isMark "*" = false := by
  cases angles with
  | nil => simp [Token.isMark, ho]
  | cons t ts =>
    rw [isTypeParameters, Bool.and_eq_true] at h
    obtain ⟨hkind, htext⟩ := Token.isMark_iff.mp h.1
    simp [Token.isMark, hkind, htext]

theorem NamesFunction.readName_of_head {anonymous : Bool} {name : Option String}
    {title rest : List Token} (h : NamesFunction anonymous name title)
    (hrest : ∀ t ∈ rest.head?, t.kind ≠ .word ∧ t.isMark "*" = false) :
    Source.readName (Source.dropMark "*" (title ++ rest)) = (name, rest) := by
  have hnone : Source.readName rest = (none, rest) := by
    cases rest with
    | nil => rfl
    | cons t rest => simp [Source.readName, (hrest t (by simp)).1]
  cases h with
  | named hn => simp [Source.dropMark, Token.isMark, Source.readName, hn]
  | generator hs hn => simp [Source.dropMark, hs, Source.readName, hn]
  | nameless => rw [List.nil_append, dropMark_of_head fun t ht => (hrest t ht).2, hnone]
  | namelessGenerator _ hs => simp [Source.dropMark, hs, hnone]

def parametersOf (ts : List Token) : List Parameter := readParameters true ts.length ts

theorem length_dropModifiers_le (fuel : Nat) (ts : List Token) :
    (dropModifiers fuel ts).length ≤ ts.length := by
  induction fuel generalizing ts with
  | zero => exact Nat.le_refl _
  | succ fuel ih =>
    cases ts with
    | nil => simp [dropModifiers]
    | cons t ts =>
      rw [dropModifiers, List.length_cons]
      split
      · have hcall := (dropCall_suffix (dropDotted (splitPiece ts).2)).length_le
        have hdotted := (dropDotted_suffix (splitPiece ts).2).length_le
        have hpiece := (splitPiece_suffix ts).length_le
        have hmodifiers := ih (dropCall (dropDotted (splitPiece ts).2))
        omega
      · split
        · have hmodifiers := ih ts
          omega
        · simp

theorem dropValue_suffix (typed : Bool) (hold depth : Nat) (ts : List Token) :
    dropValue typed hold depth ts <:+ ts := by
  fun_induction dropValue typed hold depth ts <;>
    first
    | exact List.suffix_refl _
    | exact List.IsSuffix.trans (by assumption) (List.suffix_cons _ _)

theorem length_readParameter_lt (t : Token) (ts : List Token) :
    (readParameter true (t :: ts)).2.length < (t :: ts).length := by
  have hmodifiers := length_dropModifiers_le (t :: ts).length (t :: ts)
  have hdots := (dropMark_suffix "..." (dropModifiers (t :: ts).length (t :: ts))).length_le
  have hmark := (dropMark_suffix "?"
    (splitPiece (dropMark "..." (dropModifiers (t :: ts).length (t :: ts)))).2).length_le
  have hresult := (readResult_suffix false (dropMark "?"
    (splitPiece (dropMark "..." (dropModifiers (t :: ts).length (t :: ts)))).2)).length_le
  have hvalue := (dropValue_suffix true 0 0 (readResult false (dropMark "?"
    (splitPiece (dropMark "..." (dropModifiers (t :: ts).length (t :: ts)))).2)).2).length_le
  simp only [readParameter_eq, readAnnotated_typed]
  cases hcases : dropMark "..." (dropModifiers (t :: ts).length (t :: ts)) with
  | nil =>
    rw [hcases] at hmark hresult hvalue
    simp only [splitPiece, List.length_nil] at hmark hresult hvalue
    rw [List.length_cons]
    simp only [splitPiece]
    omega
  | cons u us =>
    rw [hcases] at hdots hmark hresult hvalue
    have hpiece := length_splitPiece_lt u us
    omega

theorem readParameters_eq_of_le {n m : Nat} {ts : List Token} (hn : ts.length ≤ n)
    (hm : ts.length ≤ m) : readParameters true n ts = readParameters true m ts := by
  induction n generalizing m ts with
  | zero =>
    obtain rfl : ts = [] := List.length_eq_zero_iff.mp (by omega)
    simp
  | succ n ih =>
    cases ts with
    | nil => simp
    | cons t ts =>
      cases m with
      | zero => simp at hm
      | succ m =>
        have hlength := length_readParameter_lt t ts
        simp only [List.length_cons, Nat.add_le_add_iff_right] at hn hm hlength
        rw [readParameters_succ, readParameters_succ]
        split
        · exact ih hn hm
        · have hrest : readParameters true n (readParameter true (t :: ts)).2 =
              readParameters true m (readParameter true (t :: ts)).2 := ih (by omega) (by omega)
          rw [hrest]

theorem readParameters_eq_parametersOf {n : Nat} {ts : List Token} (h : ts.length ≤ n) :
    readParameters true n ts = parametersOf ts :=
  readParameters_eq_of_le h (Nat.le_refl _)

theorem readSignature_parts {anonymous : Bool} {name : Option String}
    {title angles inner : List Token} {o c : Token}
    (htitle : NamesFunction anonymous name title) (hangles : isTypeParameters angles = true)
    (ho : o.opens "(" = true) (hc : c.kind = .closer) (hinner : Balanced inner) (rest : List Token) :
    readSignature true (title ++ (angles ++ o :: (inner ++ c :: rest))) =
      some ⟨⟨name, parametersOf inner, (readResult true rest).1⟩, (readBody (readResult true rest).2).1,
        (readBody (readResult true rest).2).2⟩ := by
  have hk := Token.kind_of_opens ho
  have hgroup := splitPiece_group hk hc hinner rest
  have hname := htitle.readName_of_head (head?_typeParameters hangles hk (inner ++ c :: rest))
  have hparameters : readParameters true (o :: (inner ++ [c])).length inner = parametersOf inner :=
    readParameters_eq_parametersOf (by simp; omega)
  simp only [readSignature_eq, hname, dropTypeParameters_append hangles hk, ho, if_true, hgroup,
    inside_group hc, hparameters, readAnnotated_typed]

theorem declares_ambient (s : Signature) : Declares [.ambient] (.declaration s) s := by
  simp [Declares, wrapNode, Tree.signatures, Tree.signatures.signaturesOf, Label.declared?,
    Label.isWrapper]

theorem declares_exportedAmbient (s : Signature) :
    Declares [.exported, .ambient] (.declaration s) s := by
  simp [Declares, wrapNode, Tree.signatures, Tree.signatures.signaturesOf, Label.declared?,
    Label.isWrapper]

theorem DeclarationWords.readHead {anonymous : Bool} {words : List Token}
    (h : DeclarationWords anonymous words) {ts : List Token} {r : SignatureReading}
    (hread : readSignature true ts = some r)
    (hname : anonymous = false → r.signature.name.isSome = true)
    (hend : r.signature.name = none → continuesExpression r.rest = false) :
    ∃ wrappers label, Declares wrappers label r.signature ∧
      readHead true (words ++ ts) = some ⟨wrappers, label, r.body, r.rest⟩ := by
  have hfunction : ∀ {start : List Token} anyLine, StartsFunction start →
      readFunction true anyLine (start ++ ts) = some r := by
    intro start anyLine hs
    rw [hs.readFunction, hread]
  cases h with
  | @introduced _ front start hf hs =>
    obtain ⟨t, us, rfl, hequals, hexport, hdeclare, hdefault⟩ := hs.exists_cons
    have hfunction := fun anyLine => hfunction anyLine hs
    rw [List.append_assoc]
    simp only [List.cons_append] at hfunction ⊢
    cases hf with
    | plain =>
      refine ⟨[], _, declares_plain _, ?_⟩
      simp [Source.readHead, hexport, hdeclare, hfunction, SignatureReading.asDeclaration?, hname rfl]
    | exported he =>
      refine ⟨[.exported], _, declares_exported _, ?_⟩
      simp [Source.readHead, he, readExported, hdefault, hequals, hdeclare, hfunction,
        SignatureReading.asDeclaration?, hname rfl]
    | default he hd =>
      by_cases hsome : r.signature.name.isSome = true
      · refine ⟨[.exported], _, declares_exported _, ?_⟩
        simp [Source.readHead, he, readExported, hd, hfunction, SignatureReading.asDeclaration?, hsome]
      · refine ⟨[.exported], _, declares_expression _, ?_⟩
        have hcontinues := hend (by simpa using hsome)
        simp [Source.readHead, he, readExported, hd, hfunction, SignatureReading.asDeclaration?, hsome,
          SignatureReading.asOperand?, hcontinues]
  | @ambient d t us hd hline hs =>
    refine ⟨[.ambient], _, declares_ambient _, ?_⟩
    have hfunction := hfunction false hs
    have hexport := isWord_eq_false hd (show "declare" ≠ "export" by decide)
    simp only [List.cons_append] at hfunction ⊢
    simp [Source.readHead, hd, hexport, hline, hfunction, SignatureReading.asDeclaration?, hname rfl]
  | @exportedAmbient e d start he hd hs =>
    refine ⟨[.exported, .ambient], _, declares_exportedAmbient _, ?_⟩
    have hequals : d.isMark "=" = false := by
      simp only [Token.isWord, Bool.and_eq_true, beq_iff_eq] at hd
      simp [Token.isMark, hd.1]
    have hdefault := isWord_eq_false hd (show "declare" ≠ "default" by decide)
    simp [Source.readHead, he, readExported, hdefault, hequals, hd, hfunction true hs,
      SignatureReading.asDeclaration?, hname rfl]

theorem OpensDeclaration.readHead {name : Option String} {front : List Token}
    (h : OpensDeclaration name front) {inner rest : List Token} {c : Token} (hinner : Balanced inner)
    (hc : c.kind = .closer)
    (hend : name = none → continuesExpression (readBody (readResult true rest).2).2 = false) :
    ∃ wrappers label, Declares wrappers label ⟨name, parametersOf inner, (readResult true rest).1⟩ ∧
      readHead true (front ++ (inner ++ c :: rest)) =
        some ⟨wrappers, label, (readBody (readResult true rest).2).1,
          (readBody (readResult true rest).2).2⟩ := by
  obtain @⟨anonymous, name, words, title, angles, o, hwords, htitle, hangles, ho⟩ := h
  have hread := readSignature_parts htitle hangles ho hc hinner rest
  have hname : anonymous = false → name.isSome = true := by
    rintro rfl
    exact htitle.isSome
  have hhead := hwords.readHead hread hname hend
  simpa using hhead

/-- The start of a function declaration, up to its parameters, behind code that is complete. -/
structure FunctionStart where
  /-- The code in front of the declaration. -/
  pre : List Token
  first : Token
  front : List Token
  name : Option String
  /-- What the code in front is read as, and what is remembered of it. -/
  items : List Tree
  before : Before
  passes : Passes {} pre first items before
  admits : before.admits first = true
  opens : OpensDeclaration name (first :: front)

namespace FunctionStart

def tokens (f : FunctionStart) : List Token := f.pre ++ f.first :: f.front

def itemsInFront (f : FunctionStart) : List Tree :=
  f.items ++ leadNodes (f.before.ownLead true f.first)

def earlier (f : FunctionStart) : List Declaration := declarationsAmong [] f.itemsInFront

def comments (f : FunctionStart) : List String := commentRun f.itemsInFront.reverse

end FunctionStart

def declarationsBehind (ts : List Token) : List Declaration :=
  declarationsAmong [] (itemsBehind .afterDeclaration ts)

theorem isComment_of_declares {wrappers : List Label} {label : Label} {s : Signature}
    (h : Declares wrappers label s) (children : List Tree) :
    (wrapNode wrappers (.node label children)).isComment = false := by
  cases hcomment : (wrapNode wrappers (.node label children)).isComment with
  | false => rfl
  | true =>
    have hnone := signatures_of_isComment hcomment .program
    rw [h children] at hnone
    cases hnone

/-- A declaration adds its own signature, with the comments in front of it, to what the code around
it declares. -/
theorem FunctionStart.topLevel (f : FunctionStart) {inner : List Token} {c : Token}
    (hinner : Balanced inner) (hc : c.kind = .closer) (rest : List Token)
    (hend : f.name = none → continuesExpression (readBody (readResult true rest).2).2 = false) :
    (treeOfTokens true (f.tokens ++ (inner ++ c :: rest))).topLevel =
      f.earlier ++ ⟨f.comments, ⟨f.name, parametersOf inner, (readResult true rest).1⟩⟩ ::
        declarationsBehind (readBody (readResult true rest).2).2 := by
  obtain ⟨wrappers, label, hdeclares, hread⟩ := f.opens.readHead hinner hc hend
  rw [List.cons_append] at hread
  have hitems : itemsBehind {} (f.tokens ++ (inner ++ c :: rest)) = f.itemsInFront ++
      wrapNode wrappers (.node label [.node .group (itemsBehind {} (readBody (readResult true rest).2).1)]) ::
        itemsBehind .afterDeclaration (readBody (readResult true rest).2).2 := by
    rw [tokens, List.append_assoc, List.cons_append, f.passes, itemsBehind_head f.admits hread,
      itemsInFront, List.append_assoc]
  have hclosed := isComment_of_declares hdeclares
    [.node .group (itemsBehind {} (readBody (readResult true rest).2).1)]
  change declarationsAmong [] (itemsBehind {} (f.tokens ++ (inner ++ c :: rest))) = _
  rw [hitems, declarationsAmong_append, declarationsAmong, hdeclares _, List.map_cons, List.map_nil,
    List.append_nil, List.singleton_append]
  congr 2
  have hbehind := declarationsAmong_append_of_closed []
    (wrapNode wrappers (.node label [.node .group (itemsBehind {} (readBody (readResult true rest).2).1)]) ::
      f.itemsInFront.reverse) (itemsBehind .afterDeclaration (readBody (readResult true rest).2).2)
    (by simp [hclosed])
  exact hbehind

end ScriptManifest.Source
