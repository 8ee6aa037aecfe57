import ScriptManifest.Source.Program

/-!
The walk with a cursor. From any node on, the cursor looks at every remaining node once, in the
order of the text (`remaining_eq`), so a whole walk is the list `cursorsBelow`. A node counts by its
trail alone, and the trails that count are those of wrapping statements up to the program: the walk
finds what going through the program's own items finds (`declarations_eq_topLevel`).
-/

namespace ScriptManifest.Source

/-! ### The nodes in the order of the text -/

mutual

def cursorsBelow (trail : List Crumb) : Tree → List Cursor
  | .node l cs => ⟨.node l cs, trail⟩ :: cursorsAmong trail l [] cs

def cursorsAmong (trail : List Crumb) (l : Label) (before : List Tree) : List Tree → List Cursor
  | [] => []
  | t :: ts => cursorsBelow (⟨l, before, ts⟩ :: trail) t ++ cursorsAmong trail l (t :: before) ts

end

def cursorsAbove : Tree → List Crumb → List Cursor
  | _, [] => []
  | t, crumb :: trail =>
    cursorsAmong trail crumb.label (t :: crumb.before) crumb.after ++
      cursorsAbove (.node crumb.label (crumb.before.reverse ++ t :: crumb.after)) trail

def Cursor.remaining (c : Cursor) : List Cursor :=
  cursorsBelow c.trail c.focus ++ cursorsAbove c.focus c.trail

def remainingAt (c : Option Cursor) : List Cursor := (c.map Cursor.remaining).getD []

theorem cursorsAbove_eq (t : Tree) (trail : List Crumb) :
    cursorsAbove t trail = remainingAt (Cursor.nextAbove? t trail) := by
  induction trail generalizing t with
  | nil => rfl
  | cons crumb trail ih =>
    obtain ⟨l, before, after⟩ := crumb
    cases after with
    | nil => exact ih (.node l (before.reverse ++ [t]))
    | cons u us =>
      simp [cursorsAbove, cursorsAmong, Cursor.nextAbove?, remainingAt, Cursor.remaining]

/-- One step of the walk: the cursor looks at its own node, and the others come after it. -/
theorem remaining_eq (c : Cursor) : c.remaining = c :: remainingAt c.next? := by
  obtain ⟨⟨l, cs⟩, trail⟩ := c
  cases cs with
  | nil =>
    simp [Cursor.remaining, cursorsBelow, cursorsAmong, Cursor.next?, Cursor.firstChild?,
      cursorsAbove_eq]
  | cons u us =>
    simp [Cursor.remaining, cursorsBelow, cursorsAmong, Cursor.next?, Cursor.firstChild?,
      remainingAt, cursorsAbove]

theorem declarationsFrom_eq (fuel : Nat) (c : Cursor) :
    Cursor.declarationsFrom fuel c = (c.remaining.take fuel).filterMap Cursor.declaration? := by
  induction fuel generalizing c with
  | zero => rfl
  | succ fuel ih =>
    rw [remaining_eq, Cursor.declarationsFrom]
    cases hn : c.next? with
    | none => cases hd : c.declaration? <;> simp [remainingAt, hd]
    | some c' => cases hd : c.declaration? <;> simp [remainingAt, hd, ih]

mutual

theorem length_cursorsBelow (trail : List Crumb) (t : Tree) :
    (cursorsBelow trail t).length = t.size := by
  cases t with
  | node l cs =>
    rw [cursorsBelow, List.length_cons, length_cursorsAmong trail l [] cs, Tree.size, Nat.add_comm]

theorem length_cursorsAmong (trail : List Crumb) (l : Label) (before ts : List Tree) :
    (cursorsAmong trail l before ts).length = Tree.size.sizes ts := by
  cases ts with
  | nil => rfl
  | cons t ts =>
    rw [cursorsAmong, List.length_append, length_cursorsBelow _ t,
      length_cursorsAmong trail l (t :: before) ts, Tree.size.sizes]

end

theorem declarations_eq_filterMap (t : Tree) :
    t.declarations = (cursorsBelow [] t).filterMap Cursor.declaration? := by
  have hall : (Cursor.ofTree t).remaining = cursorsBelow [] t := by
    simp [Cursor.remaining, Cursor.ofTree, cursorsAbove]
  rw [Tree.declarations, declarationsFrom_eq, hall, ← length_cursorsBelow [] t, List.take_length]

/-! ### Which trails count -/

def outerCrumb? (trail : List Crumb) : Option Crumb :=
  (trail.dropWhile (·.label.isWrapper)).head?

theorem head?_trail_anchor (t : Tree) (trail : List Crumb) :
    (Cursor.anchor t trail).trail.head? = outerCrumb? trail := by
  induction trail generalizing t with
  | nil => rfl
  | cons crumb trail ih =>
    by_cases hw : crumb.label.isWrapper
    · simp [Cursor.anchor, outerCrumb?, hw, ih]
    · simp [Cursor.anchor, outerCrumb?, hw]

theorem outerCrumb?_cons_wrapper {crumb : Crumb} (h : crumb.label.isWrapper = true)
    (trail : List Crumb) : outerCrumb? (crumb :: trail) = outerCrumb? trail := by
  simp [outerCrumb?, h]

theorem outerCrumb?_cons_other {crumb : Crumb} (h : crumb.label.isWrapper = false)
    (trail : List Crumb) : outerCrumb? (crumb :: trail) = some crumb := by
  simp [outerCrumb?, h]

theorem declaration?_eq (t : Tree) (trail : List Crumb) :
    Cursor.declaration? ⟨t, trail⟩ =
      (t.label.declared? (trail.head?.map Crumb.label)).bind fun s =>
        (outerCrumb? trail).bind fun crumb =>
          if crumb.label.isProgram then some ⟨commentRun crumb.before, s⟩ else none := by
  simp only [Cursor.declaration?, ← head?_trail_anchor t trail]
  cases t.label.declared? (trail.head?.map Crumb.label) with
  | none => rfl
  | some s =>
    cases (Cursor.anchor t trail).trail with
    | nil => rfl
    | cons crumb trail' => rfl

/-! ### Trees without an inner program -/

mutual

def Tree.hasNoProgram : Tree → Bool
  | .node l cs => !l.isProgram && haveNoProgram cs

def haveNoProgram : List Tree → Bool
  | [] => true
  | t :: ts => t.hasNoProgram && haveNoProgram ts

end

theorem haveNoProgram_eq_all (ts : List Tree) : haveNoProgram ts = ts.all Tree.hasNoProgram := by
  induction ts with
  | nil => rfl
  | cons t ts ih => rw [haveNoProgram, ih, List.all_cons]

mutual

theorem filterMap_cursorsBelow_closed {trail : List Crumb} {crumb : Crumb} {t : Tree}
    (hc : outerCrumb? trail = some crumb) (hp : crumb.label.isProgram = false)
    (ht : t.hasNoProgram = true) : (cursorsBelow trail t).filterMap Cursor.declaration? = [] := by
  cases t with
  | node l cs =>
    rw [Tree.hasNoProgram, Bool.and_eq_true] at ht
    have hl : l.isProgram = false := by simpa using ht.1
    have hhead : Cursor.declaration? ⟨.node l cs, trail⟩ = none := by
      rw [declaration?_eq, hc]
      cases (Tree.node l cs).label.declared? (trail.head?.map Crumb.label) <;> simp [hp]
    rw [cursorsBelow, List.filterMap_cons_none hhead]
    exact filterMap_cursorsAmong_closed [] hc hp hl ht.2

theorem filterMap_cursorsAmong_closed {trail : List Crumb} {crumb : Crumb} {l : Label}
    (before : List Tree) {ts : List Tree}
    (hc : outerCrumb? trail = some crumb) (hp : crumb.label.isProgram = false)
    (hl : l.isProgram = false) (ht : haveNoProgram ts = true) :
    (cursorsAmong trail l before ts).filterMap Cursor.declaration? = [] := by
  cases ts with
  | nil => rfl
  | cons t ts =>
    rw [haveNoProgram, Bool.and_eq_true] at ht
    rw [cursorsAmong, List.filterMap_append, filterMap_cursorsAmong_closed (t :: before) hc hp hl ht.2,
      List.append_nil]
    -- the trail of a child is closed by its parent, or else by the same crumb as the parent's
    by_cases hw : l.isWrapper
    · exact filterMap_cursorsBelow_closed ((outerCrumb?_cons_wrapper hw trail).trans hc) hp ht.1
    · exact filterMap_cursorsBelow_closed (outerCrumb?_cons_other (by simpa using hw) trail) hl ht.1

end

mutual

theorem filterMap_cursorsBelow_open {trail : List Crumb} {parent crumb : Crumb} {t : Tree}
    (hc : outerCrumb? (parent :: trail) = some crumb) (hp : crumb.label.isProgram = true)
    (ht : t.hasNoProgram = true) :
    (cursorsBelow (parent :: trail) t).filterMap Cursor.declaration? =
      (t.signatures parent.label).map (⟨commentRun crumb.before, ·⟩) := by
  cases t with
  | node l cs =>
    rw [Tree.hasNoProgram, Bool.and_eq_true] at ht
    have hl : l.isProgram = false := by simpa using ht.1
    have hhead : (Cursor.declaration? ⟨.node l cs, parent :: trail⟩).toList =
        ((l.declared? (some parent.label)).toList).map (⟨commentRun crumb.before, ·⟩) := by
      rw [declaration?_eq, hc]
      cases hd : l.declared? (some parent.label) <;> simp [Tree.label, hd, hp]
    have htail := filterMap_cursorsAmong_open [] hc hp hl ht.2
    rw [cursorsBelow, List.filterMap_cons, htail, Tree.signatures, List.map_append, ← hhead]
    cases Cursor.declaration? ⟨.node l cs, parent :: trail⟩ <;> rfl

theorem filterMap_cursorsAmong_open {trail : List Crumb} {crumb : Crumb} {l : Label}
    (before : List Tree) {ts : List Tree}
    (hc : outerCrumb? trail = some crumb) (hp : crumb.label.isProgram = true)
    (hl : l.isProgram = false) (ht : haveNoProgram ts = true) :
    (cursorsAmong trail l before ts).filterMap Cursor.declaration? =
      (if l.isWrapper then Tree.signatures.signaturesOf l ts else []).map
        (⟨commentRun crumb.before, ·⟩) := by
  cases ts with
  | nil => cases l.isWrapper <;> rfl
  | cons t ts =>
    rw [haveNoProgram, Bool.and_eq_true] at ht
    rw [cursorsAmong, List.filterMap_append, filterMap_cursorsAmong_open (t :: before) hc hp hl ht.2]
    by_cases hw : l.isWrapper
    · have hopen : outerCrumb? (⟨l, before, ts⟩ :: trail) = some crumb :=
        (outerCrumb?_cons_wrapper hw trail).trans hc
      have hchild := filterMap_cursorsBelow_open hopen hp ht.1
      simp [hw, hchild, Tree.signatures.signaturesOf]
    · have hclosed : outerCrumb? (⟨l, before, ts⟩ :: trail) = some ⟨l, before, ts⟩ :=
        outerCrumb?_cons_other (by simpa using hw) trail
      have hchild := filterMap_cursorsBelow_closed hclosed hl ht.1
      simp [hw, hchild]

end

theorem filterMap_cursorsAmong_program (before ts : List Tree) (ht : haveNoProgram ts = true) :
    (cursorsAmong [] .program before ts).filterMap Cursor.declaration? =
      declarationsAmong before ts := by
  induction ts generalizing before with
  | nil => rfl
  | cons t ts ih =>
    rw [haveNoProgram, Bool.and_eq_true] at ht
    have hopen : outerCrumb? [⟨.program, before, ts⟩] = some ⟨.program, before, ts⟩ := rfl
    have hchild := filterMap_cursorsBelow_open hopen rfl ht.1
    rw [cursorsAmong, List.filterMap_append, ih (t :: before) ht.2, hchild, declarationsAmong]

/-- The walk finds the declarations among the program's own items, whatever is nested in them. -/
theorem declarations_eq_topLevel (items : List Tree) (h : haveNoProgram items = true) :
    (Tree.node .program items).declarations = (Tree.node .program items).topLevel := by
  rw [declarations_eq_filterMap, cursorsBelow, List.filterMap_cons_none rfl,
    filterMap_cursorsAmong_program [] items h]
  rfl

/-! ### Trees of a source -/

def Head.Proper (h : Head) : Prop :=
  (∀ l ∈ h.wrappers, l.isWrapper = true) ∧ h.label.isProgram = false

theorem proper_of_asDeclaration? {wrappers : List Label} {r : SignatureReading} {h : Head}
    (hw : ∀ l ∈ wrappers, l.isWrapper = true) (hr : r.asDeclaration? wrappers = some h) :
    h.Proper := by
  unfold SignatureReading.asDeclaration? at hr
  split at hr
  · cases hr
    exact ⟨hw, rfl⟩
  · cases hr

theorem proper_of_asOperand? {r : SignatureReading} {h : Head} (hr : r.asOperand? = some h) :
    h.Proper := by
  unfold SignatureReading.asOperand? at hr
  split at hr
  · cases hr
  · cases hr
    exact ⟨by simp [Label.isWrapper], rfl⟩

theorem proper_of_readExported {typed : Bool} {ts : List Token} {h : Head}
    (hr : readExported typed ts = some h) : h.Proper := by
  unfold readExported at hr
  split at hr
  · cases hr
  · split at hr
    · obtain ⟨r, -, hr⟩ := Option.bind_eq_some_iff.mp hr
      obtain hd | ⟨-, ho⟩ := Option.or_eq_some_iff.mp hr
      · exact proper_of_asDeclaration? (by simp [Label.isWrapper]) hd
      · exact proper_of_asOperand? ho
    · split at hr
      · obtain ⟨r, -, hr⟩ := Option.bind_eq_some_iff.mp hr
        exact proper_of_asOperand? hr
      · split at hr
        · obtain ⟨r, -, hr⟩ := Option.bind_eq_some_iff.mp hr
          exact proper_of_asDeclaration? (by simp [Label.isWrapper]) hr
        · obtain ⟨r, -, hr⟩ := Option.bind_eq_some_iff.mp hr
          exact proper_of_asDeclaration? (by simp [Label.isWrapper]) hr

theorem proper_of_readHead {typed : Bool} {ts : List Token} {h : Head}
    (hr : readHead typed ts = some h) : h.Proper := by
  unfold readHead at hr
  split at hr
  · cases hr
  · split at hr
    · exact proper_of_readExported hr
    · split at hr
      · obtain ⟨r, -, hr⟩ := Option.bind_eq_some_iff.mp hr
        exact proper_of_asDeclaration? (by simp [Label.isWrapper]) hr
      · obtain ⟨r, -, hr⟩ := Option.bind_eq_some_iff.mp hr
        exact proper_of_asDeclaration? (by simp) hr

theorem haveNoProgram_append (ts us : List Tree) :
    haveNoProgram (ts ++ us) = (haveNoProgram ts && haveNoProgram us) := by
  simp [haveNoProgram_eq_all]

theorem haveNoProgram_leadNodes (lead : List Lexeme) : haveNoProgram (leadNodes lead) = true := by
  induction lead with
  | nil => rfl
  | cons x xs ih =>
    obtain ⟨kind, text⟩ := x
    cases kind <;> exact ih

theorem hasNoProgram_wrapNode {wrappers : List Label} {t : Tree}
    (hw : ∀ l ∈ wrappers, l.isWrapper = true) (ht : t.hasNoProgram = true) :
    (wrapNode wrappers t).hasNoProgram = true := by
  induction wrappers with
  | nil => exact ht
  | cons l ls ih =>
    have hl : l.isProgram = false := by
      have := hw l (by simp)
      cases l <;> simp_all [Label.isWrapper, Label.isProgram]
    have hrest := ih fun l' h' => hw l' (List.mem_cons_of_mem l h')
    simp only [wrapNode, List.foldr_cons] at hrest ⊢
    simp [Tree.hasNoProgram, haveNoProgram, hl, hrest]

theorem haveNoProgram_itemsFrom (typed : Bool) (fuel : Nat) (b : Before) (ts : List Token) :
    haveNoProgram (itemsFrom typed fuel b ts) = true := by
  induction fuel generalizing b ts with
  | zero => simp [itemsFrom, haveNoProgram]
  | succ fuel ih =>
    cases ts with
    | nil => simp [itemsFrom, haveNoProgram]
    | cons t ts =>
      rw [itemsFrom, haveNoProgram_append, haveNoProgram_leadNodes, Bool.true_and]
      split
      · next h hh =>
        have hproper : h.Proper := by
          split at hh
          · exact proper_of_readHead hh
          · cases hh
        have hbody : (Tree.node .group (itemsFrom typed fuel {} h.body)).hasNoProgram = true := by
          simp [Tree.hasNoProgram, ih, Label.isProgram]
        have hnode : (Tree.node h.label [.node .group (itemsFrom typed fuel {} h.body)]).hasNoProgram
            = true := by
          rw [Tree.hasNoProgram, haveNoProgram, hbody, hproper.2]
          rfl
        rw [haveNoProgram, hasNoProgram_wrapNode hproper.1 hnode, ih, Bool.true_and]
      · simp [haveNoProgram, Tree.hasNoProgram, ih, Label.isProgram]

theorem declarations_parse (d : Dialect) (source : String) :
    (parse d source).declarations = (parse d source).topLevel :=
  declarations_eq_topLevel _ (haveNoProgram_itemsFrom _ _ _ _)

end ScriptManifest.Source
