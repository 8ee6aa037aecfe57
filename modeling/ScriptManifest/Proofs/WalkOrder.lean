import ScriptManifest.Proofs.Accounting

/-!
The order of the walk. An address is the list of the children's numbers on the way from the root to
a node; the lexicographic order of addresses is the order of the text. The walk comes to an end
(`visits_remaining`), having looked at the nodes in the order of their addresses
(`map_address_cursorsBelow`), and what it records is told by the addresses of the declarations
alone (`topLevel_eq_filterMap`). What stands below a node that wraps nothing can be cut off
(`topLevel_prune`).
-/

namespace ScriptManifest.Source

/-! ### Addresses -/

/-- The node at an address, and the labels of the nodes above it, outermost first. -/
def Tree.locate? : Tree → List Nat → Option (List Label × Tree)
  | t, [] => some ([], t)
  | t, i :: p => t.children[i]?.bind fun u => (u.locate? p).map fun r => (t.label :: r.1, r.2)

mutual

def Tree.addresses : Tree → List (List Nat)
  | .node _ cs => [] :: addressesFrom 0 cs

def addressesFrom (i : Nat) : List Tree → List (List Nat)
  | [] => []
  | t :: ts => t.addresses.map (i :: ·) ++ addressesFrom (i + 1) ts

end

theorem locate?_cons (l : Label) (done : List Tree) (t : Tree) (ts : List Tree) (p : List Nat) :
    (Tree.node l (done ++ t :: ts)).locate? (done.length :: p) =
      (t.locate? p).map fun r => (l :: r.1, r.2) := by
  simp [Tree.locate?, Tree.children, Tree.label]

theorem exists_cons_of_mem_addressesFrom {i : Nat} {ts : List Tree} {p : List Nat}
    (h : p ∈ addressesFrom i ts) : ∃ j q, p = j :: q ∧ i ≤ j := by
  induction ts generalizing i with
  | nil => simp [addressesFrom] at h
  | cons t ts ih =>
    rw [addressesFrom, List.mem_append, List.mem_map] at h
    obtain ⟨q, _, rfl⟩ | h := h
    · exact ⟨i, q, rfl, Nat.le_refl i⟩
    · obtain ⟨j, q, rfl, hj⟩ := ih h
      exact ⟨j, q, rfl, by omega⟩

mutual

theorem pairwise_addresses (t : Tree) : t.addresses.Pairwise (· < ·) := by
  cases t with
  | node l cs =>
    rw [Tree.addresses, List.pairwise_cons]
    refine ⟨fun p hp => ?_, pairwise_addressesFrom 0 cs⟩
    obtain ⟨j, q, rfl, _⟩ := exists_cons_of_mem_addressesFrom hp
    exact List.nil_lt_cons j q

theorem pairwise_addressesFrom (i : Nat) (ts : List Tree) :
    (addressesFrom i ts).Pairwise (· < ·) := by
  cases ts with
  | nil => simp [addressesFrom]
  | cons t ts =>
    rw [addressesFrom, List.pairwise_append]
    refine ⟨?_, pairwise_addressesFrom (i + 1) ts, ?_⟩
    · rw [List.pairwise_map]
      exact (pairwise_addresses t).imp fun h => List.cons_lt_cons_iff.mpr (.inr ⟨rfl, h⟩)
    · intro p hp q hq
      obtain ⟨p', _, rfl⟩ := List.mem_map.mp hp
      obtain ⟨j, q', rfl, hj⟩ := exists_cons_of_mem_addressesFrom hq
      exact List.cons_lt_cons_iff.mpr (.inl (by omega))

end

mutual

theorem mem_addresses_iff (t : Tree) (p : List Nat) : p ∈ t.addresses ↔ (t.locate? p).isSome := by
  cases t with
  | node l cs =>
    cases p with
    | nil => simp [Tree.addresses, Tree.locate?]
    | cons i p =>
      have hfrom := cons_mem_addressesFrom_iff 0 cs i p
      simpa [Tree.addresses, Tree.locate?, Tree.children, Option.isSome_bind] using hfrom

theorem cons_mem_addressesFrom_iff (i : Nat) (ts : List Tree) (j : Nat) (p : List Nat) :
    (i + j) :: p ∈ addressesFrom i ts ↔ ts[j]?.any fun u => (u.locate? p).isSome := by
  cases ts with
  | nil => simp [addressesFrom]
  | cons t ts =>
    rw [addressesFrom, List.mem_append, List.mem_map]
    cases j with
    | zero =>
      have hlater : i :: p ∉ addressesFrom (i + 1) ts := by
        intro h
        obtain ⟨j, q, he, hj⟩ := exists_cons_of_mem_addressesFrom h
        obtain ⟨rfl, -⟩ := List.cons.inj he
        omega
      simp [hlater, mem_addresses_iff t p]
    | succ j =>
      have hfrom := cons_mem_addressesFrom_iff (i + 1) ts j p
      rw [show i + 1 + j = i + (j + 1) by omega] at hfrom
      simp [hfrom]

end

/-! ### The nodes that the walk looks at -/

/-- The number of children in front, for every step of a trail, outermost first. -/
def addressOf (trail : List Crumb) : List Nat := (trail.map (·.before.length)).reverse

def labelsOf (trail : List Crumb) : List Label := (trail.map Crumb.label).reverse

def Cursor.address (c : Cursor) : List Nat := addressOf c.trail

def Cursor.above (c : Cursor) : List Label := labelsOf c.trail

theorem addressOf_cons (crumb : Crumb) (trail : List Crumb) :
    addressOf (crumb :: trail) = addressOf trail ++ [crumb.before.length] := by
  simp [addressOf]

mutual

theorem map_address_cursorsBelow (trail : List Crumb) (t : Tree) :
    (cursorsBelow trail t).map Cursor.address = t.addresses.map (addressOf trail ++ ·) := by
  cases t with
  | node l cs =>
    have hamong := map_address_cursorsAmong trail l [] cs
    rw [cursorsBelow, Tree.addresses, List.map_cons, List.map_cons, hamong, List.append_nil]
    rfl

theorem map_address_cursorsAmong (trail : List Crumb) (l : Label) (before ts : List Tree) :
    (cursorsAmong trail l before ts).map Cursor.address =
      (addressesFrom before.length ts).map (addressOf trail ++ ·) := by
  cases ts with
  | nil => rfl
  | cons t ts =>
    have hfirst := map_address_cursorsBelow (⟨l, before, ts⟩ :: trail) t
    have hothers := map_address_cursorsAmong trail l (t :: before) ts
    rw [cursorsAmong, List.map_append, hfirst, hothers, addressesFrom, List.map_append, List.map_map]
    congr 1
    refine List.map_congr_left fun p _ => ?_
    simp [addressOf_cons]

end

mutual

theorem locate?_of_mem_cursorsBelow {trail : List Crumb} {t : Tree} {c : Cursor}
    (h : c ∈ cursorsBelow trail t) :
    ∃ inner, c.trail = inner ++ trail ∧
      t.locate? (addressOf inner) = some (labelsOf inner, c.focus) := by
  cases t with
  | node l cs =>
    rw [cursorsBelow, List.mem_cons] at h
    obtain rfl | h := h
    · exact ⟨[], rfl, rfl⟩
    · exact locate?_of_mem_cursorsAmong h

theorem locate?_of_mem_cursorsAmong {trail : List Crumb} {l : Label} {before ts : List Tree}
    {c : Cursor} (h : c ∈ cursorsAmong trail l before ts) :
    ∃ inner, c.trail = inner ++ trail ∧
      (Tree.node l (before.reverse ++ ts)).locate? (addressOf inner) =
        some (labelsOf inner, c.focus) := by
  cases ts with
  | nil => simp [cursorsAmong] at h
  | cons t ts =>
    rw [cursorsAmong, List.mem_append] at h
    obtain h | h := h
    · obtain ⟨inner, htrail, hlocate⟩ := locate?_of_mem_cursorsBelow h
      refine ⟨inner ++ [⟨l, before, ts⟩], by simp [htrail], ?_⟩
      have hstep := locate?_cons l before.reverse t ts (addressOf inner)
      rw [List.length_reverse, hlocate] at hstep
      simpa [addressOf, labelsOf] using hstep
    · obtain ⟨inner, htrail, hlocate⟩ := locate?_of_mem_cursorsAmong h
      exact ⟨inner, htrail, by simpa using hlocate⟩

end

/-- A run of the loop: the cursor looks at its node and steps on, until there is no next node. -/
inductive Visits : Cursor → List Cursor → Prop
  | last {c : Cursor} (h : c.next? = none) : Visits c [c]
  | step {c c' : Cursor} {cs : List Cursor} (h : c.next? = some c') (hs : Visits c' cs) :
    Visits c (c :: cs)

/-- The loop comes to an end, whatever its cursor: every step leaves one node less to look at. -/
theorem visits_remaining (c : Cursor) : Visits c c.remaining := by
  induction hn : c.remaining.length generalizing c with
  | zero =>
    rw [remaining_eq] at hn
    cases hn
  | succ n ih =>
    rw [remaining_eq, List.length_cons, Nat.succ.injEq] at hn
    rw [remaining_eq]
    cases hnext : c.next? with
    | none => exact .last hnext
    | some c' =>
      rw [hnext] at hn
      exact .step hnext (ih c' hn)

theorem visits_cursorsBelow (t : Tree) : Visits (Cursor.ofTree t) (cursorsBelow [] t) := by
  have hall : (Cursor.ofTree t).remaining = cursorsBelow [] t := by
    simp [Cursor.remaining, Cursor.ofTree, cursorsAbove]
  rw [← hall]
  exact visits_remaining _

/-! ### Declarations by their addresses -/

/-- Whether the labels above a node are those of a program and of wrapping statements in it. -/
def isTopLevel : List Label → Bool
  | [] => false
  | l :: ls => l.isProgram && ls.all Label.isWrapper

theorem isTopLevel_iff {above : List Label} :
    isTopLevel above = true ↔
      ∃ wrappers, above = .program :: wrappers ∧ ∀ l ∈ wrappers, l.isWrapper = true := by
  cases above with
  | nil => simp [isTopLevel]
  | cons l ls => cases l <;> simp [isTopLevel, Label.isProgram]

/-- The declaration at an address, if it stands at the top level. Its comments are those in front
of the program's item that it is in. -/
def Tree.declarationAt? (t : Tree) (p : List Nat) : Option Declaration :=
  (t.locate? p).bind fun r =>
    if isTopLevel r.1 then
      (r.2.label.declared? r.1.getLast?).map (⟨commentRun (t.children.take (p.headD 0)).reverse, ·⟩)
    else none

def signatureBelow? (parent : Label) (t : Tree) (p : List Nat) : Option Signature :=
  (t.locate? p).bind fun r =>
    if r.1.all Label.isWrapper then r.2.label.declared? ((parent :: r.1).getLast?) else none

theorem signatureBelow?_cons (parent l : Label) (done : List Tree) (t : Tree) (ts : List Tree)
    (p : List Nat) :
    signatureBelow? parent (.node l (done ++ t :: ts)) (done.length :: p) =
      if l.isWrapper then signatureBelow? l t p else none := by
  rw [signatureBelow?, locate?_cons, signatureBelow?]
  cases t.locate? p with
  | none => simp
  | some r => cases hw : l.isWrapper <;> simp [hw, List.getLast?_cons_cons]

mutual

theorem filterMap_signatureBelow? (parent : Label) (t : Tree) :
    t.addresses.filterMap (signatureBelow? parent t) = t.signatures parent := by
  cases t with
  | node l cs =>
    have hhead : signatureBelow? parent (.node l cs) [] = l.declared? (some parent) := rfl
    have hchildren := filterMap_signatureBelow?_from parent l [] cs
    rw [List.length_nil, List.nil_append] at hchildren
    rw [Tree.addresses, Tree.signatures, List.filterMap_cons, hchildren, hhead]
    cases l.declared? (some parent) <;> rfl

theorem filterMap_signatureBelow?_from (parent l : Label) (done ts : List Tree) :
    (addressesFrom done.length ts).filterMap (signatureBelow? parent (.node l (done ++ ts))) =
      if l.isWrapper then Tree.signatures.signaturesOf l ts else [] := by
  cases ts with
  | nil => cases l.isWrapper <;> rfl
  | cons t ts =>
    have hothers := filterMap_signatureBelow?_from parent l (done ++ [t]) ts
    rw [List.length_append, List.length_singleton, List.append_assoc, List.singleton_append] at hothers
    have hfirst : (t.addresses.map (done.length :: ·)).filterMap
        (signatureBelow? parent (.node l (done ++ t :: ts))) =
          if l.isWrapper then t.signatures l else [] := by
      rw [List.filterMap_map]
      simp only [Function.comp_def, signatureBelow?_cons]
      cases l.isWrapper
      · simp
      · exact filterMap_signatureBelow? l t
    rw [addressesFrom, List.filterMap_append, hfirst, hothers]
    cases l.isWrapper <;> rfl

end

theorem declarationAt?_cons (done : List Tree) (t : Tree) (ts : List Tree) (p : List Nat) :
    (Tree.node .program (done ++ t :: ts)).declarationAt? (done.length :: p) =
      (signatureBelow? .program t p).map (⟨commentRun done.reverse, ·⟩) := by
  rw [Tree.declarationAt?, locate?_cons, signatureBelow?]
  cases t.locate? p with
  | none => rfl
  | some r =>
    have hpath : isTopLevel (.program :: r.1) = r.1.all Label.isWrapper := rfl
    simp only [Option.map_some, Option.bind_some, hpath, Tree.children, List.headD_cons,
      List.take_left]
    split <;> rfl

theorem filterMap_declarationAt? (done ts : List Tree) :
    (addressesFrom done.length ts).filterMap (Tree.node .program (done ++ ts)).declarationAt? =
      declarationsAmong done.reverse ts := by
  induction ts generalizing done with
  | nil => rfl
  | cons t ts ih =>
    have hothers := ih (done ++ [t])
    rw [List.length_append, List.length_singleton, List.append_assoc, List.singleton_append,
      List.reverse_concat] at hothers
    rw [addressesFrom, List.filterMap_append, hothers, declarationsAmong, List.filterMap_map]
    simp only [Function.comp_def, declarationAt?_cons]
    rw [← filterMap_signatureBelow?, List.map_filterMap]

/-- Going through a program's own items finds the declarations whose addresses are at the top
level. -/
theorem topLevel_eq_filterMap (items : List Tree) :
    (Tree.node .program items).topLevel =
      (Tree.node .program items).addresses.filterMap (Tree.node .program items).declarationAt? := by
  have hroot : (Tree.node .program items).declarationAt? [] = none := rfl
  rw [Tree.addresses, List.filterMap_cons_none hroot]
  exact (filterMap_declarationAt? [] items).symm

/-! ### What stands below other nodes -/

mutual

def Tree.prune : Tree → Tree
  | .node l cs => .node l (if l.isWrapper then pruneAll cs else [])

def pruneAll : List Tree → List Tree
  | [] => []
  | t :: ts => t.prune :: pruneAll ts

end

theorem label_prune (t : Tree) : t.prune.label = t.label := by
  cases t with
  | node l cs => rfl

mutual

theorem signatures_prune (parent : Label) (t : Tree) :
    t.prune.signatures parent = t.signatures parent := by
  cases t with
  | node l cs =>
    have hchildren := signaturesOf_pruneAll l cs
    rw [Tree.prune, Tree.signatures, Tree.signatures]
    cases hw : l.isWrapper <;> simp [hchildren]

theorem signaturesOf_pruneAll (parent : Label) (ts : List Tree) :
    Tree.signatures.signaturesOf parent (pruneAll ts) = Tree.signatures.signaturesOf parent ts := by
  cases ts with
  | nil => rfl
  | cons t ts =>
    rw [pruneAll, Tree.signatures.signaturesOf, Tree.signatures.signaturesOf, signatures_prune,
      signaturesOf_pruneAll]

end

theorem commentRun_map_prune (before : List Tree) :
    commentRun (before.map Tree.prune) = commentRun before := by
  simp [commentRun, List.map_map, Function.comp_def, label_prune]

theorem declarationsAmong_pruneAll (before ts : List Tree) :
    declarationsAmong (before.map Tree.prune) (pruneAll ts) = declarationsAmong before ts := by
  induction ts generalizing before with
  | nil => rfl
  | cons t ts ih =>
    have hothers := ih (t :: before)
    rw [List.map_cons] at hothers
    rw [pruneAll, declarationsAmong, declarationsAmong, hothers, signatures_prune, commentRun_map_prune]

theorem topLevel_prune (items : List Tree) :
    (Tree.node .program (pruneAll items)).topLevel = (Tree.node .program items).topLevel :=
  declarationsAmong_pruneAll [] items

end ScriptManifest.Source

namespace ScriptManifest

open Source

/-! ### What the walk records -/

def Source.Declaration.outcome (d : Declaration) : Outcome := d.documented.outcome

def Source.Tree.outcomes (t : Source.Tree) : List Outcome := t.declarations.map Declaration.outcome

def Source.Tree.outcomeAt? (t : Source.Tree) (p : List Nat) : Option Outcome :=
  (t.declarationAt? p).map Declaration.outcome

theorem extract_eq_ofOutcomes (source path : String) :
    extract source path = Report.ofOutcomes (parse (Dialect.ofPath path) source).outcomes := by
  rw [extract, declarationsOf, List.map_map]
  rfl

theorem outcomes_eq_topLevel (items : List Source.Tree) (h : haveNoProgram items = true) :
    (Source.Tree.node .program items).outcomes =
      (Source.Tree.node .program items).topLevel.map Declaration.outcome := by
  rw [Source.Tree.outcomes, declarations_eq_topLevel items h]

theorem outcomes_eq_filterMap (items : List Source.Tree) (h : haveNoProgram items = true) :
    (Source.Tree.node .program items).outcomes =
      (Source.Tree.node .program items).addresses.filterMap
        (Source.Tree.node .program items).outcomeAt? := by
  rw [outcomes_eq_topLevel items h, topLevel_eq_filterMap, List.map_filterMap]
  rfl

theorem isSome_outcomeAt?_iff (t : Source.Tree) (p : List Nat) :
    (t.outcomeAt? p).isSome = true ↔
      ∃ wrappers u, t.locate? p = some (.program :: wrappers, u) ∧
        (∀ l ∈ wrappers, l.isWrapper = true) ∧
        (u.label.declared? (Label.program :: wrappers).getLast?).isSome = true := by
  rw [Source.Tree.outcomeAt?, Option.isSome_map, Source.Tree.declarationAt?]
  cases hr : t.locate? p with
  | none => simp
  | some r =>
    obtain ⟨above, u⟩ := r
    constructor
    · intro hs
      by_cases htop : isTopLevel above = true
      · obtain ⟨wrappers, rfl, hwrappers⟩ := isTopLevel_iff.mp htop
        exact ⟨wrappers, u, rfl, hwrappers, by simpa [htop] using hs⟩
      · simp [htop] at hs
    · rintro ⟨wrappers, v, heq, hwrappers, hdeclared⟩
      cases heq
      have htop := isTopLevel_iff.mpr ⟨wrappers, rfl, hwrappers⟩
      simpa [htop] using hdeclared

/-- The cursor's run through a tree: it ends, and it looks at every node once, in the order of the
text. -/
structure WalkedInOrder (t : Source.Tree) (visited : List Cursor) : Prop where
  ends : Visits (Cursor.ofTree t) visited
  inOrder : (visited.map Cursor.address).Pairwise (· < ·)
  everyNode : ∀ p, p ∈ visited.map Cursor.address ↔ (t.locate? p).isSome = true
  atItsNode : ∀ c ∈ visited, t.locate? c.address = some (c.above, c.focus)

theorem walkedInOrder_cursorsBelow (t : Source.Tree) : WalkedInOrder t (cursorsBelow [] t) := by
  have haddresses : (cursorsBelow [] t).map Cursor.address = t.addresses := by
    rw [map_address_cursorsBelow]
    exact List.map_id t.addresses
  refine ⟨visits_cursorsBelow t, ?_, ?_, ?_⟩
  · rw [haddresses]
    exact pairwise_addresses t
  · intro p
    rw [haddresses]
    exact mem_addresses_iff t p
  · intro c hc
    obtain ⟨inner, htrail, hlocate⟩ := locate?_of_mem_cursorsBelow hc
    rw [List.append_nil] at htrail
    rwa [Cursor.address, Cursor.above, htrail]

/-- Among the nodes looked at, an outcome is recorded for every declaration above which there are
only wrapping statements and the program, and for no other node. -/
structure RecordsTopLevel (t : Source.Tree) (visited : List Cursor) : Prop where
  recorded : t.outcomes = (visited.filterMap Cursor.declaration?).map Declaration.outcome
  oncePerNode : t.outcomes = visited.filterMap fun c => t.outcomeAt? c.address
  exactlyTopLevel : ∀ p, (t.outcomeAt? p).isSome = true ↔
    ∃ wrappers u, t.locate? p = some (.program :: wrappers, u) ∧
      (∀ l ∈ wrappers, l.isWrapper = true) ∧
      (u.label.declared? (Label.program :: wrappers).getLast?).isSome = true

theorem recordsTopLevel_cursorsBelow (items : List Source.Tree) (h : haveNoProgram items = true) :
    RecordsTopLevel (.node .program items) (cursorsBelow [] (.node .program items)) := by
  refine ⟨?_, ?_, isSome_outcomeAt?_iff _⟩
  · rw [Source.Tree.outcomes, declarations_eq_filterMap]
  · have haddresses := map_address_cursorsBelow [] (.node .program items)
    rw [outcomes_eq_filterMap items h, ← Function.comp_def, ← List.filterMap_map, haddresses]
    exact congrArg (List.filterMap _) (List.map_id _).symm

/-- The walk through a whole program looks at every node once, in the order of the text, and
records the declarations that going through the program's own items finds. What stands below nodes
other than wrapping statements makes no difference. -/
theorem walk_records_top_level (items : List Source.Tree) (h : haveNoProgram items = true) :
    (∃ visited, WalkedInOrder (.node .program items) visited ∧
        RecordsTopLevel (.node .program items) visited) ∧
      (Source.Tree.node .program items).outcomes =
        (Source.Tree.node .program items).topLevel.map Declaration.outcome ∧
      ∀ others, haveNoProgram others = true → pruneAll others = pruneAll items →
        (Source.Tree.node .program others).outcomes =
          (Source.Tree.node .program items).outcomes := by
  refine ⟨⟨_, walkedInOrder_cursorsBelow _, recordsTopLevel_cursorsBelow items h⟩,
    outcomes_eq_topLevel items h, ?_⟩
  intro others hothers hprune
  rw [outcomes_eq_topLevel others hothers, outcomes_eq_topLevel items h, ← topLevel_prune others,
    hprune, topLevel_prune]

def nestedItems : List Source.Tree :=
  let inner : Source.Tree := .node (.declaration ⟨some "inner", [], none⟩) []
  [.node (.comment "/** @customfunction */") [],
    .node (.declaration ⟨some "outer", [], none⟩) [.node .group [inner]],
    .node .exported [.node .ambient [.node (.declaration ⟨some "wrapped", [], none⟩) []]],
    .node .code [.node (.comment "/** @customfunction */") [], .node .exported [inner]],
    .node .exported [.node (.expression ⟨none, [], none⟩) []]]

theorem walk_records_top_level_nested :
    haveNoProgram nestedItems = true ∧
      (∃ visited, WalkedInOrder (.node .program nestedItems) visited ∧
        RecordsTopLevel (.node .program nestedItems) visited) ∧
      (Source.Tree.node .program nestedItems).outcomes =
        [.accepted ⟨"outer", "outer", "", none, [], .untyped, {}⟩, .skipped "wrapped",
          .skipped "<anonymous>"] := by
  have hitems : haveNoProgram nestedItems = true := by decide
  obtain ⟨hwalk, hshallow, -⟩ := walk_records_top_level nestedItems hitems
  exact ⟨hitems, hwalk, hshallow.trans (by decide +kernel)⟩

end ScriptManifest
