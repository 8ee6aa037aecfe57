import ScriptManifest.Proofs.WalkOrder

/-!
Locality. The comments of a declaration are those of one unbroken run, so whatever stands in front
of an item that is no comment is out of sight of all that follows (`commentRun_append`,
`declarationsAmong_append_of_closed`). The report on a program is therefore put together from the
reports on its parts, as long as no part is cut off inside a run of comments.
-/

namespace ScriptManifest.Source

def Tree.isComment (t : Tree) : Bool := t.label.comment?.isSome

/-- Whether a list of items is empty or ends in one that is no comment. -/
def closesRun (items : List Tree) : Bool := items.getLast?.all (!·.isComment)

/-- Nothing behind an item that is no comment belongs to a run; both lists are nearest first. -/
theorem commentRun_append (near far : List Tree) (h : far.head?.all (!·.isComment) = true) :
    commentRun (near ++ far) = commentRun near := by
  have hfar : (far.map (·.label.comment?)).takeWhile Option.isSome = [] := by
    cases far with
    | nil => rfl
    | cons t ts =>
      have ht : t.label.comment?.isSome = false := by simpa [Tree.isComment] using h
      rw [List.map_cons, List.takeWhile_cons, ht]
      rfl
  rw [commentRun, commentRun, List.map_append, List.takeWhile_append, hfar, List.append_nil]
  split
  · next hall =>
    rw [(List.takeWhile_prefix _).eq_of_length hall]
  · rfl

theorem commentRun_reverse {run : List Tree} (h : ∀ t ∈ run, t.isComment = true) :
    commentRun run.reverse = run.filterMap (·.label.comment?) := by
  have hall : ∀ text ∈ run.reverse.map (·.label.comment?), text.isSome = true := by
    intro text htext
    obtain ⟨t, ht, rfl⟩ := List.mem_map.mp htext
    exact h t (List.mem_reverse.mp ht)
  have hwhole := @List.takeWhile_append_of_pos _ Option.isSome _ [] hall
  rw [List.append_nil, List.takeWhile_nil, List.append_nil] at hwhole
  rw [commentRun, hwhole, ← List.map_reverse, List.reverse_reverse, List.filterMap_map]
  rfl

theorem declarationsAmong_append (before xs ys : List Tree) :
    declarationsAmong before (xs ++ ys) =
      declarationsAmong before xs ++ declarationsAmong (xs.reverse ++ before) ys := by
  induction xs generalizing before with
  | nil => rfl
  | cons t ts ih =>
    simp [declarationsAmong, ih]

theorem declarationsAmong_append_of_closed (near far ts : List Tree)
    (h : far.head?.all (!·.isComment) = true) :
    declarationsAmong (near ++ far) ts = declarationsAmong near ts := by
  induction ts generalizing near with
  | nil => rfl
  | cons t ts ih =>
    have hothers := ih (t :: near)
    rw [List.cons_append] at hothers
    rw [declarationsAmong, declarationsAmong, commentRun_append near far h, hothers]

theorem topLevel_append (xs ys : List Tree) (h : closesRun xs = true) :
    (Tree.node .program (xs ++ ys)).topLevel =
      (Tree.node .program xs).topLevel ++ (Tree.node .program ys).topLevel := by
  have hfar : xs.reverse.head?.all (!·.isComment) = true := by
    rw [List.head?_reverse]
    exact h
  have hys := declarationsAmong_append_of_closed [] xs.reverse ys hfar
  simp only [Tree.topLevel, Tree.children]
  rw [declarationsAmong_append, List.append_nil, ← hys, List.nil_append]

theorem signatures_of_isComment {t : Tree} (h : t.isComment = true) (parent : Label) :
    t.signatures parent = [] := by
  obtain ⟨l, cs⟩ := t
  cases l with
  | comment text => rfl
  | _ => cases h

theorem declarationsAmong_run {run : List Tree} (h : ∀ t ∈ run, t.isComment = true)
    (before : List Tree) : declarationsAmong before run = [] := by
  induction run generalizing before with
  | nil => rfl
  | cons t ts ih =>
    rw [List.forall_mem_cons] at h
    rw [declarationsAmong, signatures_of_isComment h.1, ih h.2]
    rfl

theorem topLevel_run_item {run : List Tree} (h : ∀ t ∈ run, t.isComment = true) (item : Tree) :
    (Tree.node .program (run ++ [item])).topLevel =
      (item.signatures .program).map (⟨run.filterMap (·.label.comment?), ·⟩) := by
  simp only [Tree.topLevel, Tree.children]
  rw [declarationsAmong_append, declarationsAmong_run h, List.append_nil, declarationsAmong,
    commentRun_reverse h]
  simp [declarationsAmong]

theorem closesRun_concat (items : List Tree) {item : Tree} (h : item.isComment = false) :
    closesRun (items ++ [item]) = true := by
  simp [closesRun, h]

end ScriptManifest.Source

namespace ScriptManifest

open Source

/-! ### Reports put together -/

instance : Append Report where
  append r s :=
    { functions := r.functions ++ s.functions
      skipped := r.skipped ++ s.skipped
      errors := r.errors ++ s.errors }

theorem Report.append_eq (r s : Report) :
    r ++ s = ⟨r.functions ++ s.functions, r.skipped ++ s.skipped, r.errors ++ s.errors⟩ := rfl

theorem Report.ofOutcomes_append (os os' : List Outcome) :
    ofOutcomes (os ++ os') = ofOutcomes os ++ ofOutcomes os' := by
  simp only [ofOutcomes_eq, List.filterMap_append, List.flatMap_append, append_eq]

def Source.Tree.report (t : Source.Tree) : Report := Report.ofOutcomes t.outcomes

theorem extract_eq_report {source path : String} {t : Source.Tree}
    (h : parse (Dialect.ofPath path) source = t) : extract source path = t.report := by
  rw [extract_eq_ofOutcomes, h]
  rfl

theorem outcomes_append (xs ys : List Source.Tree) (h : haveNoProgram (xs ++ ys) = true)
    (hclose : closesRun xs = true) :
    (Source.Tree.node .program (xs ++ ys)).outcomes =
      (Source.Tree.node .program xs).outcomes ++ (Source.Tree.node .program ys).outcomes := by
  have hparts := h
  rw [haveNoProgram_append, Bool.and_eq_true] at hparts
  rw [outcomes_eq_topLevel _ h, outcomes_eq_topLevel xs hparts.1, outcomes_eq_topLevel ys hparts.2,
    topLevel_append xs ys hclose, List.map_append]

theorem report_append (xs ys : List Source.Tree) (h : haveNoProgram (xs ++ ys) = true)
    (hclose : closesRun xs = true) :
    (Source.Tree.node .program (xs ++ ys)).report =
      (Source.Tree.node .program xs).report ++ (Source.Tree.node .program ys).report := by
  rw [Source.Tree.report, outcomes_append xs ys h hclose, Report.ofOutcomes_append]
  rfl

theorem outcomes_run_item {run : List Source.Tree} (hrun : ∀ t ∈ run, t.isComment = true)
    {item : Source.Tree} (hitem : item.isComment = false) (others : List Source.Tree)
    (h : haveNoProgram (run ++ item :: others) = true) :
    (Source.Tree.node .program (run ++ item :: others)).outcomes =
      (item.signatures .program).map
          (fun s => Declaration.outcome ⟨run.filterMap (·.label.comment?), s⟩) ++
        (Source.Tree.node .program others).outcomes := by
  rw [List.append_cons] at h ⊢
  have hown : haveNoProgram (run ++ [item]) = true := by
    rw [haveNoProgram_append, Bool.and_eq_true] at h
    exact h.1
  rw [outcomes_append _ _ h (closesRun_concat run hitem), outcomes_eq_topLevel _ hown,
    topLevel_run_item hrun, List.map_map]
  rfl

/-- Extraction is local. If a program is cut in two, but not inside a run of comments, its report
is the reports on the two parts, one behind the other. So a statement contributes what it and the
unbroken run of comments in front of it say, whatever else the program holds. -/
theorem extraction_is_local (xs ys : List Source.Tree) (h : haveNoProgram (xs ++ ys) = true)
    (hclose : closesRun xs = true) :
    (Source.Tree.node .program (xs ++ ys)).report =
        (Source.Tree.node .program xs).report ++ (Source.Tree.node .program ys).report ∧
      (∀ path source first second,
        parse (Dialect.ofPath path) source = .node .program (xs ++ ys) →
        parse (Dialect.ofPath path) first = .node .program xs →
        parse (Dialect.ofPath path) second = .node .program ys →
        extract source path = extract first path ++ extract second path) ∧
      ∀ run item others, ys = run ++ item :: others → (∀ t ∈ run, t.isComment = true) →
        item.isComment = false →
        (Source.Tree.node .program (xs ++ ys)).outcomes =
          (Source.Tree.node .program xs).outcomes ++
            ((item.signatures .program).map
                (fun s => Declaration.outcome ⟨run.filterMap (·.label.comment?), s⟩) ++
              (Source.Tree.node .program others).outcomes) := by
  refine ⟨report_append xs ys h hclose, ?_, ?_⟩
  · intro path source first second hsource hfirst hsecond
    rw [extract_eq_report hsource, extract_eq_report hfirst, extract_eq_report hsecond,
      report_append xs ys h hclose]
  · rintro run item others rfl hrun hitem
    have hys : haveNoProgram (run ++ item :: others) = true := by
      rw [haveNoProgram_append, Bool.and_eq_true] at h
      exact h.2
    rw [outcomes_append xs _ h hclose, outcomes_run_item hrun hitem others hys]

def markedScript : String := "/** @customfunction */\nfunction f() \x7b\x7d\n"

def markedItems : List Source.Tree :=
  [.node (.comment "/** @customfunction */") [],
    .node (.declaration ⟨some "f", [], none⟩) [.node .group []]]

def plainScript : String := "/** Help. */\nexport function g() \x7b\x7d\n"

def plainItems : List Source.Tree :=
  [.node (.comment "/** Help. */") [],
    .node .exported [.node (.declaration ⟨some "g", [], none⟩) [.node .group []]]]

theorem extraction_is_local_marked_plain :
    haveNoProgram (markedItems ++ plainItems) = true ∧ closesRun markedItems = true ∧
      extract (markedScript ++ plainScript) "f.ts" =
        extract markedScript "f.ts" ++ extract plainScript "f.ts" ∧
      (Source.Tree.node .program (markedItems ++ plainItems)).outcomes =
        (Source.Tree.node .program markedItems).outcomes ++
          ([Declaration.outcome ⟨["/** Help. */"], ⟨some "g", [], none⟩⟩] ++
            (Source.Tree.node .program []).outcomes) := by
  have hitems : haveNoProgram (markedItems ++ plainItems) = true := by decide
  have hclose : closesRun markedItems = true := by decide
  obtain ⟨-, hsources, hstatement⟩ := extraction_is_local markedItems plainItems hitems hclose
  exact ⟨hitems, hclose, hsources "f.ts" _ _ _ rfl rfl rfl,
    hstatement [.node (.comment "/** Help. */") []] _ [] rfl (by decide) rfl⟩

end ScriptManifest
