import ScriptManifest.Doc.Summary
import Mathlib.Data.List.Basic

/-!
Which of the tags in front of a declaration count. The tags of all blocks are one sequence; of the
tags that give a help address, and of those that document a parameter, the last one is taken, and
only the description depends on how the tags are divided into blocks (`last_tag_counts`).
-/

namespace ScriptManifest.Doc

open Text

/-! ### Tags and what they say -/

/-- The last tag of a sequence that has a property. -/
def IsLast (p : Tag → Prop) (tags : List Tag) (t : Tag) : Prop :=
  p t ∧ ∃ before after, tags = before ++ t :: after ∧ ∀ u ∈ after, ¬ p u

def Tag.IsMarker (t : Tag) : Prop := t.name.toList.map Char.toLower = "customfunction".toList

def Tag.GivesHelpUrl (t : Tag) : Prop :=
  t.name.toList.map Char.toLower = "helpurl".toList ∧ t.text ≠ ""

/-- A tag for a parameter, read as the given name and comment. -/
def Tag.Documents (t : Tag) (name : String) (comment : Option String) : Prop :=
  t.name ∈ ["param", "arg", "argument"] ∧ ParamTag.parse? t.text = some ⟨name, comment⟩

def Tag.IsFor (t : Tag) (name : String) : Prop := ∃ comment, t.Documents name comment

/-- The description that a comment stands for: the empty one for no comment, and otherwise what is left
without one leading separator and without the blanks around it. -/
inductive StandsFor : Option String → String → Prop
  | absent : StandsFor none ""
  | separated {comment : String} {rest : List Char} (h : comment.toList = '-' :: rest) :
      StandsFor (some comment) (String.ofList (trim rest))
  | plain {comment : String} (h : comment.toList.head? ≠ some '-') :
      StandsFor (some comment) (String.ofList (trim comment.toList))

/-- A summary that takes the help address and the description of every parameter from the last tag
that gives one, over all blocks in their order, and its own description from the first block. -/
structure Summary.TakesLast (s : Summary) (blocks : List Block) : Prop where
  isCustomFunction : s.isCustomFunction = true
  helpUrl : (∃ t, IsLast Tag.GivesHelpUrl (blocks.flatMap Block.tags) t ∧ s.helpUrl = t.text) ∨
    (∀ t ∈ blocks.flatMap Block.tags, ¬ t.GivesHelpUrl) ∧ s.helpUrl = ""
  undocumented : ∀ name, s.paramDescription? name = none ↔
    ∀ t ∈ blocks.flatMap Block.tags, ¬ t.IsFor name
  documented : ∀ name d, s.paramDescription? name = some d ↔
    ∃ t comment, IsLast (·.IsFor name) (blocks.flatMap Block.tags) t ∧
      t.Documents name comment ∧ StandsFor comment d
  description : ∃ first further, blocks = first :: further ∧ s.description = first.comment

theorem standsFor_iff (name : String) {comment : Option String} {d : String} :
    StandsFor comment d ↔ (ParamTag.described ⟨name, comment⟩).2 = d := by
  constructor
  · rintro (_ | h | h)
    · rfl
    · simp [ParamTag.described, cleanDescription, h]
    · simp only [ParamTag.described, cleanDescription, Option.map_some, Option.getD_some]
      split
      · next heq => simp [heq] at h
      · rfl
  · rintro rfl
    cases comment with
    | none => exact .absent
    | some c =>
      simp only [ParamTag.described, cleanDescription, Option.map_some, Option.getD_some]
      split
      · next rest heq => exact .separated heq
      · next hno =>
        refine .plain fun hhead => ?_
        obtain ⟨rest, hrest⟩ := List.head?_eq_some_iff.mp hhead
        exact hno rest hrest

theorem is_iff {t : Tag} {name : String} :
    t.is name = true ↔ t.name.toList.map Char.toLower = foldCase name := beq_iff_eq

theorem is_markerName_iff {t : Tag} : t.is markerName = true ↔ t.IsMarker := by
  have hname : foldCase markerName = "customfunction".toList := by decide
  rw [is_iff, hname, Tag.IsMarker]

/-! ### The last tag that says something -/

theorem findSome?_reverse_eq_none_iff {β : Type} {f : Tag → Option β} {tags : List Tag} :
    tags.reverse.findSome? f = none ↔ ∀ t ∈ tags, f t = none := by
  simp [List.findSome?_eq_none_iff]

theorem findSome?_reverse_eq_some_iff {β : Type} {f : Tag → Option β} {tags : List Tag} {b : β} :
    tags.reverse.findSome? f = some b ↔
      ∃ t, IsLast (fun u => (f u).isSome = true) tags t ∧ f t = some b := by
  rw [List.findSome?_eq_some_iff]
  constructor
  · rintro ⟨after, t, before, hsplit, ht, hafter⟩
    refine ⟨t, ⟨by simp [ht], before.reverse, after.reverse, ?_, ?_⟩, ht⟩
    · rw [← List.reverse_reverse tags, hsplit]
      simp
    · simpa using hafter
  · rintro ⟨t, ⟨-, before, after, rfl, hafter⟩, ht⟩
    exact ⟨after.reverse, t, before.reverse, by simp, ht, by simpa using hafter⟩

def Tag.helpUrl? (t : Tag) : Option String := if t.is helpUrlName then t.comment? else none

theorem helpUrl?_eq_some_iff {t : Tag} {u : String} :
    t.helpUrl? = some u ↔ t.GivesHelpUrl ∧ t.text = u := by
  have hname : foldCase helpUrlName = "helpurl".toList := by decide
  rw [Tag.helpUrl?, Option.ite_none_right_eq_some, is_iff, hname, Tag.GivesHelpUrl, and_assoc]
  simp [Tag.comment?, nonempty?]

def Tag.description? (t : Tag) (name : String) : Option String :=
  if t.name ∈ paramTagNames then
    (ParamTag.parse? t.text).bind fun p => if p.name = name then some p.described.2 else none
  else none

theorem description?_eq_some_iff {name : String} {t : Tag} {d : String} :
    t.description? name = some d ↔ ∃ comment, t.Documents name comment ∧ StandsFor comment d := by
  rw [Tag.description?, Option.ite_none_right_eq_some, Option.bind_eq_some_iff]
  constructor
  · rintro ⟨htag, ⟨n, comment⟩, hread, hd⟩
    obtain ⟨rfl, hdescribed⟩ := Option.ite_none_right_eq_some.mp hd
    exact ⟨comment, ⟨htag, hread⟩, (standsFor_iff n).mpr (Option.some.inj hdescribed)⟩
  · rintro ⟨comment, ⟨htag, hread⟩, hd⟩
    refine ⟨htag, ⟨name, comment⟩, hread, ?_⟩
    rw [if_pos rfl, (standsFor_iff name).mp hd]

theorem isSome_description?_iff {name : String} {t : Tag} :
    (t.description? name).isSome = true ↔ t.IsFor name := by
  rw [Option.isSome_iff_exists]
  constructor
  · rintro ⟨d, hd⟩
    obtain ⟨comment, hcomment, -⟩ := description?_eq_some_iff.mp hd
    exact ⟨comment, hcomment⟩
  · rintro ⟨comment, hcomment⟩
    exact ⟨_, description?_eq_some_iff.mpr ⟨comment, hcomment, (standsFor_iff name).mpr rfl⟩⟩

/-! ### What the blocks say -/

theorem any_is_markerName_iff {tags : List Tag} :
    tags.any (·.is markerName) = true ↔ ∃ t ∈ tags, t.IsMarker := by
  simp [is_markerName_iff]

theorem ofBlocks_unmarked {blocks : List Block} (h : ∀ t ∈ blocks.flatMap Block.tags, ¬ t.IsMarker) :
    Summary.ofBlocks blocks = ⟨false, "", [], none⟩ := by
  rw [Summary.ofBlocks, if_neg]
  rw [any_is_markerName_iff]
  rintro ⟨t, ht, hmarker⟩
  exact h t ht hmarker

theorem isCustomFunction_iff_exists {blocks : List Block} :
    (Summary.ofBlocks blocks).isCustomFunction = true ↔
      ∃ t ∈ blocks.flatMap Block.tags, t.IsMarker := by
  constructor
  · intro hcustom
    by_contra hunmarked
    rw [ofBlocks_unmarked fun t ht hmarker => hunmarked ⟨t, ht, hmarker⟩] at hcustom
    cases hcustom
  · intro h
    rw [Summary.ofBlocks, if_pos (any_is_markerName_iff.mpr h)]

theorem exists_ofBlocks_eq {blocks blocks' : List Block}
    (h : blocks'.flatMap Block.tags = blocks.flatMap Block.tags) :
    ∃ d, Summary.ofBlocks blocks' = { Summary.ofBlocks blocks with description := d } := by
  simp only [Summary.ofBlocks, h]
  split
  · exact ⟨_, rfl⟩
  · exact ⟨none, rfl⟩

theorem find?_described (tags : List Tag) (name : String) :
    ((((tags.filter (·.name ∈ paramTagNames)).filterMap fun t => ParamTag.parse? t.text).map
      ParamTag.described).find? (·.1 == name)).map Prod.snd =
        tags.findSome? (·.description? name) := by
  induction tags with
  | nil => rfl
  | cons t tags ih =>
    rw [List.findSome?_cons, ← ih, Tag.description?]
    by_cases htag : t.name ∈ paramTagNames
    · cases hread : ParamTag.parse? t.text with
      | none => simp [htag, hread]
      | some p =>
        by_cases hname : p.name = name
        · simp [htag, hread, hname, ParamTag.described]
        · simp [htag, hread, hname, ParamTag.described]
    · simp [htag]

section Marked

variable {blocks : List Block} (h : ∃ t ∈ blocks.flatMap Block.tags, t.IsMarker)
include h

theorem description_marked :
    ∃ first further, blocks = first :: further ∧
      (Summary.ofBlocks blocks).description = first.comment := by
  cases blocks with
  | nil => simp at h
  | cons first further =>
    refine ⟨first, further, rfl, ?_⟩
    rw [Summary.ofBlocks, if_pos (any_is_markerName_iff.mpr h)]
    rfl

theorem helpUrl_marked :
    (Summary.ofBlocks blocks).helpUrl =
      ((blocks.flatMap Block.tags).reverse.findSome? Tag.helpUrl?).getD "" := by
  have hlast : ∀ tags : List Tag, ((tags.filter (·.is helpUrlName)).filterMap Tag.comment?).getLast? =
      tags.reverse.findSome? Tag.helpUrl? := by
    intro tags
    rw [List.filterMap_filter, ← List.head?_reverse, ← List.filterMap_reverse, List.head?_filterMap]
    rfl
  rw [Summary.ofBlocks, if_pos (any_is_markerName_iff.mpr h), hlast]

theorem paramDescription?_marked (name : String) :
    (Summary.ofBlocks blocks).paramDescription? name =
      (blocks.flatMap Block.tags).reverse.findSome? (·.description? name) := by
  rw [Summary.ofBlocks, if_pos (any_is_markerName_iff.mpr h), Summary.paramDescription?,
    List.findRev?_eq_find?_reverse, ← find?_described]
  simp only [List.filter_reverse, List.filterMap_reverse, List.map_reverse]

theorem helpUrl_marked_cases :
    (∃ t, IsLast Tag.GivesHelpUrl (blocks.flatMap Block.tags) t ∧
        (Summary.ofBlocks blocks).helpUrl = t.text) ∨
      (∀ t ∈ blocks.flatMap Block.tags, ¬ t.GivesHelpUrl) ∧
        (Summary.ofBlocks blocks).helpUrl = "" := by
  have hgives : (fun t : Tag => t.helpUrl?.isSome = true) = Tag.GivesHelpUrl := by
    funext t
    simp [Option.isSome_iff_exists, helpUrl?_eq_some_iff]
  rw [helpUrl_marked h]
  cases hfind : (blocks.flatMap Block.tags).reverse.findSome? Tag.helpUrl? with
  | none =>
    refine .inr ⟨fun t ht hgive => ?_, rfl⟩
    have hnone := findSome?_reverse_eq_none_iff.mp hfind t ht
    rw [helpUrl?_eq_some_iff.mpr ⟨hgive, rfl⟩] at hnone
    cases hnone
  | some u =>
    obtain ⟨t, hlast, ht⟩ := findSome?_reverse_eq_some_iff.mp hfind
    rw [hgives] at hlast
    exact .inl ⟨t, hlast, (helpUrl?_eq_some_iff.mp ht).2.symm⟩

theorem takesLast_marked : (Summary.ofBlocks blocks).TakesLast blocks where
  isCustomFunction := isCustomFunction_iff_exists.mpr h
  helpUrl := helpUrl_marked_cases h
  undocumented name := by
    rw [paramDescription?_marked h, findSome?_reverse_eq_none_iff]
    refine forall₂_congr fun t _ => ?_
    rw [← isSome_description?_iff, Option.not_isSome_iff_eq_none]
  documented name d := by
    have hfor : (fun t : Tag => (t.description? name).isSome = true) = (·.IsFor name) := by
      funext t
      rw [isSome_description?_iff]
    rw [paramDescription?_marked h, findSome?_reverse_eq_some_iff, hfor]
    refine exists_congr fun t => ?_
    rw [description?_eq_some_iff, exists_and_left]
  description := description_marked h

end Marked

/-- With a marker among the tags, the last tag that says something counts, and the first block gives
the description. Without one the blocks say nothing. Tags that are divided into other blocks say the
same, but for the description. -/
theorem last_tag_counts (blocks : List Block) :
    ((∃ t ∈ blocks.flatMap Block.tags, t.IsMarker) → (Summary.ofBlocks blocks).TakesLast blocks) ∧
    ((∀ t ∈ blocks.flatMap Block.tags, ¬ t.IsMarker) →
      Summary.ofBlocks blocks = ⟨false, "", [], none⟩) ∧
    ∀ blocks', blocks'.flatMap Block.tags = blocks.flatMap Block.tags →
      ∃ d, Summary.ofBlocks blocks' = { Summary.ofBlocks blocks with description := d } :=
  ⟨takesLast_marked, ofBlocks_unmarked, fun _ => exists_ofBlocks_eq⟩

/-- Two blocks that describe a parameter and give a help address twice, and their tags in one block. -/
theorem last_tag_counts_two_blocks :
    let first : Block := ⟨some "Adds up.", [⟨"param", "x - one"⟩, ⟨"HelpUrl", "a.example"⟩]⟩
    let second : Block := ⟨some "Once more.", [⟨"customFunction", ""⟩, ⟨"arg", "x"⟩, ⟨"helpurl", ""⟩]⟩
    (∃ t ∈ [first, second].flatMap Block.tags, t.IsMarker) ∧
    (Summary.ofBlocks [first, second]).TakesLast [first, second] ∧
    Summary.ofBlocks [first] = ⟨false, "", [], none⟩ ∧
    ∃ d, Summary.ofBlocks [⟨none, first.tags ++ second.tags⟩] =
      { Summary.ofBlocks [first, second] with description := d } := by
  intro first second
  have hmarker : ∃ t ∈ [first, second].flatMap Block.tags, t.IsMarker :=
    ⟨⟨"customFunction", ""⟩, by decide, by unfold Tag.IsMarker; decide⟩
  have hunmarked : ∀ t ∈ [first].flatMap Block.tags, ¬ t.IsMarker := by
    unfold Tag.IsMarker
    decide
  exact ⟨hmarker, (last_tag_counts _).1 hmarker, (last_tag_counts _).2.1 hunmarked,
    (last_tag_counts _).2.2 _ rfl⟩

end ScriptManifest.Doc
