import ScriptManifest.Proofs.DocLayout
import Mathlib.Data.List.DropRight

/-!
Documentation blocks written in the conventional layout and read again. A renderable block is read
back as it was (`conventional_layout_reads_back`). A block that was read from a comment is renderable
but for one case: a tag on the first line that says anything, set apart from the star of its gutter
by blanks other than one space, is taken for text, and trimming the text makes a tag of it
(`rereading_changes_only_set_apart_tag`).
-/

namespace ScriptManifest.Text

/-! ### Trimmed texts -/

theorem trimEnd_eq_self_iff {s : List Char} :
    trimEnd s = s ↔ ∀ c ∈ s.getLast?, isBlank c = false := by
  constructor
  · intro h c hc
    rw [← h] at hc
    exact isBlank_of_mem_getLast?_trimEnd hc
  · intro h
    obtain rfl | ⟨s, c, rfl⟩ := List.eq_nil_or_concat s
    · rfl
    · rw [List.concat_eq_append]
      exact trimEnd_eq_self (h c (by simp))

theorem trimEnd_eq_of_suffix {s t : List Char} (h : t <:+ s) (hs : trimEnd s = s) : trimEnd t = t := by
  obtain ⟨a, rfl⟩ := h
  rw [trimEnd_eq_self_iff] at hs ⊢
  intro c hc
  rw [Option.mem_def] at hc
  exact hs c (by simp [List.getLast?_append, hc])

theorem blank_or_exists (s : List Char) :
    (∀ c ∈ s, isBlank c = true) ∨
      ∃ gap c t, s = gap ++ c :: t ∧ (∀ x ∈ gap, isBlank x = true) ∧ isBlank c = false := by
  induction s with
  | nil => exact .inl (by simp)
  | cons x s ih =>
    cases hx : isBlank x with
    | false => exact .inr ⟨[], x, s, rfl, by simp, hx⟩
    | true =>
      obtain hs | ⟨gap, c, t, rfl, hgap, hc⟩ := ih
      · exact .inl (by simpa [hx] using hs)
      · exact .inr ⟨x :: gap, c, t, rfl, by simpa [hx] using hgap, hc⟩

theorem trimStart_of_gap {gap : List Char} (hgap : ∀ x ∈ gap, isBlank x = true) {c : Char}
    (hc : isBlank c = false) (t : List Char) : trimStart (gap ++ c :: t) = c :: t := by
  rw [trimStart_append_of_blank hgap]
  simp [trimStart, hc]

theorem trim_of_gap {gap : List Char} (hgap : ∀ x ∈ gap, isBlank x = true) {c : Char}
    (hc : isBlank c = false) (t : List Char) : trim (gap ++ c :: t) = c :: trimEnd t := by
  rw [trim, trimStart_of_gap hgap hc]
  exact trimEnd_append (s := []) hc t

theorem trimEnd_of_blank {s : List Char} (h : ∀ c ∈ s, isBlank c = true) : trimEnd s = [] :=
  trimEnd_append_of_blank [] h

theorem trimStart_of_blank {s : List Char} (h : ∀ c ∈ s, isBlank c = true) : trimStart s = [] := by
  simpa [trimStart] using trimStart_append_of_blank h []

theorem trimStart_trimEnd (s : List Char) : trimStart (trimEnd s) = trim s := by
  obtain hs | ⟨gap, c, t, rfl, hgap, hc⟩ := blank_or_exists s
  · rw [trim, trimEnd_of_blank hs, trimStart_of_blank hs]
    rfl
  · rw [trim, trimEnd_append hc, trimStart_of_gap hgap hc, trimStart_of_gap hgap hc]
    exact (trimEnd_append (s := []) hc t).symm

theorem trimStart_trim (s : List Char) : trimStart (trim s) = trim s := by
  rw [trim, trimStart_trimEnd, trim, trimStart, trimStart, List.dropWhile_idempotent]

theorem trim_trim (s : List Char) : trim (trim s) = trim s := by
  rw [trim, trimStart_trim, trim, trimEnd_trimEnd]

theorem exists_of_trimEnd_eq {l : List Char} (hne : l ≠ []) (h : trimEnd l = l) :
    ∃ gap c t, l = gap ++ c :: t ∧ (∀ x ∈ gap, isBlank x = true) ∧ isBlank c = false := by
  obtain hl | hl := blank_or_exists l
  · rw [trimEnd_of_blank hl] at h
    exact (hne h.symm).elim
  · exact hl

/-! ### The lines of a trimmed text -/

theorem lines_joinLines {ls : List (List Char)} (hne : ls ≠ []) (h : ∀ l ∈ ls, '\n' ∉ l) :
    lines (joinLines ls) = ls := by
  induction ls with
  | nil => exact (hne rfl).elim
  | cons l ls ih =>
    rw [List.forall_mem_cons] at h
    by_cases hls : ls = []
    · rw [hls, joinLines_singleton, lines_of_not_mem h.1]
    · rw [joinLines_cons hls, lines_append_newline h.1, ih hls h.2]

theorem joinLines_append_cons (a l : List Char) (ls : List (List Char)) :
    joinLines ((a ++ l) :: ls) = a ++ joinLines (l :: ls) := by
  induction a with
  | nil => rfl
  | cons c a ih => rw [List.cons_append, joinLines_cons_cons, ih, List.cons_append]

theorem getLast?_joinLines {l : List Char} (hl : l ≠ []) (ls : List (List Char)) :
    (joinLines (ls ++ [l])).getLast? = l.getLast? := by
  induction ls with
  | nil => rw [List.nil_append, joinLines_singleton]
  | cons x ls ih =>
    rw [List.cons_append, joinLines_cons (by simp), List.getLast?_append, List.getLast?_cons, ih]
    cases h : l.getLast? with
    | none => exact (hl (List.getLast?_eq_none_iff.mp h)).elim
    | some c => rfl

theorem exists_append_empty (ls : List (List Char)) :
    ∃ ms fs, ls = ms ++ fs ∧ (∀ l ∈ fs, l = []) ∧ ms.getLast? ≠ some [] := by
  induction ls using List.reverseRecOn with
  | nil => exact ⟨[], [], rfl, by simp, by simp⟩
  | append_singleton ls l ih =>
    by_cases hl : l = []
    · obtain ⟨ms, fs, rfl, hfs, hlast⟩ := ih
      exact ⟨ms, fs ++ [l], by simp, by simpa [or_imp, forall_and, hl] using hfs, hlast⟩
    · exact ⟨ls ++ [l], [], by simp, by simp, by simpa using hl⟩

theorem trimEnd_joinLines {l : List Char} {ms : List (List Char)} (hl : l ≠ [])
    (hlast : ms.getLast? ≠ some []) (h : ∀ m ∈ l :: ms, trimEnd m = m) :
    trimEnd (joinLines (l :: ms)) = joinLines (l :: ms) := by
  obtain ⟨xs, y, hxs, hy⟩ : ∃ xs y, l :: ms = xs ++ [y] ∧ y ≠ [] := by
    obtain rfl | ⟨xs, y, rfl⟩ := List.eq_nil_or_concat ms
    · exact ⟨[], l, rfl, hl⟩
    · rw [List.concat_eq_append] at hlast ⊢
      exact ⟨l :: xs, y, rfl, by simpa using hlast⟩
  have hty := h y (by simp [hxs])
  rw [trimEnd_eq_self_iff] at hty
  rwa [hxs, trimEnd_eq_self_iff, getLast?_joinLines hy]

theorem lines_trim_joinLines {ls : List (List Char)} (htrim : ∀ l ∈ ls, trimEnd l = l)
    (hnl : ∀ l ∈ ls, '\n' ∉ l) :
    trim (joinLines ls) = [] ∧ (∀ l ∈ ls, l = []) ∨
      ∃ es l ms fs, ls = es ++ l :: (ms ++ fs) ∧ (∀ e ∈ es, e = []) ∧ l ≠ [] ∧
        lines (trim (joinLines ls)) = trimStart l :: ms := by
  induction ls with
  | nil => exact .inl ⟨rfl, by simp⟩
  | cons l ls ih =>
    rw [List.forall_mem_cons] at htrim hnl
    by_cases hl : l = []
    · subst hl
      rw [trim_joinLines_nil_cons]
      obtain ⟨htext, hempty⟩ | ⟨es, l, ms, fs, rfl, hes, hl, hlines⟩ := ih htrim.2 hnl.2
      · exact .inl ⟨htext, by simpa using hempty⟩
      · exact .inr ⟨[] :: es, l, ms, fs, rfl, by simpa using hes, hl, hlines⟩
    · right
      obtain ⟨ms, fs, rfl, hfs, hlast⟩ := exists_append_empty ls
      obtain ⟨gap, c, t, rfl, hgap, hc⟩ := exists_of_trimEnd_eq hl htrim.1
      have hkept : ∀ m ∈ (c :: t) :: ms, trimEnd m = m := by
        rw [List.forall_mem_cons]
        exact ⟨trimEnd_eq_of_suffix (List.suffix_append gap _) htrim.1,
          fun m hm => htrim.2 m (List.mem_append_left fs hm)⟩
      have hlined : ∀ m ∈ (c :: t) :: ms, '\n' ∉ m := by
        rw [List.forall_mem_cons]
        exact ⟨fun h => hnl.1 (List.mem_append_right gap h),
          fun m hm => hnl.2 m (List.mem_append_left fs hm)⟩
      have htext : trim (joinLines ((gap ++ c :: t) :: (ms ++ fs))) = joinLines ((c :: t) :: ms) := by
        rw [← List.cons_append, trim_joinLines_append _ hfs, joinLines_append_cons, trim,
          joinLines_cons_cons, trimStart_of_gap hgap hc, ← joinLines_cons_cons,
          trimEnd_joinLines (by simp) hlast hkept]
      refine ⟨[], gap ++ c :: t, ms, fs, rfl, by simp, hl, ?_⟩
      rw [htext, lines_joinLines (by simp) hlined, trimStart_of_gap hgap hc]

end ScriptManifest.Text

namespace ScriptManifest.Doc

open Text

/-! ### Writing and reading -/

theorem newline_not_mem_renderLines {b : Block} (h : ∀ t ∈ b.tags, IsTagName t.name.toList) :
    ∀ l ∈ b.renderLines, '\n' ∉ l := by
  intro l hl
  rw [Block.renderLines, List.mem_append, List.mem_flatMap] at hl
  obtain hl | ⟨t, ht, hl⟩ := hl
  · cases hc : b.comment with
    | none => simp [hc] at hl
    | some c => exact newline_not_mem_of_mem_lines (s := c.toList) (by simpa [hc] using hl)
  · have hname : '\n' ∉ t.name.toList := fun hn => by
      simpa [isBlank] using isBlank_eq_false_of_isTagChar ((h t ht).isTagChar _ hn)
    cases hlines : lines t.text.toList with
    | nil => exact (lines_ne_nil _ hlines).elim
    | cons first further =>
      have hfirst : '\n' ∉ first := newline_not_mem_of_mem_lines (s := t.text.toList) (by simp [hlines])
      rw [Tag.renderLines, hlines, List.mem_cons] at hl
      obtain rfl | hl := hl
      · simp [hname, hfirst]
      · exact newline_not_mem_of_mem_lines (s := t.text.toList) (by simp [hlines, hl])

theorem Block.IsRenderable.parse?_render {b : Block} (h : b.IsRenderable) :
    Block.parse? b.render = some b :=
  parse?_gutter_eq h (newline_not_mem_renderLines fun t ht => (h.tags t ht).name) rfl

theorem isDoc_render (b : Block) : isDoc b.render = true := by
  have hbody : body? b.render.toList = _ := body?_gutter b.renderLines
  rw [isDoc, hbody, Option.isSome_some]

/-- What the conventional layout keeps as it is, is a documentation comment there and is read back:
the comment and the tags with their texts, interior empty lines and indentation included. -/
theorem conventional_layout_reads_back {b : Block} (h : b.IsRenderable) :
    isDoc b.render = true ∧ Block.parse? b.render = some b :=
  ⟨isDoc_render b, h.parse?_render⟩

def ledgerBlock : Block where
  comment := some "Adds up a ledger.\n\n  Text counts for nothing."
  tags := [⟨"customfunction", ""⟩, ⟨"param", "rows - One row a day:\n\n    date @ amount"⟩]

theorem isRenderable_ledgerBlock : ledgerBlock.IsRenderable where
  comment := by
    rintro c ⟨⟩
    exact ⟨by decide, by decide, by decide, by decide⟩
  tags := by
    have htags : ∀ t ∈ ledgerBlock.tags, trim t.text.toList = t.text.toList ∧
        (∀ l ∈ lines t.text.toList, trimEnd l = l) ∧
          ∀ l ∈ (lines t.text.toList).tail, tagLine? l = none := by decide
    have hnames : ∀ t ∈ ledgerBlock.tags, IsTagName t.name.toList := by
      simp only [ledgerBlock, List.forall_mem_cons]
      exact ⟨isTagName_cons (by decide) (by decide), isTagName_cons (by decide) (by decide), by simp⟩
    exact fun t ht => ⟨hnames t ht, (htags t ht).1, (htags t ht).2.1, (htags t ht).2.2⟩

theorem conventional_layout_reads_back_ledgerBlock :
    ledgerBlock.IsRenderable ∧ isDoc ledgerBlock.render = true ∧
      Block.parse? ledgerBlock.render = some ledgerBlock :=
  ⟨isRenderable_ledgerBlock, conventional_layout_reads_back isRenderable_ledgerBlock⟩

/-! ### Sections of cleaned lines -/

theorem trimEnd_cleanLine (line : List Char) : trimEnd (cleanLine line) = cleanLine line :=
  trimEnd_trimEnd _

theorem mem_of_mem_trimStart {s : List Char} {c : Char} (h : c ∈ trimStart s) : c ∈ s :=
  (List.dropWhile_sublist isBlank).mem h

theorem mem_of_mem_trimEnd {s : List Char} {c : Char} (h : c ∈ trimEnd s) : c ∈ s := by
  rw [trimEnd, List.mem_reverse] at h
  simpa using (List.dropWhile_sublist isBlank).mem h

theorem cleanLine_cases (line : List Char) :
    (∃ indent rest, line = indent ++ '*' :: ' ' :: rest ∧ (∀ c ∈ indent, isBlank c = true) ∧
        cleanLine line = trimEnd rest) ∨
      (∃ indent rest, line = indent ++ '*' :: rest ∧ (∀ c ∈ indent, isBlank c = true) ∧
        rest.head? ≠ some ' ' ∧ cleanLine line = trimEnd rest) ∨
      cleanLine line = trim line := by
  have hline : line = line.takeWhile isBlank ++ trimStart line :=
    List.takeWhile_append_dropWhile.symm
  have hindent : ∀ c ∈ line.takeWhile isBlank, isBlank c = true := fun c hc =>
    List.mem_takeWhile_imp hc
  unfold cleanLine
  split
  · next rest heq => exact .inl ⟨_, rest, heq ▸ hline, hindent, rfl⟩
  · next rest hspace heq =>
    refine .inr (.inl ⟨_, rest, heq ▸ hline, hindent, fun hhead => ?_, rfl⟩)
    obtain ⟨rest', rfl⟩ := List.head?_eq_some_iff.mp hhead
    exact hspace rest' rfl
  · exact .inr (.inr rfl)

theorem mem_of_mem_cleanLine {line : List Char} {c : Char} (h : c ∈ cleanLine line) : c ∈ line := by
  obtain ⟨indent, rest, rfl, -, heq⟩ | ⟨indent, rest, rfl, -, -, heq⟩ | heq := cleanLine_cases line
  all_goals rw [heq] at h
  · simp [mem_of_mem_trimEnd h]
  · simp [mem_of_mem_trimEnd h]
  · exact mem_of_mem_trimStart (mem_of_mem_trimEnd h)

theorem of_tagLine? {line name text : List Char} (h : tagLine? line = some (name, text)) :
    IsTagName name ∧ line = '@' :: name ++ text := by
  unfold tagLine? at h
  split at h
  · next c rest =>
    split at h
    · next hc =>
      cases h
      refine ⟨⟨c, _, rfl, hc, fun x hx => List.mem_takeWhile_imp hx⟩, ?_⟩
      simp [List.takeWhile_append_dropWhile]
    · cases h
  · cases h

theorem tagLine?_of_mem_sections {ls : List (List Char)} {l : List Char} (h : l ∈ (sections ls).1) :
    l ∈ ls ∧ tagLine? l = none := by
  induction ls with
  | nil => simp [sections] at h
  | cons line ls ih =>
    simp only [sections] at h
    split at h
    · simp at h
    · next hline =>
      obtain rfl | h := List.mem_cons.mp h
      · exact ⟨by simp, hline⟩
      · exact ⟨by simp [ih h], (ih h).2⟩

structure IsTagSection (ls : List (List Char)) (name : List Char) (text : List (List Char)) : Prop where
  name : IsTagName name
  lines : ∃ first further, text = first :: further ∧ (∃ line ∈ ls, first <:+ line) ∧
    ∀ l ∈ further, l ∈ ls ∧ tagLine? l = none

theorem isTagSection_of_mem_sections {ls : List (List Char)} {t : List Char × List (List Char)}
    (h : t ∈ (sections ls).2) : IsTagSection ls t.1 t.2 := by
  induction ls with
  | nil => simp [sections] at h
  | cons line ls ih =>
    have hrest : t ∈ (sections ls).2 → IsTagSection (line :: ls) t.1 t.2 := by
      intro h
      obtain ⟨hname, first, further, htext, ⟨x, hx, hfirst⟩, hfurther⟩ := ih h
      exact ⟨hname, first, further, htext, ⟨x, List.mem_cons_of_mem line hx, hfirst⟩,
        fun l hl => ⟨List.mem_cons_of_mem line (hfurther l hl).1, (hfurther l hl).2⟩⟩
    simp only [sections] at h
    split at h
    · next name text hline =>
      obtain rfl | h := List.mem_cons.mp h
      · obtain ⟨hname, heq⟩ := of_tagLine? hline
        refine ⟨hname, text, _, rfl, ⟨line, by simp, '@' :: name, heq.symm⟩, fun l hl => ?_⟩
        have hfree := tagLine?_of_mem_sections hl
        exact ⟨List.mem_cons_of_mem line hfree.1, hfree.2⟩
      · exact hrest h
    · exact hrest h

/-! ### Blocks that were read -/

def Block.commentLines (b : Block) : List (List Char) :=
  (b.comment.map fun c => lines c.toList).getD []

structure AreCleaned (ls : List (List Char)) : Prop where
  trimmed : ∀ l ∈ ls, trimEnd l = l
  single : ∀ l ∈ ls, '\n' ∉ l

theorem areCleaned_lines (body : List Char) : AreCleaned ((lines body).map cleanLine) where
  trimmed := by
    simp only [List.forall_mem_map]
    exact fun l _ => trimEnd_cleanLine l
  single := by
    simp only [List.forall_mem_map]
    exact fun l hl h => newline_not_mem_of_mem_lines hl (mem_of_mem_cleanLine h)

theorem AreCleaned.lines_sectionText {ls : List (List Char)} (h : AreCleaned ls) :
    (∀ l ∈ lines (sectionText ls), trimEnd l = l) ∧
      ∀ l ∈ (lines (sectionText ls)).tail, l ∈ ls.tail := by
  obtain ⟨htext, -⟩ | ⟨es, l, ms, fs, rfl, -, -, hlines⟩ := lines_trim_joinLines h.trimmed h.single
  · rw [sectionText, htext]
    simp [lines, trimEnd]
  · rw [sectionText, hlines, List.tail_cons, List.forall_mem_cons]
    have hl : trimEnd l = l := h.trimmed l (by simp)
    refine ⟨⟨trimEnd_eq_of_suffix (List.dropWhile_suffix isBlank) hl,
      fun m hm => h.trimmed m (by simp [hm])⟩, fun m hm => ?_⟩
    cases es with
    | nil => simp [hm]
    | cons e es => simp [hm]

theorem AreCleaned.isRenderable_tag {ls : List (List Char)} (h : AreCleaned ls) {name : List Char}
    {text : List (List Char)} (ht : IsTagSection ls name text) :
    Tag.IsRenderable ⟨String.ofList name, String.ofList (sectionText text)⟩ := by
  obtain ⟨hname, first, further, rfl, ⟨line, hline, hfirst⟩, hfurther⟩ := ht
  have hcleaned : AreCleaned (first :: further) := by
    constructor <;> rw [List.forall_mem_cons]
    · exact ⟨trimEnd_eq_of_suffix hfirst (h.trimmed line hline),
        fun l hl => h.trimmed l (hfurther l hl).1⟩
    · exact ⟨fun hn => h.single line hline (hfirst.subset hn), fun l hl => h.single l (hfurther l hl).1⟩
  obtain ⟨hlines, htail⟩ := hcleaned.lines_sectionText
  exact
    { name := by simpa using hname
      trimmed := by simpa [sectionText] using trim_trim _
      lines := by simpa using hlines
      further := by
        simp only [String.toList_ofList]
        exact fun l hl => (hfurther l (htail l hl)).2 }

theorem AreCleaned.isRenderable_tags {ls : List (List Char)} (h : AreCleaned ls) :
    ∀ t ∈ (Block.ofLines ls).tags, t.IsRenderable := by
  intro t ht
  obtain ⟨s, hs, rfl⟩ := List.mem_map.mp ht
  exact h.isRenderable_tag (isTagSection_of_mem_sections hs)

theorem AreCleaned.free {ls : List (List Char)} (h : AreCleaned ls) : AreCleaned (sections ls).1 where
  trimmed l hl := h.trimmed l (tagLine?_of_mem_sections hl).1
  single l hl := h.single l (tagLine?_of_mem_sections hl).1

theorem commentLines_ofLines (ls : List (List Char)) :
    (Block.ofLines ls).commentLines =
      if sectionText (sections ls).1 = [] then [] else lines (sectionText (sections ls).1) := by
  simp only [Block.commentLines, Block.ofLines, nonempty?, List.isEmpty_iff]
  split <;> simp

theorem AreCleaned.trimEnd_commentLines {ls : List (List Char)} (h : AreCleaned ls) :
    ∀ l ∈ (Block.ofLines ls).commentLines, trimEnd l = l := by
  rw [commentLines_ofLines]
  split
  · simp
  · exact h.free.lines_sectionText.1

theorem AreCleaned.tagLine?_further {ls : List (List Char)} (h : AreCleaned ls) :
    ∀ l ∈ (Block.ofLines ls).commentLines.tail, tagLine? l = none := by
  rw [commentLines_ofLines]
  split
  · simp
  · exact fun l hl =>
      (tagLine?_of_mem_sections (List.mem_of_mem_tail (h.free.lines_sectionText.2 l hl))).2

theorem AreCleaned.head?_commentLines {ls : List (List Char)} (h : AreCleaned ls) :
    (Block.ofLines ls).commentLines.head? =
      ((sections ls).1.find? fun l => !l.isEmpty).map trimStart := by
  rw [commentLines_ofLines]
  obtain ⟨htext, hempty⟩ | ⟨es, l, ms, fs, hls, hes, hl, hlines⟩ :=
    lines_trim_joinLines h.free.trimmed h.free.single
  · rw [sectionText, if_pos htext, List.find?_eq_none.mpr (by simpa using hempty)]
    rfl
  · have hne : trim (joinLines (sections ls).1) ≠ [] := by
      intro htext
      rw [htext, lines, List.cons.injEq] at hlines
      obtain ⟨gap, c, t, rfl, hgap, hc⟩ :=
        exists_of_trimEnd_eq hl (h.free.trimmed l (by simp [hls]))
      rw [trimStart_of_gap hgap hc] at hlines
      cases hlines.1
    have hfind : ((sections ls).1.find? fun l => !l.isEmpty) = some l := by
      rw [hls, List.find?_append, List.find?_eq_none.mpr (by simpa using hes)]
      simp [hl]
    rw [sectionText, if_neg hne, hlines, hfind]
    rfl

theorem AreCleaned.isRenderable {ls : List (List Char)} (h : AreCleaned ls)
    (htag : ∀ l ∈ (Block.ofLines ls).commentLines, tagLine? l = none) :
    (Block.ofLines ls).IsRenderable where
  tags := h.isRenderable_tags
  comment c hc := by
    rw [Option.mem_def] at hc
    have hlines : (Block.ofLines ls).commentLines = lines c.toList := by simp [Block.commentLines, hc]
    obtain ⟨hne, rfl⟩ : sectionText (sections ls).1 ≠ [] ∧
        String.ofList (sectionText (sections ls).1) = c := by
      simpa [Block.ofLines, nonempty?] using hc
    refine ⟨by simpa using hne, by simpa [sectionText] using trim_trim _, ?_, ?_⟩
    · exact hlines ▸ h.trimEnd_commentLines
    · exact hlines ▸ htag

theorem parse?_render_ne {b : Block} {line : List Char} {further : List (List Char)}
    (hlines : b.commentLines = line :: further) (htrim : trimEnd line = line)
    (htag : tagLine? line ≠ none) (hnames : ∀ t ∈ b.tags, IsTagName t.name.toList) :
    Block.parse? b.render ≠ some b := by
  intro h
  have hrender : b.renderLines = line :: (further ++ b.tags.flatMap Tag.renderLines) := by
    rw [← List.cons_append, ← hlines]
    rfl
  obtain ⟨⟨name, text⟩, hline⟩ := Option.ne_none_iff_exists'.mp htag
  have hparse := parse?_gutter (newline_not_mem_renderLines hnames)
  have hcomment : b.comment = none := by
    have hread := hparse.symm.trans h
    rw [Option.some.injEq, hrender] at hread
    rw [← hread]
    have hempty : tagLine? [] = none := rfl
    simp only [List.map_cons, List.cons_append, htrim, Block.ofLines, sections, hempty, hline]
    rfl
  simp [Block.commentLines, hcomment] at hlines

theorem AreCleaned.parse?_render_iff {ls : List (List Char)} (h : AreCleaned ls) :
    Block.parse? (Block.ofLines ls).render = some (Block.ofLines ls) ↔
      ∀ l ∈ (Block.ofLines ls).commentLines, tagLine? l = none := by
  refine ⟨fun hread => ?_, fun htag => (h.isRenderable htag).parse?_render⟩
  cases hlines : (Block.ofLines ls).commentLines with
  | nil => simp
  | cons line further =>
    have htrim := h.trimEnd_commentLines line (by simp [hlines])
    have hfurther := h.tagLine?_further
    rw [hlines, List.tail_cons] at hfurther
    rw [List.forall_mem_cons]
    refine ⟨?_, hfurther⟩
    by_contra htag
    exact parse?_render_ne hlines htrim htag (fun t ht => (h.isRenderable_tags t ht).name) hread

/-! ### Tags set apart from the gutter -/

/-- A line with a tag behind the star of its gutter, the two set apart by blanks other than a single
space. -/
def SetsTagApart (line : List Char) : Prop :=
  ∃ indent gap tag, line = indent ++ '*' :: (gap ++ tag) ∧ (∀ c ∈ indent, isBlank c = true) ∧
    (∀ c ∈ gap, isBlank c = true) ∧ gap ≠ [] ∧ gap ≠ [' '] ∧ tagLine? tag ≠ none

/-- The first line of a body that says anything. -/
def opening? (body : List Char) : Option (List Char) :=
  (lines body).find? fun l => !(cleanLine l).isEmpty

/-- A documentation comment whose first line that says anything sets a tag apart from its gutter. -/
def OpensWithTagApart (raw : String) : Prop :=
  ∃ body ∈ body? raw.toList, ∃ line ∈ opening? body, SetsTagApart line

theorem tagLine?_ne_none_iff {line : List Char} :
    tagLine? line ≠ none ↔ ∃ c rest, line = '@' :: c :: rest ∧ isTagStart c = true := by
  unfold tagLine?
  split
  · next c rest => simp
  · next hline =>
    simp only [ne_eq, not_true_eq_false, false_iff, not_exists, not_and]
    intro c rest heq
    exact (hline c rest heq).elim

theorem trimEnd_prefix (s : List Char) : trimEnd s <+: s := by
  have h := List.dropWhile_suffix isBlank (l := s.reverse)
  rwa [← List.reverse_prefix, List.reverse_reverse] at h

theorem tagLine?_trimEnd {s : List Char} : tagLine? (trimEnd s) = none ↔ tagLine? s = none := by
  rw [← not_iff_not, ← ne_eq, ← ne_eq, tagLine?_ne_none_iff, tagLine?_ne_none_iff]
  constructor
  · rintro ⟨c, rest, heq, hc⟩
    obtain ⟨blanks, hs⟩ := trimEnd_prefix s
    rw [heq] at hs
    exact ⟨c, rest ++ blanks, by simpa using hs.symm, hc⟩
  · rintro ⟨c, rest, rfl, hc⟩
    have hblank := isBlank_eq_false_of_isTagChar (isTagChar_of_isTagStart hc)
    exact ⟨c, trimEnd rest, trimEnd_append (s := ['@']) hblank rest, hc⟩

theorem not_tagLine?_blank_cons {c : Char} (hc : isBlank c = true) (s : List Char) :
    tagLine? (c :: s) = none := by
  by_contra h
  obtain ⟨x, rest, heq, -⟩ := tagLine?_ne_none_iff.mp h
  cases heq
  simp [isBlank] at hc

theorem exists_gap {s : List Char} (hnone : tagLine? (trimEnd s) = none)
    (hsome : tagLine? (trimStart (trimEnd s)) ≠ none) :
    ∃ gap tag, s = gap ++ tag ∧ (∀ c ∈ gap, isBlank c = true) ∧ gap ≠ [] ∧ tagLine? tag ≠ none := by
  have htag : tagLine? (trimStart s) ≠ none := by
    rwa [trimStart_trimEnd, trim, ne_eq, tagLine?_trimEnd] at hsome
  refine ⟨s.takeWhile isBlank, trimStart s, (List.takeWhile_append_dropWhile).symm,
    fun c hc => List.mem_takeWhile_imp hc, fun hgap => ?_, htag⟩
  have hself : s = trimStart s := by
    rw [← List.takeWhile_append_dropWhile (p := isBlank) (l := s), hgap, List.nil_append]
    exact (List.dropWhile_idempotent isBlank s).symm
  rw [tagLine?_trimEnd, hself] at hnone
  exact htag hnone

theorem SetsTagApart.cleanLine_eq {line : List Char} (h : SetsTagApart line) :
    ∃ c gap tag, cleanLine line = trimEnd (c :: (gap ++ tag)) ∧ isBlank c = true ∧
      (∀ x ∈ gap, isBlank x = true) ∧ tagLine? tag ≠ none := by
  obtain ⟨indent, gap, tag, rfl, hindent, hgap, hne, hsingle, htag⟩ := h
  have hstar : isBlank '*' = false := by decide
  rw [cleanLine, trimStart_of_gap hindent hstar]
  cases gap with
  | nil => exact (hne rfl).elim
  | cons c gap =>
    rw [List.forall_mem_cons] at hgap
    by_cases hc : c = ' '
    · subst hc
      cases gap with
      | nil => exact (hsingle rfl).elim
      | cons x gap =>
        rw [List.forall_mem_cons] at hgap
        exact ⟨x, gap, tag, rfl, hgap.2.1, hgap.2.2, htag⟩
    · refine ⟨c, gap, tag, ?_, hgap.1, hgap.2, htag⟩
      split
      · next heq => simp [hc] at heq
      · next heq => rw [← (List.cons.inj heq).2, List.cons_append]
      · next hno => exact (hno _ rfl).elim

theorem setsTagApart_iff {line : List Char} :
    SetsTagApart line ↔
      tagLine? (cleanLine line) = none ∧ tagLine? (trimStart (cleanLine line)) ≠ none := by
  constructor
  · intro h
    obtain ⟨c, gap, tag, heq, hc, hgap, htag⟩ := h.cleanLine_eq
    obtain ⟨x, rest, rfl, -⟩ := tagLine?_ne_none_iff.mp htag
    have hblank : ∀ y ∈ c :: gap, isBlank y = true := by simpa [hc] using hgap
    rw [heq]
    refine ⟨tagLine?_trimEnd.mpr (not_tagLine?_blank_cons hc _), ?_⟩
    rw [trimStart_trimEnd, trim, ← List.cons_append, trimStart_of_gap hblank (by decide), ne_eq,
      tagLine?_trimEnd]
    exact htag
  · rintro ⟨hnone, hsome⟩
    obtain ⟨indent, rest, rfl, hindent, heq⟩ | ⟨indent, rest, rfl, hindent, hspace, heq⟩ | heq :=
      cleanLine_cases line
    · rw [heq] at hnone hsome
      obtain ⟨gap, tag, rfl, hgap, hne, htag⟩ := exists_gap hnone hsome
      exact ⟨indent, ' ' :: gap, tag, rfl, hindent, by simpa [isBlank] using hgap, by simp,
        by simpa using hne, htag⟩
    · rw [heq] at hnone hsome
      obtain ⟨gap, tag, rfl, hgap, hne, htag⟩ := exists_gap hnone hsome
      refine ⟨indent, gap, tag, rfl, hindent, hgap, hne, ?_, htag⟩
      rintro rfl
      exact hspace rfl
    · -- without a gutter all blanks in front of the text are removed at once
      rw [heq, trimStart_trim] at hsome
      exact (hsome (heq ▸ hnone)).elim

theorem find?_sections (ls : List (List Char)) :
    ((sections ls).1.find? fun l => !l.isEmpty) =
      (ls.find? fun l => !l.isEmpty).filter fun l => (tagLine? l).isNone := by
  induction ls with
  | nil => rfl
  | cons l ls ih =>
    cases htag : tagLine? l with
    | some t =>
      have hne : l ≠ [] := by
        rintro rfl
        cases htag
      simp [sections, htag, hne, Option.filter]
    | none =>
      by_cases hl : l = []
      · subst hl
        simpa [sections, htag] using ih
      · simp [sections, htag, hl, Option.filter]

theorem forall_commentLines_iff (body : List Char) :
    (∀ l ∈ (Block.ofLines ((lines body).map cleanLine)).commentLines, tagLine? l = none) ↔
      ∀ line ∈ opening? body, ¬ SetsTagApart line := by
  have hcleaned := areCleaned_lines body
  have hfurther := hcleaned.tagLine?_further
  have hhead : (Block.ofLines ((lines body).map cleanLine)).commentLines.head? =
      (((opening? body).map cleanLine).filter fun l => (tagLine? l).isNone).map trimStart := by
    rw [hcleaned.head?_commentLines, find?_sections, List.find?_map]
    rfl
  have hfirst : (∀ l ∈ (Block.ofLines ((lines body).map cleanLine)).commentLines, tagLine? l = none) ↔
      ∀ l ∈ (Block.ofLines ((lines body).map cleanLine)).commentLines.head?, tagLine? l = none := by
    cases hlines : (Block.ofLines ((lines body).map cleanLine)).commentLines with
    | nil => simp
    | cons line further =>
      rw [hlines, List.tail_cons] at hfurther
      simpa using fun _ => hfurther
  rw [hfirst, hhead]
  cases hopening : opening? body with
  | none => simp
  | some line =>
    have hiff : SetsTagApart line ↔ _ := setsTagApart_iff
    cases htag : tagLine? (cleanLine line) with
    | none => simp [Option.filter, htag, hiff]
    | some t => simp [Option.filter, htag, hiff]

theorem exists_ofLines_of_parse? {raw : String} {b : Block} (h : Block.parse? raw = some b) :
    ∃ body, body? raw.toList = some body ∧ b = Block.ofLines ((lines body).map cleanLine) := by
  obtain ⟨body, hbody, rfl⟩ := Option.map_eq_some_iff.mp h
  exact ⟨body, hbody, rfl⟩

/-- A block that was read from a comment has no tag in its own comment, and is read again as it is from
the conventional layout, unless the first line of the comment that says anything sets a tag apart
from its gutter. Further lines never start with a tag. -/
theorem rereading_changes_only_set_apart_tag {raw : String} {b : Block}
    (h : Block.parse? raw = some b) :
    (∀ l ∈ b.commentLines.tail, tagLine? l = none) ∧
      ((∀ l ∈ b.commentLines, tagLine? l = none) ↔ ¬ OpensWithTagApart raw) ∧
      (Block.parse? b.render = some b ↔ ¬ OpensWithTagApart raw) := by
  obtain ⟨body, hbody, rfl⟩ := exists_ofLines_of_parse? h
  have hcleaned := areCleaned_lines body
  have hopens : ¬ OpensWithTagApart raw ↔ ∀ line ∈ opening? body, ¬ SetsTagApart line := by
    simp [OpensWithTagApart, hbody]
  rw [hopens, hcleaned.parse?_render_iff, forall_commentLines_iff]
  exact ⟨hcleaned.tagLine?_further, Iff.rfl, Iff.rfl⟩

/-- A tag behind two blanks is kept as text on a further line of the comment. -/
theorem rereading_changes_only_set_apart_tag_further_line :
    let raw := "/**\n *\n * Adds up.\n *  @see ledger\n * @customfunction\n */"
    let b : Block := ⟨some "Adds up.\n @see ledger", [⟨"customfunction", ""⟩]⟩
    Block.parse? raw = some b ∧ (∀ l ∈ b.commentLines.tail, tagLine? l = none) ∧
      ((∀ l ∈ b.commentLines, tagLine? l = none) ↔ ¬ OpensWithTagApart raw) ∧
      (Block.parse? b.render = some b ↔ ¬ OpensWithTagApart raw) := by
  have hread : Block.parse? "/**\n *\n * Adds up.\n *  @see ledger\n * @customfunction\n */" =
      some ⟨some "Adds up.\n @see ledger", [⟨"customfunction", ""⟩]⟩ := by decide
  exact ⟨hread, rereading_changes_only_set_apart_tag hread⟩

/-- A marker behind two blanks is read as the comment of its block, whose only line is then a tag; in
the conventional layout it is read as the tag that it is. -/
theorem set_apart_marker_becomes_comment :
    Block.parse? "/**\n *  @customfunction\n */" = some ⟨some "@customfunction", []⟩ ∧
      Block.commentLines ⟨some "@customfunction", []⟩ = ["@customfunction".toList] ∧
      tagLine? "@customfunction".toList = some ("customfunction".toList, []) ∧
      Block.parse? (Block.render ⟨some "@customfunction", []⟩) =
        some ⟨none, [⟨"customfunction", ""⟩]⟩ := by
  decide

end ScriptManifest.Doc
