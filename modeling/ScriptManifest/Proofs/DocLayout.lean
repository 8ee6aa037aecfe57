import ScriptManifest.Doc.Block

/-!
The conventional layout of a documentation block. A comment in this layout is read line by line as it
was written, but for blanks at the end of a line (`parse?_gutter`), and a block whose texts are
trimmed and hold no tag line of their own is read back as it was (`ofLines_renderLines`).
-/

namespace ScriptManifest.Text

/-! ### Trimming -/

theorem trimStart_append_of_blank {b : List Char} (hb : ∀ c ∈ b, isBlank c = true) (s : List Char) :
    trimStart (b ++ s) = trimStart s := List.dropWhile_append_of_pos hb

theorem trimEnd_append_of_blank (s : List Char) {b : List Char} (hb : ∀ c ∈ b, isBlank c = true) :
    trimEnd (s ++ b) = trimEnd s := by
  rw [trimEnd, List.reverse_append, List.dropWhile_append_of_pos (by simpa using hb), trimEnd]

theorem trim_append_of_blank (s : List Char) {b : List Char} (hb : ∀ c ∈ b, isBlank c = true) :
    trim (s ++ b) = trim s := by
  have hdrop : b.dropWhile isBlank = [] := by
    simpa [trimStart] using trimStart_append_of_blank hb []
  rw [trim, trimStart, List.dropWhile_append, trim]
  split
  · next hs =>
    rw [List.isEmpty_iff] at hs
    rw [hdrop, trimStart, hs]
  · exact trimEnd_append_of_blank _ hb

theorem trim_blank_append {b : List Char} (hb : ∀ c ∈ b, isBlank c = true) (s : List Char) :
    trim (b ++ s) = trim s := by
  rw [trim, trimStart_append_of_blank hb, trim]

theorem trim_cons_of_blank {c : Char} (hc : isBlank c = true) (s : List Char) :
    trim (c :: s) = trim s :=
  trim_blank_append (b := [c]) (by simpa using hc) s

theorem trimEnd_append {s : List Char} {c : Char} (hc : isBlank c = false) (t : List Char) :
    trimEnd (s ++ c :: t) = s ++ c :: trimEnd t := by
  have hkept : (c :: s.reverse).dropWhile isBlank = c :: s.reverse := by simp [hc]
  rw [trimEnd, List.reverse_append, List.reverse_cons, List.append_assoc, List.singleton_append,
    List.dropWhile_append]
  split
  · next ht =>
    rw [List.isEmpty_iff] at ht
    simp [hkept, trimEnd, ht]
  · simp [trimEnd]

theorem trimEnd_eq_self {s : List Char} {c : Char} (hc : isBlank c = false) :
    trimEnd (s ++ [c]) = s ++ [c] := trimEnd_append hc []

theorem trimEnd_blank_cons {c : Char} (hc : isBlank c = true) {s : List Char} (hs : trimEnd s = s) :
    trimEnd (c :: s) = if s = [] then [] else c :: s := by
  obtain rfl | ⟨s, x, rfl⟩ := List.eq_nil_or_concat s
  · simp [trimEnd, hc]
  · have hx : isBlank x = false := by
      cases hb : isBlank x with
      | false => rfl
      | true =>
        -- a last blank would be trimmed away
        rw [List.concat_eq_append, trimEnd_append_of_blank s (by simpa using hb)] at hs
        have hle : (trimEnd s).length ≤ s.length := by
          simpa [trimEnd] using (List.dropWhile_sublist isBlank (l := s.reverse)).length_le
        rw [hs] at hle
        simp only [List.length_append, List.length_singleton] at hle
        omega
    rw [List.concat_eq_append, ← List.cons_append, trimEnd_eq_self hx]
    simp

theorem isBlank_of_mem_head?_dropWhile {s : List Char} {c : Char}
    (h : c ∈ (s.dropWhile isBlank).head?) : isBlank c = false := by
  have hnot := List.head?_dropWhile_not isBlank s
  rw [Option.mem_def] at h
  simpa [h] using hnot

theorem isBlank_of_mem_getLast?_trimEnd {s : List Char} {c : Char}
    (h : c ∈ (trimEnd s).getLast?) : isBlank c = false := by
  rw [trimEnd, List.getLast?_reverse] at h
  exact isBlank_of_mem_head?_dropWhile h

theorem trimEnd_trimEnd (s : List Char) : trimEnd (trimEnd s) = trimEnd s := by
  obtain h | ⟨t, c, h⟩ := List.eq_nil_or_concat (trimEnd s)
  · rw [h]
    rfl
  · have hc : isBlank c = false := by
      apply isBlank_of_mem_getLast?_trimEnd (s := s)
      rw [h, List.concat_eq_append, List.getLast?_concat]
      rfl
    rw [h, List.concat_eq_append, trimEnd_eq_self hc]

theorem trimEnd_eq_of_trim_eq {s : List Char} (h : trim s = s) : trimEnd s = s := by
  rw [← h, trim, trimEnd_trimEnd]

theorem isBlank_head_of_trim_eq {c : Char} {s : List Char} (h : trim (c :: s) = c :: s) :
    isBlank c = false := by
  cases hc : isBlank c with
  | false => rfl
  | true =>
    -- a first blank would be trimmed away
    rw [trim_cons_of_blank hc] at h
    have hle : (trim s).length ≤ s.length := by
      have hend := (List.dropWhile_sublist isBlank (l := (trimStart s).reverse)).length_le
      have hstart := (List.dropWhile_sublist isBlank (l := s)).length_le
      simp only [trim, trimEnd, trimStart, List.length_reverse] at hend ⊢
      omega
    rw [h, List.length_cons] at hle
    omega

theorem trim_eq_of_ends {c : Char} (hc : isBlank c = false) {s : List Char}
    (hs : trimEnd (c :: s) = c :: s) : trim (c :: s) = c :: s := by
  have hstart : trimStart (c :: s) = c :: s := by simp [trimStart, hc]
  rw [trim, hstart, hs]

/-! ### Lines -/

theorem lines_ne_nil (s : List Char) : lines s ≠ [] := by
  cases s with
  | nil => simp [lines]
  | cons c s =>
    rw [lines]
    split
    · simp
    · split <;> simp

theorem lines_append_newline {l : List Char} (hl : '\n' ∉ l) (rest : List Char) :
    lines (l ++ '\n' :: rest) = l :: lines rest := by
  induction l with
  | nil => simp [lines]
  | cons c l ih =>
    rw [List.mem_cons, not_or] at hl
    rw [List.cons_append, lines, ih hl.2, if_neg (Ne.symm hl.1)]

theorem lines_append {start : List Char} (hstart : '\n' ∉ start) {s first : List Char}
    {rest : List (List Char)} (h : lines s = first :: rest) :
    lines (start ++ s) = (start ++ first) :: rest := by
  induction start with
  | nil => exact h
  | cons c start ih =>
    rw [List.mem_cons, not_or] at hstart
    rw [List.cons_append, lines, ih hstart.2, if_neg (Ne.symm hstart.1)]
    rfl

theorem lines_of_not_mem {l : List Char} (hl : '\n' ∉ l) : lines l = [l] := by
  have hnil : lines [] = [[]] := rfl
  simpa using lines_append hl hnil

theorem newline_not_mem_of_mem_lines {s l : List Char} (h : l ∈ lines s) : '\n' ∉ l := by
  induction s generalizing l with
  | nil =>
    obtain rfl : l = [] := by simpa [lines] using h
    simp
  | cons c s ih =>
    rw [lines] at h
    split at h
    · obtain rfl | h := List.mem_cons.mp h
      · simp
      · exact ih h
    · next hc =>
      cases hs : lines s with
      | nil => exact (lines_ne_nil s hs).elim
      | cons first rest =>
        rw [hs] at h
        obtain rfl | h := List.mem_cons.mp h
        · have := ih (l := first) (by simp [hs])
          simp [Ne.symm hc, this]
        · exact ih (by simp [hs, h])

theorem joinLines_cons {ls : List (List Char)} (h : ls ≠ []) (l : List Char) :
    joinLines (l :: ls) = l ++ '\n' :: joinLines ls := by
  rw [joinLines, List.intercalate_cons_of_ne_nil h]
  simp [joinLines]

theorem joinLines_singleton (l : List Char) : joinLines [l] = l := by
  simp [joinLines]

theorem joinLines_cons_cons (c : Char) (l : List Char) (ls : List (List Char)) :
    joinLines ((c :: l) :: ls) = c :: joinLines (l :: ls) := by
  by_cases h : ls = []
  · subst h
    simp [joinLines_singleton]
  · simp [joinLines_cons h]

theorem joinLines_lines (s : List Char) : joinLines (lines s) = s := by
  induction s with
  | nil => simp [lines, joinLines_singleton]
  | cons c s ih =>
    rw [lines]
    split
    · next hc => rw [joinLines_cons (lines_ne_nil s), ih, hc, List.nil_append]
    · cases hs : lines s with
      | nil => exact (lines_ne_nil s hs).elim
      | cons first rest => rw [joinLines_cons_cons, ← hs, ih]

theorem exists_joinLines_eq {l : List Char} {ls : List (List Char)} (h : l ∈ ls) :
    ∃ a b, joinLines ls = a ++ l ++ b := by
  induction ls with
  | nil => simp at h
  | cons x ls ih =>
    by_cases hne : ls = []
    · subst hne
      obtain rfl : l = x := by simpa using h
      exact ⟨[], [], by simp [joinLines_singleton]⟩
    · rw [joinLines_cons hne]
      obtain rfl | h := List.mem_cons.mp h
      · exact ⟨[], '\n' :: joinLines ls, by simp⟩
      · obtain ⟨a, b, hab⟩ := ih h
        exact ⟨x ++ '\n' :: a, b, by simp [hab]⟩

theorem trim_joinLines_nil_cons (ls : List (List Char)) :
    trim (joinLines ([] :: ls)) = trim (joinLines ls) := by
  by_cases h : ls = []
  · subst h
    rfl
  · rw [joinLines_cons h, List.nil_append, trim_cons_of_blank (by decide)]

theorem exists_joinLines_append (ls : List (List Char)) {bs : List (List Char)}
    (hbs : ∀ l ∈ bs, l = []) :
    ∃ ws, (∀ c ∈ ws, isBlank c = true) ∧ joinLines (ls ++ bs) = joinLines ls ++ ws := by
  have hempty : ∀ bs : List (List Char), (∀ l ∈ bs, l = []) →
      ∀ c ∈ joinLines bs, isBlank c = true := by
    intro bs
    induction bs with
    | nil => simp [joinLines]
    | cons l bs ih =>
      intro h c hc
      obtain rfl := h l (by simp)
      have hbs := ih fun l hl => h l (List.mem_cons_of_mem _ hl)
      by_cases hne : bs = []
      · simp [hne, joinLines_singleton] at hc
      · rw [joinLines_cons hne, List.nil_append, List.mem_cons] at hc
        obtain rfl | hc := hc
        · decide
        · exact hbs c hc
  induction ls with
  | nil => exact ⟨joinLines bs, hempty bs hbs, rfl⟩
  | cons l ls ih =>
    obtain ⟨ws, hws, heq⟩ := ih
    by_cases hls : ls = []
    · subst hls
      by_cases hne : bs = []
      · exact ⟨[], by simp, by simp [hne]⟩
      · refine ⟨'\n' :: joinLines bs, ?_, ?_⟩
        · simpa using ⟨by decide, hempty bs hbs⟩
        · rw [List.singleton_append, joinLines_cons hne, joinLines_singleton]
    · refine ⟨ws, hws, ?_⟩
      rw [List.cons_append, joinLines_cons (by simp [hls]), joinLines_cons hls, heq]
      simp

theorem trim_joinLines_append (ls : List (List Char)) {bs : List (List Char)}
    (hbs : ∀ l ∈ bs, l = []) : trim (joinLines (ls ++ bs)) = trim (joinLines ls) := by
  obtain ⟨ws, hws, heq⟩ := exists_joinLines_append ls hbs
  rw [heq, trim_append_of_blank _ hws]

end ScriptManifest.Text

namespace ScriptManifest.Doc

open Text

/-! ### Reading the layout -/

/-- Lines in the conventional layout, each behind a gutter of ` * `. -/
def gutter (ls : List (List Char)) : String :=
  String.ofList <| '/' :: '*' :: '*' :: '\n' ::
    (ls.flatMap fun l => ' ' :: '*' :: ' ' :: l ++ ['\n']) ++ [' ', '*', '/']

theorem cleanLine_gutter (l : List Char) : cleanLine (' ' :: '*' :: ' ' :: l) = trimEnd l := by
  have hblank : isBlank ' ' = true := by decide
  have hstar : isBlank '*' = false := by decide
  simp [cleanLine, trimStart, hblank, hstar]

theorem lines_gutter {ls : List (List Char)} (h : ∀ l ∈ ls, '\n' ∉ l) (rest : List Char) :
    lines ((ls.flatMap fun l => ' ' :: '*' :: ' ' :: l ++ ['\n']) ++ rest) =
      (ls.map fun l => ' ' :: '*' :: ' ' :: l) ++ lines rest := by
  induction ls with
  | nil => rfl
  | cons l ls ih =>
    have hl : '\n' ∉ ' ' :: '*' :: ' ' :: l := by simpa using h l (by simp)
    have hls := ih fun l' h' => h l' (List.mem_cons_of_mem l h')
    rw [List.flatMap_cons, List.append_assoc, List.append_assoc, List.singleton_append,
      lines_append_newline hl, hls, List.map_cons, List.cons_append]

theorem stripStart?_append (start s : List Char) : stripStart? start (start ++ s) = some s := by
  induction start with
  | nil => rfl
  | cons c start ih => simp [stripStart?, ih]

theorem stripEnd?_append (s stop : List Char) : stripEnd? stop (s ++ stop) = some s := by
  rw [stripEnd?, List.reverse_append, stripStart?_append]
  simp

theorem body?_gutter (ls : List (List Char)) :
    body? (gutter ls).toList =
      some ('\n' :: (ls.flatMap fun l => ' ' :: '*' :: ' ' :: l ++ ['\n']) ++ [' ']) := by
  have hsplit : (gutter ls).toList = '/' :: '*' :: '*' ::
      (('\n' :: (ls.flatMap fun l => ' ' :: '*' :: ' ' :: l ++ ['\n']) ++ [' ']) ++ ['*', '/']) := by
    simp [gutter]
  rw [hsplit, body?, stripEnd?_append]
  simp

/-- A comment in the conventional layout is read as its lines, but for blanks at their ends. -/
theorem parse?_gutter {ls : List (List Char)} (h : ∀ l ∈ ls, '\n' ∉ l) :
    Block.parse? (gutter ls) = some (Block.ofLines ([] :: (ls.map trimEnd ++ [[]]))) := by
  have hlines : lines ('\n' :: (ls.flatMap fun l => ' ' :: '*' :: ' ' :: l ++ ['\n']) ++ [' ']) =
      [] :: ((ls.map fun l => ' ' :: '*' :: ' ' :: l) ++ [[' ']]) := by
    rw [List.cons_append, lines, if_pos rfl, lines_gutter h]
    rfl
  rw [Block.parse?, body?_gutter, Option.map_some, hlines]
  have hclean : cleanLine [] = [] ∧ cleanLine [' '] = [] := by decide
  simp [cleanLine_gutter, hclean, Function.comp_def]

/-! ### Tag lines -/

def blankPoints : List Nat :=
  [9, 10, 11, 12, 13, 0x20, 0x85, 0xA0, 0x1680, 0x2000, 0x2001, 0x2002, 0x2003, 0x2004, 0x2005,
    0x2006, 0x2007, 0x2008, 0x2009, 0x200A, 0x2028, 0x2029, 0x202F, 0x205F, 0x3000]

theorem toNat_mem_blankPoints {c : Char} (h : isBlank c = true) : c.toNat ∈ blankPoints := by
  simp only [isBlank, Bool.or_eq_true, Bool.and_eq_true, decide_eq_true_eq, beq_iff_eq] at h
  simp only [blankPoints, List.mem_cons, List.not_mem_nil, or_false]
  omega

theorem isTagChar_eq_false_of_isBlank {c : Char} (h : isBlank c = true) : isTagChar c = false := by
  have hpoint := toNat_mem_blankPoints h
  have hdash : ∀ n ∈ blankPoints, isAsciiWord (Char.ofNat n) = false ∧ Char.ofNat n ≠ '-' := by decide
  have hranges : ∀ n ∈ blankPoints,
      (wordRanges.toList.any fun r => r.1 ≤ n && n ≤ r.2) = false := by decide +kernel
  have hc := hdash c.toNat hpoint
  rw [Char.ofNat_toNat] at hc
  simp [isTagChar, isWord, hc, ← Array.any_toList, hranges c.toNat hpoint]

theorem isBlank_eq_false_of_isTagChar {c : Char} (h : isTagChar c = true) : isBlank c = false := by
  cases hb : isBlank c with
  | false => rfl
  | true => simp [isTagChar_eq_false_of_isBlank hb] at h

theorem isTagChar_of_isTagStart {c : Char} (h : isTagStart c = true) : isTagChar c = true := by
  simp only [isTagStart, Bool.or_eq_true] at h
  obtain h | h := h
  · simp [isTagChar, isWord, isAsciiWord, Char.isAlphanum, h]
  · simp [isTagChar, isWord, isAsciiWord, h]

/-- The name of a tag: a letter or an underscore, then tag characters. -/
def IsTagName (name : List Char) : Prop :=
  ∃ c cs, name = c :: cs ∧ isTagStart c = true ∧ ∀ x ∈ cs, isTagChar x = true

theorem isTagName_cons {c : Char} {cs : List Char} (hc : isTagStart c = true)
    (hcs : cs.all isTagChar = true) : IsTagName (c :: cs) :=
  ⟨c, cs, rfl, hc, List.all_eq_true.mp hcs⟩

theorem IsTagName.isTagChar {name : List Char} (h : IsTagName name) :
    ∀ c ∈ name, Doc.isTagChar c = true := by
  obtain ⟨c, cs, rfl, hc, hcs⟩ := h
  rw [List.forall_mem_cons]
  exact ⟨isTagChar_of_isTagStart hc, hcs⟩

theorem tagLine?_append {name text : List Char} (hname : IsTagName name)
    (htext : ∀ c ∈ text.head?, isBlank c = true) : tagLine? ('@' :: name ++ text) = some (name, text) := by
  obtain ⟨c, cs, rfl, hc, hcs⟩ := hname
  have hstop : text.takeWhile Doc.isTagChar = [] ∧ text.dropWhile Doc.isTagChar = text := by
    cases text with
    | nil => simp
    | cons x text => simp [isTagChar_eq_false_of_isBlank (htext x (by simp))]
  simp only [List.cons_append, tagLine?, hc, if_true, List.takeWhile_append_of_pos hcs,
    List.dropWhile_append_of_pos hcs, hstop, List.append_nil]

theorem trimEnd_tagLine {name first : List Char} (hname : IsTagName name)
    (hfirst : trimEnd first = first) :
    trimEnd ('@' :: name ++ ' ' :: first) =
      '@' :: name ++ if first = [] then [] else ' ' :: first := by
  have hchars := hname.isTagChar
  obtain ⟨c, cs, rfl, -, -⟩ := hname
  obtain ⟨s, x, hsx⟩ : ∃ s x, c :: cs = s ++ [x] := by
    obtain h | ⟨s, x, h⟩ := List.eq_nil_or_concat (c :: cs)
    · simp at h
    · exact ⟨s, x, by simpa using h⟩
  have hx : isBlank x = false := isBlank_eq_false_of_isTagChar (hchars x (by simp [hsx]))
  have htrim := trimEnd_append (s := '@' :: s) hx (' ' :: first)
  rw [trimEnd_blank_cons (by decide) hfirst] at htrim
  rw [hsx]
  simpa using htrim

theorem map_trimEnd {ls : List (List Char)} (h : ∀ l ∈ ls, trimEnd l = l) : ls.map trimEnd = ls :=
  (List.map_congr_left h).trans (List.map_id ls)

/-! ### Sections -/

theorem sections_append_free {ls : List (List Char)} (h : ∀ l ∈ ls, tagLine? l = none)
    (rest : List (List Char)) :
    sections (ls ++ rest) = (ls ++ (sections rest).1, (sections rest).2) := by
  induction ls with
  | nil => rfl
  | cons l ls ih =>
    have hl := h l (by simp)
    have hls := ih fun l' h' => h l' (List.mem_cons_of_mem l h')
    simp [sections, hl, hls]

theorem sections_cons_tag {line name text : List Char} (h : tagLine? line = some (name, text))
    (rest : List (List Char)) :
    sections (line :: rest) = ([], (name, text :: (sections rest).1) :: (sections rest).2) := by
  simp [sections, h]

/-- Lines that can be told from tags and from the blanks of the layout. -/
structure ArePlain (ls : List (List Char)) : Prop where
  trimmed : ∀ l ∈ ls, trimEnd l = l
  noTag : ∀ l ∈ ls, tagLine? l = none

/-- A tag that the conventional layout keeps as it is. -/
structure Tag.IsRenderable (t : Tag) : Prop where
  name : IsTagName t.name.toList
  trimmed : trim t.text.toList = t.text.toList
  lines : ∀ l ∈ Text.lines t.text.toList, trimEnd l = l
  further : ∀ l ∈ (Text.lines t.text.toList).tail, tagLine? l = none

/-- A block that the conventional layout keeps as it is. -/
structure Block.IsRenderable (b : Block) : Prop where
  comment : ∀ c ∈ b.comment, c ≠ "" ∧ trim c.toList = c.toList ∧ ArePlain (lines c.toList)
  tags : ∀ t ∈ b.tags, t.IsRenderable

theorem Tag.IsRenderable.sections_renderLines {t : Tag} (h : t.IsRenderable)
    {rest : List (List Char)} (hrest : ∀ l ∈ (sections rest).1, l = []) :
    ∃ ls, sections (t.renderLines.map trimEnd ++ rest) = ([], (t.name.toList, ls) :: (sections rest).2) ∧
      sectionText ls = t.text.toList := by
  cases hl : Text.lines t.text.toList with
  | nil => exact (lines_ne_nil _ hl).elim
  | cons first further =>
    have htrimmed := h.lines
    have hnoTag := h.further
    rw [hl, List.forall_mem_cons] at htrimmed
    rw [hl, List.tail_cons] at hnoTag
    have hlines : t.renderLines.map trimEnd =
        ('@' :: t.name.toList ++ if first = [] then [] else ' ' :: first) :: further := by
      simp only [Tag.renderLines, hl, List.map_cons, trimEnd_tagLine h.name htrimmed.1,
        map_trimEnd htrimmed.2]
    have hblank : ∀ c ∈ (if first = [] then [] else ' ' :: first).head?, isBlank c = true := by
      split
      · simp
      · simp [isBlank]
    -- the blank behind the name is trimmed off, and so are the empty lines at the end
    have htext : sectionText
        ((if first = [] then [] else ' ' :: first) :: (further ++ (sections rest).1)) =
          t.text.toList := by
      rw [sectionText, ← List.cons_append, trim_joinLines_append _ hrest]
      have hjoin : joinLines (first :: further) = t.text.toList := by rw [← hl, joinLines_lines]
      split
      · next hfirst => rw [← hfirst, hjoin, h.trimmed]
      · rw [joinLines_cons_cons, trim_cons_of_blank (by decide), hjoin, h.trimmed]
    refine ⟨_, ?_, htext⟩
    rw [hlines, List.cons_append, sections_cons_tag (tagLine?_append h.name hblank),
      sections_append_free hnoTag]

theorem sections_tags {tags : List Tag} (h : ∀ t ∈ tags, t.IsRenderable) :
    (∀ l ∈ (sections ((tags.flatMap Tag.renderLines).map trimEnd ++ [[]])).1, l = []) ∧
      (sections ((tags.flatMap Tag.renderLines).map trimEnd ++ [[]])).2.map
        (fun t => (⟨String.ofList t.1, String.ofList (sectionText t.2)⟩ : Tag)) = tags := by
  induction tags with
  | nil => simp [sections, tagLine?]
  | cons t tags ih =>
    obtain ⟨hfree, htags⟩ := ih fun t' h' => h t' (List.mem_cons_of_mem t h')
    obtain ⟨ls, hsections, htext⟩ := (h t (by simp)).sections_renderLines hfree
    rw [List.flatMap_cons, List.map_append, List.append_assoc, hsections]
    simp [htags, htext]

theorem nonempty?_toList {c : String} (h : c ≠ "") : nonempty? c.toList = some c := by
  simp [nonempty?, h]

/-- A renderable block is what its lines make, whatever blanks stood at their ends. -/
theorem ofLines_renderLines {b : Block} (h : b.IsRenderable) :
    Block.ofLines ([] :: (b.renderLines.map trimEnd ++ [[]])) = b := by
  obtain ⟨hfree, htags⟩ := sections_tags h.tags
  obtain ⟨comment, tags⟩ := b
  cases comment with
  | none =>
    have hempty : tagLine? [] = none := rfl
    have htext : sectionText
        ([] :: (sections ((tags.flatMap Tag.renderLines).map trimEnd ++ [[]])).1) = [] := by
      rw [sectionText, trim_joinLines_nil_cons]
      exact trim_joinLines_append [] hfree
    simp only [Block.renderLines, Option.map_none, Option.getD_none, List.nil_append, Block.ofLines,
      sections, hempty, htext, htags]
    rfl
  | some c =>
    obtain ⟨hne, htrim, hplain⟩ := h.comment c rfl
    have hall : ∀ l ∈ [] :: lines c.toList, tagLine? l = none := by
      rw [List.forall_mem_cons]
      exact ⟨rfl, hplain.noTag⟩
    have htext : sectionText ([] :: lines c.toList ++
        (sections ((tags.flatMap Tag.renderLines).map trimEnd ++ [[]])).1) = c.toList := by
      rw [sectionText, trim_joinLines_append _ hfree, trim_joinLines_nil_cons, joinLines_lines, htrim]
    have hsplit : [] :: ((lines c.toList).map trimEnd ++
        (tags.flatMap Tag.renderLines).map trimEnd ++ [[]]) =
          ([] :: lines c.toList) ++ ((tags.flatMap Tag.renderLines).map trimEnd ++ [[]]) := by
      simp [map_trimEnd hplain.trimmed]
    simp only [Block.renderLines, Option.map_some, Option.getD_some, List.map_append]
    rw [hsplit, Block.ofLines, sections_append_free hall]
    simp only [htext, htags, nonempty?_toList hne]

theorem parse?_gutter_eq {b : Block} (h : b.IsRenderable) {ls : List (List Char)}
    (hls : ∀ l ∈ ls, '\n' ∉ l) (heq : ls.map trimEnd = b.renderLines.map trimEnd) :
    Block.parse? (gutter ls) = some b := by
  rw [parse?_gutter hls, heq, ofLines_renderLines h]

end ScriptManifest.Doc
