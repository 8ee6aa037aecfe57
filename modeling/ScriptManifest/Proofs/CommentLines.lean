import ScriptManifest.Proofs.BlockRoundTrip
import ScriptManifest.Proofs.TagSelection
import Mathlib.Data.List.Forall2

/-!
The lines of a documentation comment as they stand in its text. The body of a comment is cut at its
line feeds (`bodyLines`) and every line loses its indentation and its gutter (`StripsTo`). A comment
marks a function if and only if one of these lines starts with the marker
(`marker_counts_only_at_line_start`), and blanks around the lines change nothing of what is read
(`blanks_around_lines_do_not_count`).
-/

namespace ScriptManifest.Text

theorem lines_eq_splitOn (s : List Char) : lines s = s.splitOn '\n' := by
  induction s with
  | nil => rfl
  | cons c s ih =>
    rw [List.splitOn, List.splitOnP_cons_eq_if_modifyHead, ← List.splitOn, ← ih, lines]
    by_cases hc : c = '\n'
    · simp [hc]
    · cases hs : lines s with
      | nil => exact (lines_ne_nil s hs).elim
      | cons first further => simp [hc]

theorem stripStart?_eq_some_iff {start s rest : List Char} :
    stripStart? start s = some rest ↔ s = start ++ rest := by
  fun_induction stripStart? start s with
  | case1 s => simp
  | case2 a start => simp
  | case3 start c cs ih => simpa using ih
  | case4 a start c cs hne => simp [Ne.symm hne]

theorem stripEnd?_eq_some_iff {stop s rest : List Char} :
    stripEnd? stop s = some rest ↔ s = rest ++ stop := by
  rw [stripEnd?, Option.map_eq_some_iff]
  constructor
  · rintro ⟨r, hr, rfl⟩
    rw [stripStart?_eq_some_iff] at hr
    rw [← List.reverse_reverse s, hr, List.reverse_append, List.reverse_reverse]
  · rintro rfl
    exact ⟨rest.reverse, stripStart?_eq_some_iff.mpr (by simp), by simp⟩

end ScriptManifest.Text

namespace ScriptManifest.Doc

open Text

/-! ### The body of a comment -/

/-- A comment that starts with `/**`, but not with `/**/`, and ends with `*/`. -/
structure IsDocComment (raw : List Char) : Prop where
  opens : ['/', '*', '*'] <+: raw
  staysOpen : ¬ ['/', '*', '*', '/'] <+: raw
  closes : ['*', '/'] <:+ raw

/-- The pieces between the line feeds of a comment, without its delimiters. -/
def bodyLines (raw : List Char) : List (List Char) := ((raw.drop 3).rdrop 2).splitOn '\n'

theorem isDocComment_iff {raw : List Char} :
    IsDocComment raw ↔
      ∃ body, raw = '/' :: '*' :: '*' :: (body ++ ['*', '/']) ∧ body.head? ≠ some '/' := by
  constructor
  · rintro ⟨⟨rest, rfl⟩, hstays, hcloses⟩
    -- the delimiters share no character, since only `/**/` would let them
    have hlong : 2 ≤ rest.length := by
      cases rest with
      | nil => exact absurd hcloses (by decide)
      | cons c rest =>
        cases rest with
        | nil =>
          obtain rfl : '/' = c := by simpa [List.suffix_cons_iff] using hcloses
          exact (hstays List.prefix_rfl).elim
        | cons d rest => simp
    obtain ⟨body, hbody⟩ : ['*', '/'] <:+ rest :=
      List.suffix_of_suffix_length_le hcloses (List.suffix_append _ rest) hlong
    subst hbody
    refine ⟨body, rfl, fun hhead => hstays ?_⟩
    obtain ⟨tail, rfl⟩ := List.head?_eq_some_iff.mp hhead
    exact ⟨tail ++ ['*', '/'], rfl⟩
  · rintro ⟨body, rfl, hhead⟩
    refine ⟨⟨body ++ ['*', '/'], rfl⟩, ?_, ⟨'/' :: '*' :: '*' :: body, rfl⟩⟩
    rintro ⟨tail, htail⟩
    cases body with
    | nil => simp at htail
    | cons c body =>
      simp only [List.cons_append, List.nil_append, List.cons.injEq, true_and] at htail
      exact hhead (by rw [← htail.1]; rfl)

theorem body?_eq_some_iff {raw body : List Char} :
    body? raw = some body ↔
      raw = '/' :: '*' :: '*' :: (body ++ ['*', '/']) ∧ body.head? ≠ some '/' := by
  unfold body?
  split
  · next rest =>
    by_cases hhead : rest.head? = some '/'
    · rw [if_pos hhead]
      simp only [reduceCtorEq, List.cons.injEq, true_and, false_iff, not_and, not_not]
      rintro rfl
      cases body with
      | nil => simp at hhead
      | cons c body => exact hhead
    · rw [if_neg hhead, stripEnd?_eq_some_iff]
      simp only [List.cons.injEq, true_and]
      refine ⟨fun h => ⟨h, ?_⟩, And.left⟩
      rintro hbody
      obtain ⟨tail, rfl⟩ := List.head?_eq_some_iff.mp hbody
      exact hhead (by rw [h]; rfl)
  · next hno =>
    simp only [reduceCtorEq, false_iff, not_and]
    rintro rfl
    exact (hno _ rfl).elim

theorem parse?_eq_some_iff {raw : String} {b : Block} :
    Block.parse? raw = some b ↔
      IsDocComment raw.toList ∧ Block.ofLines ((bodyLines raw.toList).map cleanLine) = b := by
  rw [Block.parse?, Option.map_eq_some_iff, isDocComment_iff]
  constructor
  · rintro ⟨body, hbody, rfl⟩
    rw [body?_eq_some_iff] at hbody
    refine ⟨⟨body, hbody⟩, ?_⟩
    rw [bodyLines, hbody.1, lines_eq_splitOn]
    simp [List.rdrop]
  · rintro ⟨⟨body, hbody⟩, rfl⟩
    refine ⟨body, body?_eq_some_iff.mpr hbody, ?_⟩
    rw [bodyLines, hbody.1, lines_eq_splitOn]
    simp [List.rdrop]

/-! ### The lines without their gutter -/

/-- What is left of a line without its leading blanks, one star of the gutter and one space behind
the star. -/
inductive StripsTo : List Char → List Char → Prop
  | spaced (indent rest : List Char) (hindent : ∀ c ∈ indent, isBlank c = true) :
      StripsTo (indent ++ '*' :: ' ' :: rest) rest
  | starred (indent rest : List Char) (hindent : ∀ c ∈ indent, isBlank c = true)
      (hrest : rest.head? ≠ some ' ') : StripsTo (indent ++ '*' :: rest) rest
  | bare (indent rest : List Char) (hindent : ∀ c ∈ indent, isBlank c = true)
      (hrest : ∀ c ∈ rest.head?, isBlank c = false ∧ c ≠ '*') : StripsTo (indent ++ rest) rest

theorem exists_stripsTo (line : List Char) : ∃ rest, StripsTo line rest := by
  obtain hblank | ⟨indent, c, rest, rfl, hindent, hc⟩ := blank_or_exists line
  · exact ⟨[], by simpa using StripsTo.bare line [] hblank (by simp)⟩
  · by_cases hstar : c = '*'
    · subst hstar
      by_cases hspace : rest.head? = some ' '
      · obtain ⟨tail, rfl⟩ := List.head?_eq_some_iff.mp hspace
        exact ⟨tail, .spaced indent tail hindent⟩
      · exact ⟨rest, .starred indent rest hindent hspace⟩
    · exact ⟨c :: rest, .bare indent (c :: rest) hindent (by simpa using ⟨hc, hstar⟩)⟩

theorem StripsTo.cleanLine_eq {line rest : List Char} (h : StripsTo line rest) :
    cleanLine line = trimEnd rest := by
  have hstar : isBlank '*' = false := by decide
  cases h with
  | spaced indent _ hindent =>
    rw [cleanLine, trimStart_of_gap hindent hstar]
    rfl
  | starred indent _ hindent hrest =>
    rw [cleanLine, trimStart_of_gap hindent hstar]
    split
    · next heq => simp [(List.cons.inj heq).2] at hrest
    · next heq => rw [(List.cons.inj heq).2]
    · next hno => exact (hno _ rfl).elim
  | bare indent _ hindent hrest =>
    cases rest with
    | nil => rw [List.append_nil, cleanLine, trimStart_of_blank hindent]
    | cons c rest =>
      obtain ⟨hc, hne⟩ := hrest c (by simp)
      rw [cleanLine, trimStart_of_gap hindent hc]
      split
      · next heq => exact (hne (List.cons.inj heq).1).elim
      · next heq => exact (hne (List.cons.inj heq).1).elim
      · rfl

/-! ### Tags on the lines -/

theorem tagLine?_eq_some_iff {line name text : List Char} :
    tagLine? line = some (name, text) ↔
      IsTagName name ∧ line = '@' :: name ++ text ∧ ∀ c ∈ text.head?, isTagChar c = false := by
  constructor
  · intro h
    obtain ⟨hname, hline⟩ := of_tagLine? h
    refine ⟨hname, hline, ?_⟩
    obtain ⟨c, rest, rfl, hc⟩ := tagLine?_ne_none_iff.mp (Option.ne_none_iff_exists'.mpr ⟨_, h⟩)
    simp only [tagLine?, hc, if_true, Option.some.injEq, Prod.mk.injEq] at h
    intro x hx
    have hstop := List.head?_dropWhile_not isTagChar rest
    rw [h.2, Option.mem_def.mp hx] at hstop
    simpa using hstop
  · rintro ⟨⟨c, cs, rfl, hc, hcs⟩, rfl, hstop⟩
    have hend : text.takeWhile isTagChar = [] ∧ text.dropWhile isTagChar = text := by
      cases text with
      | nil => simp
      | cons x text => simp [hstop x (by simp)]
    simp only [List.cons_append, tagLine?, hc, if_true, List.takeWhile_append_of_pos hcs,
      List.dropWhile_append_of_pos hcs, hend, List.append_nil]

theorem tagLine?_trimEnd_eq (s : List Char) :
    tagLine? (trimEnd s) = (tagLine? s).map fun t => (t.1, trimEnd t.2) := by
  cases h : tagLine? s with
  | none => rw [tagLine?_trimEnd.mpr h, Option.map_none]
  | some t =>
    obtain ⟨name, text⟩ := t
    obtain ⟨hname, rfl, hstop⟩ := tagLine?_eq_some_iff.mp h
    refine tagLine?_eq_some_iff.mpr ⟨hname, ?_, fun c hc => ?_⟩
    · obtain ⟨init, last, hlast⟩ : ∃ init last, name = init ++ [last] := by
        obtain ⟨c, cs, rfl, -, -⟩ := hname
        exact ⟨_, _, (List.dropLast_append_getLast (List.cons_ne_nil c cs)).symm⟩
      have hblank := isBlank_eq_false_of_isTagChar (hname.isTagChar last (by simp [hlast]))
      simpa [hlast] using trimEnd_append (s := '@' :: init) hblank text
    · obtain ⟨blanks, htext⟩ := trimEnd_prefix text
      rw [← htext] at hstop
      rw [Option.mem_def] at hc
      exact hstop c (by simp [List.head?_append, hc])

theorem map_name_tags_ofLines (ls : List (List Char)) :
    (Block.ofLines ls).tags.map Tag.name = (ls.filterMap tagLine?).map fun t => String.ofList t.1 := by
  have hnames : (sections ls).2.map Prod.fst = (ls.filterMap tagLine?).map Prod.fst := by
    induction ls with
    | nil => rfl
    | cons line ls ih =>
      cases htag : tagLine? line with
      | none => simpa [sections, htag] using ih
      | some t => simp [sections, htag, ih]
  have hlift := congrArg (List.map String.ofList) hnames
  simpa [Block.ofLines, Function.comp_def] using hlift

/-! ### The marker -/

/-- A text that starts with the marker: `@` and its letters in any case, and then no character that a
tag name could go on with. -/
def StartsWithMarker (text : List Char) : Prop :=
  ∃ name after, text = '@' :: (name ++ after) ∧
    name.map Char.toLower = "customfunction".toList ∧
    ∀ c ∈ after.head?, isWord c = false ∧ c ≠ '-'

/-- A line that starts with the marker behind its indentation and its gutter. -/
def IsMarkerLine (line : List Char) : Prop := ∃ rest, StripsTo line rest ∧ StartsWithMarker rest

theorem isTagChar_eq_false_iff {c : Char} : isTagChar c = false ↔ isWord c = false ∧ c ≠ '-' := by
  simp [isTagChar]

theorem isTagStart_of_isLower_toLower {c : Char} (h : c.toLower.isLower = true) :
    isTagStart c = true := by
  have hstart : isTagStart c = (c.isUpper || c.isLower || c == '_') := rfl
  by_cases hc : c.isUpper = true
  · simp [hstart, hc]
  · have hself : c.toLower = c := dif_neg (mt decide_eq_true hc)
    rw [hself] at h
    simp [hstart, h]

theorem isTagName_of_map_toLower {name : List Char}
    (h : name.map Char.toLower = "customfunction".toList) : IsTagName name := by
  have hlower : ∀ c ∈ name, c.toLower.isLower = true := by
    have hletters : "customfunction".toList.all Char.isLower = true := by decide
    rwa [← h, List.all_eq_true, List.forall_mem_map] at hletters
  cases name with
  | nil => simp at h
  | cons c cs =>
    rw [List.forall_mem_cons] at hlower
    exact ⟨c, cs, rfl, isTagStart_of_isLower_toLower hlower.1,
      fun x hx => isTagChar_of_isTagStart (isTagStart_of_isLower_toLower (hlower.2 x hx))⟩

theorem startsWithMarker_iff {text : List Char} :
    StartsWithMarker text ↔
      ∃ t ∈ tagLine? text, t.1.map Char.toLower = "customfunction".toList := by
  constructor
  · rintro ⟨name, after, rfl, hname, hafter⟩
    refine ⟨(name, after), ?_, hname⟩
    exact tagLine?_eq_some_iff.mpr ⟨isTagName_of_map_toLower hname, rfl,
      fun c hc => isTagChar_eq_false_iff.mpr (hafter c hc)⟩
  · rintro ⟨⟨name, after⟩, ht, hname⟩
    obtain ⟨-, rfl, hafter⟩ := tagLine?_eq_some_iff.mp ht
    exact ⟨name, after, rfl, hname, fun c hc => isTagChar_eq_false_iff.mp (hafter c hc)⟩

theorem startsWithMarker_trimEnd_iff {text : List Char} :
    StartsWithMarker (trimEnd text) ↔ StartsWithMarker text := by
  rw [startsWithMarker_iff, startsWithMarker_iff, tagLine?_trimEnd_eq]
  simp

theorem StripsTo.startsWithMarker_iff {line rest : List Char} (h : StripsTo line rest) :
    StartsWithMarker (cleanLine line) ↔ StartsWithMarker rest := by
  rw [h.cleanLine_eq, startsWithMarker_trimEnd_iff]

theorem isMarkerLine_iff {line : List Char} :
    IsMarkerLine line ↔ StartsWithMarker (cleanLine line) := by
  constructor
  · rintro ⟨rest, hrest, hmarker⟩
    exact hrest.startsWithMarker_iff.mpr hmarker
  · intro h
    obtain ⟨rest, hrest⟩ := exists_stripsTo line
    exact ⟨rest, hrest, hrest.startsWithMarker_iff.mp h⟩

theorem StartsWithMarker.head? {text : List Char} (h : StartsWithMarker text) :
    text.head? = some '@' := by
  obtain ⟨name, after, rfl, -, -⟩ := h
  rfl

theorem StartsWithMarker.length_le {name after : List Char}
    (h : StartsWithMarker ('@' :: (name ++ after))) (hname : ∀ c ∈ name, isTagChar c = true) :
    name.length ≤ "customfunction".length := by
  obtain ⟨marker, rest, heq, hmarker, hrest⟩ := h
  have hlength : marker.length = "customfunction".length := by
    rw [← String.length_toList, ← hmarker, List.length_map]
  obtain ⟨extra, rfl, -⟩ | ⟨extra, rfl, rfl⟩ :=
    List.append_eq_append_iff.mp (List.cons.inj heq).2
  · rw [← hlength, List.length_append]
    omega
  · cases extra with
    | nil => simp [← hlength]
    | cons c extra =>
      have hc := hname c (by simp)
      rw [isTagChar_eq_false_iff.mpr (hrest c (by simp))] at hc
      cases hc

theorem exists_isMarker_ofLines_iff (ls : List (List Char)) :
    (∃ t ∈ (Block.ofLines ls).tags, t.IsMarker) ↔ ∃ line ∈ ls, StartsWithMarker line := by
  have hnames : (∃ t ∈ (Block.ofLines ls).tags, t.IsMarker) ↔
      ∃ n ∈ (Block.ofLines ls).tags.map Tag.name,
        n.toList.map Char.toLower = "customfunction".toList := by
    simp [Tag.IsMarker]
  rw [hnames, map_name_tags_ofLines]
  simp only [List.mem_map, List.mem_filterMap, startsWithMarker_iff, Option.mem_def]
  constructor
  · rintro ⟨n, ⟨t, ⟨line, hline, ht⟩, rfl⟩, hfold⟩
    exact ⟨line, hline, t, ht, by simpa using hfold⟩
  · rintro ⟨line, hline, t, ht, hfold⟩
    exact ⟨_, ⟨t, ⟨line, hline, ht⟩, rfl⟩, by simpa using hfold⟩

theorem isCustomFunction_iff (raws : List String) :
    (Summary.ofBlocks (raws.filterMap Block.parse?)).isCustomFunction = true ↔
      ∃ raw ∈ raws, IsDocComment raw.toList ∧
        ∃ line ∈ bodyLines raw.toList, IsMarkerLine line := by
  rw [isCustomFunction_iff_exists]
  constructor
  · rintro ⟨t, ht, hmarker⟩
    obtain ⟨b, hb, ht⟩ := List.mem_flatMap.mp ht
    obtain ⟨raw, hraw, hread⟩ := List.mem_filterMap.mp hb
    obtain ⟨hdoc, rfl⟩ := parse?_eq_some_iff.mp hread
    obtain ⟨cleaned, hcleaned, hstart⟩ := (exists_isMarker_ofLines_iff _).mp ⟨t, ht, hmarker⟩
    obtain ⟨line, hline, rfl⟩ := List.mem_map.mp hcleaned
    exact ⟨raw, hraw, hdoc, line, hline, isMarkerLine_iff.mpr hstart⟩
  · rintro ⟨raw, hraw, hdoc, line, hline, hstart⟩
    have hread := parse?_eq_some_iff.mpr ⟨hdoc, rfl⟩
    obtain ⟨t, ht, hmarker⟩ := (exists_isMarker_ofLines_iff _).mpr
      ⟨cleanLine line, List.mem_map_of_mem hline, isMarkerLine_iff.mp hstart⟩
    exact ⟨t, List.mem_flatMap.mpr ⟨_, List.mem_filterMap.mpr ⟨raw, hraw, hread⟩, ht⟩, hmarker⟩

/-- Comments mark a function if and only if one of them is a documentation comment with a line that
starts with the marker, whatever tag the line belongs to. A line does not count if something else
than `@` comes first behind its gutter, or if the name of its tag goes on behind the marker. -/
theorem marker_counts_only_at_line_start (raws : List String) :
    ((Summary.ofBlocks (raws.filterMap Block.parse?)).isCustomFunction = true ↔
      ∃ raw ∈ raws, IsDocComment raw.toList ∧
        ∃ line ∈ bodyLines raw.toList, IsMarkerLine line) ∧
    ∀ line rest, StripsTo line rest →
      (rest.head? ≠ some '@' → ¬ IsMarkerLine line) ∧
      ∀ name after, rest = '@' :: (name ++ after) → (∀ c ∈ name, isWord c = true ∨ c = '-') →
        "customfunction".length < name.length → ¬ IsMarkerLine line := by
  refine ⟨isCustomFunction_iff raws, fun line rest hrest => ?_⟩
  rw [isMarkerLine_iff, hrest.startsWithMarker_iff]
  refine ⟨fun hhead hmarker => hhead hmarker.head?, ?_⟩
  rintro name after rfl hname hlong hmarker
  have hle := hmarker.length_le fun c hc => by simpa [isTagChar] using hname c hc
  omega

/-- A marker in the text of another tag counts; a reference in braces and a longer name do not. -/
theorem marker_counts_only_at_line_start_in_tag_text :
    (Summary.ofBlocks (["/** @arg x\n*@CustomFunction: */"].filterMap
      Block.parse?)).isCustomFunction = true ∧
    ¬ IsMarkerLine " \x7b@customfunction\x7d".toList ∧
    ¬ IsMarkerLine "* @customfunctions".toList := by
  have hstop : isWord ':' = false := by decide +kernel
  have hmarker : StartsWithMarker "@CustomFunction: ".toList :=
    ⟨"CustomFunction".toList, ": ".toList, rfl, by decide, by simpa using hstop⟩
  have hdoc : IsDocComment "/** @arg x\n*@CustomFunction: */".toList :=
    ⟨by decide, by decide, by decide⟩
  have hline : StripsTo "*@CustomFunction: ".toList "@CustomFunction: ".toList :=
    .starred [] _ (by simp) (by decide)
  have hreference : StripsTo " \x7b@customfunction\x7d".toList "\x7b@customfunction\x7d".toList :=
    .bare [' '] "\x7b@customfunction\x7d".toList (by simp [isBlank]) (by simp [isBlank])
  have hlonger : StripsTo "* @customfunctions".toList "@customfunctions".toList :=
    .spaced [] _ (by simp)
  have hname : "customfunctions".toList.all isWord = true := by decide
  exact ⟨(marker_counts_only_at_line_start _).1.mpr ⟨_, List.mem_singleton_self _, hdoc,
      "*@CustomFunction: ".toList, by decide, _, hline, hmarker⟩,
    ((marker_counts_only_at_line_start []).2 _ _ hreference).1 (by decide),
    ((marker_counts_only_at_line_start []).2 _ _ hlonger).2 "customfunctions".toList [] rfl
      (fun c hc => .inl (List.all_eq_true.mp hname c hc)) (by decide)⟩

/-! ### Blanks around the lines -/

/-- Two documentation comments with the same lines but for the blanks around each of them. -/
structure SameButForBlanks (raw₁ raw₂ : String) : Prop where
  left : IsDocComment raw₁.toList
  right : IsDocComment raw₂.toList
  lines : List.Forall₂ (fun l₁ l₂ => trim l₁ = trim l₂) (bodyLines raw₁.toList) (bodyLines raw₂.toList)

theorem StripsTo.trim {line rest : List Char} (h : StripsTo line rest) :
    ∃ rest', StripsTo (Text.trim line) rest' ∧ trimEnd rest' = trimEnd rest := by
  have hstar : isBlank '*' = false := by decide
  cases h with
  | spaced indent _ hindent =>
    rw [trim_of_gap hindent hstar]
    obtain hblank | ⟨gap, c, t, rfl, hgap, hc⟩ := blank_or_exists rest
    · -- the space behind the star is a blank at the end of the line
      rw [trimEnd_of_blank (by simpa [isBlank] using hblank)]
      exact ⟨[], .starred [] [] (by simp) (by simp), (trimEnd_of_blank hblank).symm⟩
    · have hkept : trimEnd (' ' :: (gap ++ c :: t)) = ' ' :: (gap ++ c :: trimEnd t) :=
        trimEnd_append (s := ' ' :: gap) hc t
      rw [hkept, ← trimEnd_append hc]
      exact ⟨_, .spaced [] _ (by simp), trimEnd_trimEnd _⟩
  | starred indent _ hindent hrest =>
    rw [trim_of_gap hindent hstar]
    refine ⟨_, .starred [] _ (by simp) fun hspace => ?_, trimEnd_trimEnd _⟩
    obtain ⟨blanks, hblanks⟩ := trimEnd_prefix rest
    rw [← hblanks, List.head?_append, hspace] at hrest
    exact hrest rfl
  | bare indent _ hindent hrest =>
    cases rest with
    | nil =>
      rw [List.append_nil, Text.trim, trimStart_of_blank hindent]
      exact ⟨[], .bare [] [] (by simp) (by simp), rfl⟩
    | cons c rest =>
      have hc := (hrest c (by simp)).1
      have hkept : ∀ t, trimEnd (c :: t) = c :: trimEnd t := trimEnd_append (s := []) hc
      rw [trim_of_gap hindent hc]
      refine ⟨_, .bare [] _ (by simp) (by simpa using hrest c (by simp)), ?_⟩
      rw [hkept, hkept, trimEnd_trimEnd]

theorem cleanLine_trim (line : List Char) : cleanLine (trim line) = cleanLine line := by
  obtain ⟨rest, hrest⟩ := exists_stripsTo line
  obtain ⟨rest', hrest', heq⟩ := hrest.trim
  rw [hrest.cleanLine_eq, hrest'.cleanLine_eq, heq]

theorem SameButForBlanks.exists_block {raw₁ raw₂ : String} (h : SameButForBlanks raw₁ raw₂) :
    ∃ b, Block.parse? raw₁ = some b ∧ Block.parse? raw₂ = some b := by
  have hlines : (bodyLines raw₁.toList).map cleanLine = (bodyLines raw₂.toList).map cleanLine := by
    rw [← List.forall₂_eq_eq_eq, List.forall₂_map_left_iff, List.forall₂_map_right_iff]
    refine h.lines.imp fun l₁ l₂ heq => ?_
    rw [← cleanLine_trim l₁, heq, cleanLine_trim]
  exact ⟨_, parse?_eq_some_iff.mpr ⟨h.left, rfl⟩, parse?_eq_some_iff.mpr ⟨h.right, by rw [hlines]⟩⟩

/-- Documentation comments whose lines differ only by the blanks around them are read as the same
blocks, and say the same about a declaration. -/
theorem blanks_around_lines_do_not_count :
    (∀ raw₁ raw₂, SameButForBlanks raw₁ raw₂ →
      ∃ b, Block.parse? raw₁ = some b ∧ Block.parse? raw₂ = some b) ∧
    ∀ raws₁ raws₂, List.Forall₂ SameButForBlanks raws₁ raws₂ →
      Summary.ofBlocks (raws₁.filterMap Block.parse?) =
        Summary.ofBlocks (raws₂.filterMap Block.parse?) := by
  refine ⟨fun raw₁ raw₂ h => h.exists_block, fun raws₁ raws₂ h => ?_⟩
  have hblocks : raws₁.filterMap Block.parse? = raws₂.filterMap Block.parse? := by
    induction h with
    | nil => rfl
    | cons hraw _ ih =>
      obtain ⟨b, hleft, hright⟩ := hraw.exists_block
      rw [List.filterMap_cons_some hleft, List.filterMap_cons_some hright, ih]
  rw [hblocks]

/-- Other line ends, another indentation and blanks behind the text. -/
theorem blanks_around_lines_do_not_count_line_ends :
    let raw₁ := "/**\n * Adds.\n *\n */"
    let raw₂ := "/**\r\n\t* Adds.  \r\n* \r\n*/"
    SameButForBlanks raw₁ raw₂ ∧ (∃ b, Block.parse? raw₁ = some b ∧ Block.parse? raw₂ = some b) ∧
      Summary.ofBlocks ([raw₁].filterMap Block.parse?) =
        Summary.ofBlocks ([raw₂].filterMap Block.parse?) := by
  have h : SameButForBlanks "/**\n * Adds.\n *\n */" "/**\r\n\t* Adds.  \r\n* \r\n*/" :=
    { left := ⟨by decide, by decide, by decide⟩
      right := ⟨by decide, by decide, by decide⟩
      lines := .cons (by decide) (.cons (by decide) (.cons (by decide) (.cons (by decide) .nil))) }
  exact ⟨h, blanks_around_lines_do_not_count.1 _ _ h,
    blanks_around_lines_do_not_count.2 _ _ (.cons h .nil)⟩

end ScriptManifest.Doc
