import ScriptManifest.Doc.Summary
import ScriptManifest.Manifest.Record
import ScriptManifest.Proofs.DocLayout
import ScriptManifest.Proofs.Lexing

/-!
The documentation of a record, printed and read again. `docLines` are the lines of the comment: the
description, the marker, the help address and one tag for every described parameter. The comment is
one lexeme (`isComment_docComment`), and what it says is what the record says
(`ofBlocks_docBlock`, `paramDescription?_described`).
-/

namespace ScriptManifest

open Doc Manifest Source Text

/-! ### Identifiers -/

/-- The reserved and the contextual keywords of scripts with type annotations. -/
def keywords : List String :=
  ["break", "case", "catch", "class", "const", "continue", "debugger", "default", "delete", "do",
    "else", "enum", "export", "extends", "false", "finally", "for", "function", "if", "import", "in",
    "instanceof", "new", "null", "return", "super", "switch", "this", "throw", "true", "try",
    "typeof", "var", "void", "while", "with", "implements", "interface", "let", "package", "private",
    "protected", "public", "static", "yield", "abstract", "accessor", "any", "as", "asserts",
    "assert", "async", "await", "bigint", "boolean", "constructor", "declare", "from", "get",
    "global", "infer", "intrinsic", "is", "keyof", "module", "namespace", "never", "number",
    "object", "of", "out", "override", "readonly", "require", "satisfies", "set", "string",
    "symbol", "type", "undefined", "unique", "unknown", "using"]

def isIdentifierStart (c : Char) : Bool :=
  ('a' ≤ c && c ≤ 'z') || ('A' ≤ c && c ≤ 'Z') || c == '_' || c == '$'

def isIdentifierPart (c : Char) : Bool := isIdentifierStart c || ('0' ≤ c && c ≤ '9')

/-- An ASCII identifier that is no keyword. -/
structure IsIdentifier (s : String) : Prop where
  start : s.toList.head?.any isIdentifierStart = true
  parts : s.toList.all isIdentifierPart = true
  noKeyword : s ∉ keywords

instance (s : String) : Decidable (IsIdentifier s) :=
  decidable_of_iff (s.toList.head?.any isIdentifierStart = true ∧
      s.toList.all isIdentifierPart = true ∧ s ∉ keywords)
    ⟨fun ⟨hs, hp, hk⟩ => ⟨hs, hp, hk⟩, fun h => ⟨h.start, h.parts, h.noKeyword⟩⟩

theorem toNat_lt_of_isIdentifierPart {c : Char} (h : isIdentifierPart c = true) : c.toNat < 128 := by
  simp only [isIdentifierPart, isIdentifierStart, Bool.or_eq_true, Bool.and_eq_true,
    decide_eq_true_eq, beq_iff_eq] at h
  obtain (((h | h) | rfl) | rfl) | h := h
  · exact Nat.lt_of_le_of_lt h.2 (by decide)
  · exact Nat.lt_of_le_of_lt h.2 (by decide)
  · decide
  · decide
  · exact Nat.lt_of_le_of_lt h.2 (by decide)

theorem forall_isIdentifierPart (P : Char → Prop)
    (hP : ∀ n < 128, isIdentifierPart (Char.ofNat n) = true → P (Char.ofNat n)) {c : Char}
    (h : isIdentifierPart c = true) : P c := by
  have hc := hP c.toNat (toNat_lt_of_isIdentifierPart h)
  rw [Char.ofNat_toNat] at hc
  exact hc h

theorem isIdentifierPart_facts {c : Char} (h : isIdentifierPart c = true) :
    isNameChar c = true ∧ isBlank c = false ∧ c ∉ ['*', '\n', '\x7b', '['] :=
  forall_isIdentifierPart
    (fun c => isNameChar c = true ∧ isBlank c = false ∧ c ∉ ['*', '\n', '\x7b', '['])
    (by decide +kernel) h

theorem isNameStart_of_isIdentifierStart {c : Char} (h : isIdentifierStart c = true) :
    isNameStart c = true := by
  have hpart : isIdentifierPart c = true := by simp [isIdentifierPart, h]
  exact forall_isIdentifierPart (fun c => isIdentifierStart c = true → isNameStart c = true)
    (by decide +kernel) hpart h

namespace IsIdentifier

variable {s : String}

theorem isIdentifierPart (h : IsIdentifier s) {c : Char} (hc : c ∈ s.toList) :
    isIdentifierPart c = true := List.all_eq_true.mp h.parts c hc

theorem exists_cons (h : IsIdentifier s) :
    ∃ c cs, s.toList = c :: cs ∧ isIdentifierStart c = true := by
  have hstart := h.start
  cases hs : s.toList with
  | nil => simp [hs] at hstart
  | cons c cs => exact ⟨c, cs, rfl, by simpa [hs] using hstart⟩

theorem isWordText (h : IsIdentifier s) : IsWordText s.toList := by
  obtain ⟨c, cs, hs, hc⟩ := h.exists_cons
  refine ⟨c, cs, hs, isNameStart_of_isIdentifierStart hc, fun x hx => ?_⟩
  exact (isIdentifierPart_facts (h.isIdentifierPart (by simp [hs, hx]))).1

theorem isBlank_eq_false (h : IsIdentifier s) : ∀ c ∈ s.toList, isBlank c = false :=
  fun _ hc => (isIdentifierPart_facts (h.isIdentifierPart hc)).2.1

theorem not_mem (h : IsIdentifier s) {c : Char} (hc : c ∈ ['*', '\n', '\x7b', '[']) :
    c ∉ s.toList :=
  fun hs => (isIdentifierPart_facts (h.isIdentifierPart hs)).2.2 hc

end IsIdentifier

/-! ### Printing the documentation -/

/-- A text that a documentation comment can hold: trimmed, without the end of a comment and without
a NUL, no line of it ending in a blank or being a tag line. -/
structure IsDocText (s : String) : Prop where
  trimmed : trim s.toList = s.toList
  staysOpen : StaysOpen s.toList
  noNul : '\x00' ∉ s.toList
  lines : ArePlain (Text.lines s.toList)

instance (ls : List (List Char)) : Decidable (ArePlain ls) :=
  decidable_of_iff ((∀ l ∈ ls, trimEnd l = l) ∧ ∀ l ∈ ls, tagLine? l = none)
    ⟨fun ⟨ht, hn⟩ => ⟨ht, hn⟩, fun h => ⟨h.trimmed, h.noTag⟩⟩

instance (s : String) : Decidable (IsDocText s) :=
  decidable_of_iff (trim s.toList = s.toList ∧ occurs ['*', '/'] s.toList = false ∧
      '\x00' ∉ s.toList ∧ ArePlain (Text.lines s.toList))
    ⟨fun ⟨ht, ho, hn, hl⟩ => ⟨ht, ho, hn, hl⟩, fun h => ⟨h.trimmed, h.staysOpen, h.noNul, h.lines⟩⟩

/-- The lines of a record's documentation: the description, the marker, the help address unless it is
empty, and one tag for every parameter with a description. -/
def docLines (f : FunctionRecord) : List (List Char) :=
  (f.description.map fun s => lines s.toList).getD [] ++ "@customfunction".toList ::
    ((if f.helpUrl = "" then [] else lines ("@helpurl " ++ f.helpUrl).toList) ++
      f.parameters.flatMap fun p =>
        (p.description.map fun s => lines ("@param " ++ p.name ++ " - " ++ s).toList).getD [])

def docComment (f : FunctionRecord) : String := gutter (docLines f)

/-- The texts of a record's documentation can be printed. -/
structure IsDocumentable (f : FunctionRecord) : Prop where
  helpUrl : IsDocText f.helpUrl
  description : ∀ s ∈ f.description, s ≠ "" ∧ IsDocText s
  parameterNames : ∀ p ∈ f.parameters, IsIdentifier p.name
  distinctNames : (f.parameters.map ParameterRecord.name).Nodup
  parameterDescriptions : ∀ p ∈ f.parameters, ∀ s ∈ p.description, IsDocText s

instance (f : FunctionRecord) : Decidable (IsDocumentable f) :=
  decidable_of_iff (IsDocText f.helpUrl ∧ (∀ s ∈ f.description, s ≠ "" ∧ IsDocText s) ∧
      (∀ p ∈ f.parameters, IsIdentifier p.name) ∧
      (f.parameters.map ParameterRecord.name).Nodup ∧
      ∀ p ∈ f.parameters, ∀ s ∈ p.description, IsDocText s)
    ⟨fun ⟨hu, hd, hn, hnd, hp⟩ => ⟨hu, hd, hn, hnd, hp⟩, fun h =>
      ⟨h.helpUrl, h.description, h.parameterNames, h.distinctNames, h.parameterDescriptions⟩⟩

def paramText (name text : String) : String := name ++ " -" ++ if text = "" then "" else " " ++ text

def paramTag? (p : ParameterRecord) : Option Tag :=
  p.description.map fun s => ⟨"param", paramText p.name s⟩

def docBlock (f : FunctionRecord) : Block where
  comment := f.description
  tags := ⟨"customfunction", ""⟩ ::
    ((if f.helpUrl = "" then [] else [⟨"helpurl", f.helpUrl⟩]) ++ f.parameters.filterMap paramTag?)

/-! ### The comment as a lexeme -/

theorem staysOpen_append_of_not_mem {start : List Char} (hstart : '*' ∉ start) {s : List Char}
    (hs : StaysOpen s) : StaysOpen (start ++ s) := by
  induction start with
  | nil => exact hs
  | cons c start ih =>
    rw [List.mem_cons, not_or] at hstart
    have htail := ih hstart.2
    rw [StaysOpen] at htail ⊢
    simp [occurs, List.isPrefixOf, htail, hstart.1]

theorem staysOpen_of_append_left {s t : List Char} (h : StaysOpen (s ++ t)) : StaysOpen s := by
  induction s with
  | nil => rfl
  | cons c s ih =>
    have htail := ih h.tail
    simp only [StaysOpen, List.cons_append, occurs, Bool.or_eq_false_iff] at h htail ⊢
    refine ⟨?_, htail⟩
    rw [← Bool.not_eq_true, List.isPrefixOf_iff_prefix] at h ⊢
    exact fun hstart => h.1 (hstart.trans (List.prefix_append (c :: s) t))

theorem staysOpen_of_append_right {s t : List Char} (h : StaysOpen (s ++ t)) : StaysOpen t := by
  induction s with
  | nil => exact h
  | cons c s ih => exact ih h.tail

theorem staysOpen_of_mem_lines {s l : List Char} (hs : StaysOpen s) (h : l ∈ lines s) :
    StaysOpen l := by
  obtain ⟨a, b, hab⟩ := exists_joinLines_eq h
  rw [joinLines_lines] at hab
  rw [hab] at hs
  exact staysOpen_of_append_right (staysOpen_of_append_left hs)

theorem isComment_gutter {ls : List (List Char)} (h : ∀ l ∈ ls, StaysOpen l) :
    IsComment (gutter ls) := by
  have hfeed : ∀ {s : List Char}, StaysOpen s → StaysOpen ('\n' :: s) :=
    fun hs => staysOpen_append_of_not_mem (by decide : '*' ∉ ['\n']) hs
  have hopen : StaysOpen ((ls.flatMap fun l => ' ' :: '*' :: ' ' :: l ++ ['\n']) ++ [' ']) := by
    induction ls with
    | nil => rfl
    | cons l ls ih =>
      have hls := ih fun l' h' => h l' (List.mem_cons_of_mem l h')
      have hline := (h l (by simp)).append_cons (by decide) (hfeed hls)
      have hblank := staysOpen_append_of_not_mem (by decide : '*' ∉ [' ']) hline
      have hstar : StaysOpen [' ', '*'] := rfl
      simpa using hstar.append_cons (by decide) hblank
  have hstar : StaysOpen ['*'] := rfl
  refine ⟨_, hstar.append_cons (by decide) (hfeed hopen), ?_⟩
  simp [gutter]

/-! ### The lines of the comment -/

theorem mem_docLines {f : FunctionRecord} {l : List Char} (h : l ∈ docLines f) :
    (∃ s ∈ f.description, l ∈ lines s.toList) ∨ l = "@customfunction".toList ∨
      l ∈ lines ("@helpurl " ++ f.helpUrl).toList ∨
      ∃ p ∈ f.parameters, ∃ s ∈ p.description,
        l ∈ lines ("@param " ++ p.name ++ " - " ++ s).toList := by
  rw [docLines, List.mem_append, List.mem_cons, List.mem_append, List.mem_flatMap] at h
  obtain h | h | h | ⟨p, hp, h⟩ := h
  · cases hd : f.description with
    | none => simp [hd] at h
    | some s => exact .inl ⟨s, rfl, by simpa [hd] using h⟩
  · exact .inr (.inl h)
  · split at h
    · simp at h
    · exact .inr (.inr (.inl h))
  · cases hd : p.description with
    | none => simp [hd] at h
    | some s => exact .inr (.inr (.inr ⟨p, hp, s, hd, by simpa [hd] using h⟩))

theorem newline_not_mem_docLines {f : FunctionRecord} {l : List Char} (h : l ∈ docLines f) :
    '\n' ∉ l := by
  obtain ⟨s, -, hl⟩ | rfl | hl | ⟨p, -, s, -, hl⟩ := mem_docLines h
  · exact newline_not_mem_of_mem_lines hl
  · decide
  · exact newline_not_mem_of_mem_lines hl
  · exact newline_not_mem_of_mem_lines hl

theorem staysOpen_docLines {f : FunctionRecord} (h : IsDocumentable f) {l : List Char}
    (hl : l ∈ docLines f) : StaysOpen l := by
  obtain ⟨s, hs, hl⟩ | rfl | hl | ⟨p, hp, s, hs, hl⟩ := mem_docLines hl
  · exact staysOpen_of_mem_lines (h.description s hs).2.staysOpen hl
  · rfl
  · refine staysOpen_of_mem_lines ?_ hl
    rw [String.toList_append]
    exact staysOpen_append_of_not_mem (by decide) h.helpUrl.staysOpen
  · refine staysOpen_of_mem_lines ?_ hl
    rw [String.toList_append]
    refine staysOpen_append_of_not_mem ?_ (h.parameterDescriptions p hp s hs).staysOpen
    have hname := (h.parameterNames p hp).not_mem (c := '*') (by decide)
    simp [hname]

theorem isComment_docComment {f : FunctionRecord} (h : IsDocumentable f) :
    IsComment (docComment f) :=
  isComment_gutter fun _ hl => staysOpen_docLines h hl

theorem exists_lines_eq (s : List Char) : ∃ first further, lines s = first :: further :=
  List.exists_cons_of_ne_nil (lines_ne_nil s)

theorem renderLines_eq_lines {name : String} (hname : '\n' ∉ name.toList) (text : String) :
    Tag.renderLines ⟨name, text⟩ = lines ("@" ++ name ++ " " ++ text).toList := by
  obtain ⟨first, further, hl⟩ := exists_lines_eq text.toList
  have hstart : '\n' ∉ ("@" ++ name ++ " ").toList := by simp [hname]
  rw [String.toList_append, lines_append hstart hl]
  simp [Tag.renderLines, hl]

theorem map_trimEnd_paramLines {p : ParameterRecord} (hp : IsIdentifier p.name) (s : String) :
    (lines ("@param " ++ p.name ++ " - " ++ s).toList).map trimEnd =
      (Tag.renderLines ⟨"param", paramText p.name s⟩).map trimEnd := by
  rw [renderLines_eq_lines (by decide)]
  by_cases hs : s = ""
  · subst hs
    have hname := hp.not_mem (c := '\n') (by decide)
    rw [lines_of_not_mem (by simp [hname]), lines_of_not_mem (by simp [paramText, hname])]
    simp [paramText, trimEnd, isBlank]
  · simp [paramText, hs, String.append_assoc]

theorem map_trimEnd_paramTags {ps : List ParameterRecord} (h : ∀ p ∈ ps, IsIdentifier p.name) :
    (ps.flatMap fun p => (p.description.map fun s =>
      lines ("@param " ++ p.name ++ " - " ++ s).toList).getD []).map trimEnd =
      ((ps.filterMap paramTag?).flatMap Tag.renderLines).map trimEnd := by
  induction ps with
  | nil => rfl
  | cons p ps ih =>
    have hrest := ih fun p' hp' => h p' (List.mem_cons_of_mem p hp')
    cases hd : p.description with
    | none => simpa [paramTag?, hd, List.filterMap_cons] using hrest
    | some s =>
      have hfirst := map_trimEnd_paramLines (h p (by simp)) s
      simp only [List.flatMap_cons, hd, Option.map_some, Option.getD_some, List.map_append, hfirst,
        hrest, List.filterMap_cons, paramTag?]

theorem map_trimEnd_docLines {f : FunctionRecord} (h : IsDocumentable f) :
    (docLines f).map trimEnd = (docBlock f).renderLines.map trimEnd := by
  have hmarker : (Tag.renderLines ⟨"customfunction", ""⟩).map trimEnd =
      [trimEnd "@customfunction".toList] := by decide
  have hhelp : (if f.helpUrl = "" then [] else lines ("@helpurl " ++ f.helpUrl).toList) =
      (if f.helpUrl = "" then [] else [(⟨"helpurl", f.helpUrl⟩ : Tag)]).flatMap Tag.renderLines := by
    have hlines := renderLines_eq_lines (by decide : '\n' ∉ "helpurl".toList) f.helpUrl
    split
    · rfl
    · simp [hlines]
  simp only [docLines, docBlock, Block.renderLines, List.flatMap_cons, List.flatMap_append,
    List.map_append, List.map_cons, hmarker, hhelp, map_trimEnd_paramTags h.parameterNames,
    List.singleton_append]

/-! ### The block of a record -/

theorem isRenderable_marker : Tag.IsRenderable ⟨"customfunction", ""⟩ where
  name := isTagName_cons (by decide) (by decide)
  trimmed := rfl
  lines := by decide
  further := by decide

theorem IsDocText.isRenderable {s : String} (h : IsDocText s) {name : String}
    (hname : IsTagName name.toList) : Tag.IsRenderable ⟨name, s⟩ where
  name := hname
  trimmed := h.trimmed
  lines := h.lines.trimmed
  further l hl := h.lines.noTag l (List.mem_of_mem_tail hl)

theorem first_ne_nil {s first : List Char} {further : List (List Char)} (hne : s ≠ [])
    (htrim : trim s = s) (hl : lines s = first :: further) : first ≠ [] := by
  rintro rfl
  have hjoin := joinLines_lines s
  rw [hl] at hjoin
  by_cases hf : further = []
  · subst hf
    exact hne (by simpa [joinLines_singleton] using hjoin.symm)
  · rw [joinLines_cons hf, List.nil_append] at hjoin
    rw [← hjoin] at htrim
    exact absurd (isBlank_head_of_trim_eq htrim) (by decide)

def paramTail (s : String) : List Char := if s = "" then [] else ' ' :: s.toList

theorem toList_paramText (n s : String) :
    (paramText n s).toList = n.toList ++ ' ' :: '-' :: paramTail s := by
  by_cases hs : s = "" <;> simp [paramText, paramTail, hs]

theorem trimEnd_paramTail {s : String} (h : IsDocText s) : trimEnd (paramTail s) = paramTail s := by
  rw [paramTail]
  split
  · rfl
  · next hs =>
    rw [trimEnd_blank_cons (by decide) (trimEnd_eq_of_trim_eq h.trimmed), if_neg (by simpa using hs)]

theorem lines_paramTail {s : String} (h : IsDocText s) :
    ∃ first further, lines (paramTail s) = first :: further ∧ trimEnd first = first ∧
      ArePlain further := by
  by_cases hs : s = ""
  · exact ⟨[], [], by simp [paramTail, hs, lines], rfl, ⟨by simp, by simp⟩⟩
  · obtain ⟨first, further, hl⟩ := exists_lines_eq s.toList
    have hne : first ≠ [] := first_ne_nil (by simpa using hs) h.trimmed hl
    have hplain := h.lines
    rw [hl] at hplain
    refine ⟨' ' :: first, further, ?_, ?_, ?_⟩
    · rw [paramTail, if_neg hs]
      exact lines_append (by decide : '\n' ∉ [' ']) hl
    · rw [trimEnd_blank_cons (by decide) (hplain.trimmed first (by simp)), if_neg hne]
    · exact ⟨fun l hl' => hplain.trimmed l (List.mem_cons_of_mem _ hl'),
        fun l hl' => hplain.noTag l (List.mem_cons_of_mem _ hl')⟩

theorem isRenderable_param {n : String} (hn : IsIdentifier n) {s : String} (h : IsDocText s) :
    Tag.IsRenderable ⟨"param", paramText n s⟩ := by
  obtain ⟨first, further, hl, hfirst, hfurther⟩ := lines_paramTail h
  have hfeed := hn.not_mem (c := '\n') (by decide)
  -- the separator keeps what stands in front of it from being trimmed
  have hkeeps : ∀ t, trimEnd t = t →
      trimEnd (n.toList ++ ' ' :: '-' :: t) = n.toList ++ ' ' :: '-' :: t := by
    intro t ht
    have hsplit : n.toList ++ ' ' :: '-' :: t = (n.toList ++ [' ']) ++ '-' :: t := by simp
    rw [hsplit, trimEnd_append (by decide), ht]
  have hlines : lines (paramText n s).toList = (n.toList ++ ' ' :: '-' :: first) :: further := by
    have hstart : '\n' ∉ n.toList ++ [' ', '-'] := by simp [hfeed]
    have := lines_append hstart hl
    simpa [toList_paramText] using this
  have hname : IsTagName "param".toList := isTagName_cons (by decide) (by decide)
  refine ⟨hname, ?_, ?_, ?_⟩
  · have hend := hkeeps _ (trimEnd_paramTail h)
    have hblank := hn.isBlank_eq_false
    rw [toList_paramText]
    obtain ⟨c, cs, hc, -⟩ := hn.exists_cons
    rw [hc] at hend hblank ⊢
    exact trim_eq_of_ends (hblank c (by simp)) hend
  · rw [hlines, List.forall_mem_cons]
    exact ⟨hkeeps first hfirst, hfurther.trimmed⟩
  · rw [hlines]
    exact hfurther.noTag

theorem isRenderable_docBlock {f : FunctionRecord} (h : IsDocumentable f) :
    (docBlock f).IsRenderable where
  comment s hs := ⟨(h.description s hs).1, (h.description s hs).2.trimmed, (h.description s hs).2.lines⟩
  tags t ht := by
    rw [docBlock, List.mem_cons, List.mem_append, List.mem_filterMap] at ht
    obtain rfl | ht | ⟨p, hp, ht⟩ := ht
    · exact isRenderable_marker
    · split at ht
      · simp at ht
      · obtain rfl : t = ⟨"helpurl", f.helpUrl⟩ := by simpa using ht
        exact h.helpUrl.isRenderable (isTagName_cons (by decide) (by decide))
    · obtain ⟨s, hs, rfl⟩ := Option.map_eq_some_iff.mp ht
      exact isRenderable_param (h.parameterNames p hp) (h.parameterDescriptions p hp s hs)

theorem parse?_docComment {f : FunctionRecord} (h : IsDocumentable f) :
    Block.parse? (docComment f) = some (docBlock f) :=
  parse?_gutter_eq (isRenderable_docBlock h) (fun _ hl => newline_not_mem_docLines hl)
    (map_trimEnd_docLines h)

/-! ### What the block says -/

def described (ps : List ParameterRecord) : List (String × String) :=
  ps.filterMap fun p => p.description.map (p.name, ·)

theorem splitAtFirst_append {p : Char → Bool} {s : List Char} (hs : ∀ c ∈ s, p c = false) {c : Char}
    (hc : p c = true) (t : List Char) : splitAtFirst p (s ++ c :: t) = (s, c :: t) := by
  have hs' : ∀ c ∈ s, (!p c) = true := fun c hc => by simp [hs c hc]
  simp [splitAtFirst, List.takeWhile_append_of_pos hs', List.dropWhile_append_of_pos hs', hc]

theorem trim_paramTail {s : String} (h : IsDocText s) : trim (paramTail s) = s.toList := by
  rw [paramTail]
  split
  · next hs => rw [hs]; rfl
  · rw [trim_cons_of_blank (by decide), h.trimmed]

theorem trim_separator {s : String} (h : IsDocText s) :
    trim ('-' :: paramTail s) = '-' :: paramTail s := by
  have hdash : isBlank '-' = false := by decide
  have hend := trimEnd_append (s := []) hdash (paramTail s)
  rw [trimEnd_paramTail h] at hend
  exact trim_eq_of_ends hdash hend

theorem nameAndRest?_identifier {n : String} (hn : IsIdentifier n) (t : List Char) :
    nameAndRest? (skipType (trimStart (n.toList ++ ' ' :: t))) = some (n.toList, ' ' :: t) := by
  have hsplit := splitAtFirst_append hn.isBlank_eq_false (by decide : isBlank ' ' = true) t
  have hblank := hn.isBlank_eq_false
  have hbrace := hn.not_mem (c := '\x7b') (by decide)
  have hbracket := hn.not_mem (c := '[') (by decide)
  obtain ⟨c, cs, hc, -⟩ := hn.exists_cons
  rw [hc] at hsplit hblank hbrace hbracket ⊢
  rw [List.mem_cons, not_or] at hbrace hbracket
  have hstart : trimStart (c :: cs ++ ' ' :: t) = c :: cs ++ ' ' :: t := by
    simp [trimStart, hblank c (by simp)]
  have hskip : skipType (c :: cs ++ ' ' :: t) = c :: cs ++ ' ' :: t := by
    unfold skipType
    split
    · next heq => exact (hbrace.1 (List.cons.inj heq).1.symm).elim
    · rfl
  rw [hstart, hskip, nameAndRest?]
  · rw [hsplit]
  · intro rest heq
    exact hbracket.1 (List.cons.inj heq).1.symm

theorem parse?_paramText {n : String} (hn : IsIdentifier n) {s : String} (h : IsDocText s) :
    ∃ p, ParamTag.parse? (paramText n s) = some p ∧ p.described = (n, s) := by
  have hname := nameAndRest?_identifier hn ('-' :: paramTail s)
  have hrest : trim (skipType (trimStart (' ' :: '-' :: paramTail s))) = '-' :: paramTail s := by
    have hstart : trimStart (' ' :: '-' :: paramTail s) = '-' :: paramTail s := by
      simp [trimStart, isBlank]
    rw [hstart]
    exact trim_separator h
  refine ⟨⟨n, some (String.ofList ('-' :: paramTail s))⟩, ?_, ?_⟩
  · rw [ParamTag.parse?, toList_paramText, hname]
    obtain ⟨c, cs, hc, -⟩ := hn.exists_cons
    have hn' : String.ofList (c :: cs) = n := by rw [← hc, String.ofList_toList]
    simp only [hc, hrest, hn', nonempty?]
    rfl
  · simp [ParamTag.described, cleanDescription, trim_paramTail h]

theorem map_described_paramTags {ps : List ParameterRecord} (hn : ∀ p ∈ ps, IsIdentifier p.name)
    (hs : ∀ p ∈ ps, ∀ s ∈ p.description, IsDocText s) :
    ((ps.filterMap paramTag?).filterMap fun t => ParamTag.parse? t.text).map ParamTag.described =
      described ps := by
  induction ps with
  | nil => rfl
  | cons p ps ih =>
    have hrest := ih (fun p' h' => hn p' (List.mem_cons_of_mem p h'))
      (fun p' h' => hs p' (List.mem_cons_of_mem p h'))
    cases hd : p.description with
    | none => simpa [paramTag?, described, hd, List.filterMap_cons] using hrest
    | some s =>
      obtain ⟨q, hq, hqs⟩ := parse?_paramText (hn p (by simp)) (hs p (by simp) s hd)
      simp only [described] at hrest ⊢
      simp [paramTag?, hd, hq, hqs, ← hrest]

theorem name_of_mem_paramTags {ps : List ParameterRecord} {t : Tag}
    (h : t ∈ ps.filterMap paramTag?) : t.name = "param" := by
  obtain ⟨p, -, hp⟩ := List.mem_filterMap.mp h
  obtain ⟨s, -, rfl⟩ := Option.map_eq_some_iff.mp hp
  rfl

theorem filter_helpUrl_docBlock (f : FunctionRecord) :
    (docBlock f).tags.filter (·.is helpUrlName) =
      if f.helpUrl = "" then [] else [⟨"helpurl", f.helpUrl⟩] := by
  have hmarker : Tag.is ⟨"customfunction", ""⟩ helpUrlName = false := by decide
  have hparams : (f.parameters.filterMap paramTag?).filter (·.is helpUrlName) = [] := by
    rw [List.filter_eq_nil_iff]
    intro t ht
    rw [Tag.is, name_of_mem_paramTags ht]
    decide
  have hhelp : foldCase "helpurl" == foldCase helpUrlName := by decide
  rw [docBlock, List.filter_cons_of_neg (by simp [hmarker]), List.filter_append, hparams,
    List.append_nil]
  split
  · rfl
  · simp [Tag.is, hhelp]

theorem filter_params_docBlock (f : FunctionRecord) :
    (docBlock f).tags.filter (·.name ∈ paramTagNames) = f.parameters.filterMap paramTag? := by
  have hparams : (f.parameters.filterMap paramTag?).filter (·.name ∈ paramTagNames) =
      f.parameters.filterMap paramTag? := by
    rw [List.filter_eq_self]
    intro t ht
    rw [name_of_mem_paramTags ht]
    decide
  rw [docBlock, List.filter_cons_of_neg (by decide), List.filter_append, hparams]
  split
  · rfl
  · simp [paramTagNames]

/-- The documentation of a record says what the record says. -/
theorem ofBlocks_docBlock {f : FunctionRecord} (h : IsDocumentable f) :
    Summary.ofBlocks [docBlock f] =
      { isCustomFunction := true
        helpUrl := f.helpUrl
        parameters := described f.parameters
        description := f.description } := by
  have hmarker : (docBlock f).tags.any (·.is markerName) = true := by
    rw [docBlock, List.any_cons]
    simp [show Tag.is ⟨"customfunction", ""⟩ markerName = true by decide]
  have hhelp : ((if f.helpUrl = "" then [] else [(⟨"helpurl", f.helpUrl⟩ : Tag)]).filterMap
      Tag.comment?).getLast?.getD "" = f.helpUrl := by
    split
    · next hempty => simp [hempty]
    · next hne => simp [Tag.comment?, nonempty?_toList hne]
  rw [Summary.ofBlocks, List.flatMap_singleton, if_pos hmarker, filter_helpUrl_docBlock, hhelp,
    filter_params_docBlock, map_described_paramTags h.parameterNames h.parameterDescriptions]
  rfl

theorem paramDescription?_cons (n : String) (p : ParameterRecord) (ps : List ParameterRecord) :
    Summary.paramDescription? { parameters := described (p :: ps) } n =
      (Summary.paramDescription? { parameters := described ps } n).or
        (if p.name = n then p.description else none) := by
  simp only [Summary.paramDescription?, described, List.findRev?_eq_find?_reverse]
  cases hd : p.description with
  | none => simp [hd]
  | some text =>
    by_cases hn : p.name = n
    · subst hn
      simp only [List.filterMap_cons, hd, Option.map_some, List.reverse_cons, List.find?_append,
        Option.map_or, if_true]
      simp
    · simp [hd, List.find?_append, hn]

theorem paramDescription?_eq_none {ps : List ParameterRecord} {n : String}
    (h : n ∉ ps.map ParameterRecord.name) :
    Summary.paramDescription? { parameters := described ps } n = none := by
  induction ps with
  | nil => rfl
  | cons p ps ih =>
    rw [List.map_cons, List.mem_cons, not_or] at h
    rw [paramDescription?_cons, ih h.2, if_neg (Ne.symm h.1)]
    rfl

/-- The description of a parameter is found under its name, if no two parameters share one. -/
theorem paramDescription?_described {ps : List ParameterRecord}
    (hnodup : (ps.map ParameterRecord.name).Nodup) {p : ParameterRecord} (hp : p ∈ ps) :
    Summary.paramDescription? { parameters := described ps } p.name = p.description := by
  induction ps with
  | nil => simp at hp
  | cons q ps ih =>
    rw [List.map_cons, List.nodup_cons] at hnodup
    rw [paramDescription?_cons]
    obtain rfl | hp := List.mem_cons.mp hp
    · rw [paramDescription?_eq_none hnodup.1, if_pos rfl, Option.none_or]
    · have hne : q.name ≠ p.name := fun heq => hnodup.1 (heq ▸ List.mem_map_of_mem hp)
      rw [ih hnodup.2 hp, if_neg hne, Option.or_none]

end ScriptManifest
