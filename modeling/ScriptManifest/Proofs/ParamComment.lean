import ScriptManifest.Doc.Summary
import ScriptManifest.Proofs.ParamTagForms

/-!
What is left for the comment of a parameter. The name in a bracket ends at the first bracket that
closes, so the end of a default with brackets of its own stays in the comment
(`default_ends_at_first_bracket`). A comment that begins with an inline reference has it in the place
of a type behind the name, and loses it unless a separator comes first
(`leading_reference_is_skipped`).
-/

namespace ScriptManifest.Doc

open Text

/-! ### What follows the name -/

theorem afterBraces_suffix (depth : Nat) (cs : List Char) : afterBraces depth cs <:+ cs := by
  fun_induction afterBraces depth cs with
  | case1 => exact List.suffix_rfl
  | case2 depth cs ih => exact ih.trans (List.suffix_cons _ _)
  | case3 cs => exact (List.dropWhile_suffix isBlank).trans (List.suffix_cons _ _)
  | case4 depth cs ih => exact ih.trans (List.suffix_cons _ _)
  | case5 depth c cs _ _ _ ih => exact ih.trans (List.suffix_cons _ _)

theorem skipType_suffix (cs : List Char) : skipType cs <:+ cs := by
  unfold skipType
  split
  · exact (afterBraces_suffix 0 _).trans (List.suffix_cons _ _)
  · exact List.suffix_rfl

theorem BehindType.suffix {text rest : List Char} (h : BehindType text rest) : rest <:+ text := by
  rw [← h.skipType_eq]
  exact (skipType_suffix _).trans (List.dropWhile_suffix isBlank)

theorem BehindType.trim_eq {text rest : List Char} (h : BehindType text rest)
    (htext : trimEnd text = text) : trim rest = rest := by
  have hend := trimEnd_eq_of_suffix h.suffix htext
  cases rest with
  | nil => rfl
  | cons c cs => exact trim_eq_of_ends (h.head? c rfl) hend

theorem trim_sublist (s : List Char) : (trim s).Sublist s := by
  have hend := trimEnd_prefix (trimStart s)
  exact hend.sublist.trans (List.dropWhile_sublist isBlank)

theorem trimEnd_spaced {c : Char} (hc : isBlank c = false) {comment : List Char}
    (hcomment : trim comment = comment) (hne : comment ≠ []) (s : List Char) :
    trimEnd (s ++ c :: ' ' :: comment) = s ++ c :: ' ' :: comment := by
  have hend := trimEnd_eq_of_trim_eq hcomment
  rw [trimEnd_append hc, trimEnd_blank_cons (by decide) hend, if_neg hne]

/-! ### Defaults -/

/-- A name that can be told from the default behind it. -/
structure IsDefaultedName (name : List Char) : Prop where
  nonempty : name ≠ []
  noBlank : ∀ c ∈ name, isBlank c = false
  noEquals : '=' ∉ name
  noBracket : ']' ∉ name

def defaultedText (name default comment : String) : String :=
  "[" ++ name ++ "=" ++ default ++ "] " ++ comment

/-- Whether the square brackets of a text match, with `depth` of them open in front of it. -/
def bracketsMatch : (depth : Nat) → List Char → Bool
  | depth, [] => depth == 0
  | depth, '[' :: cs => bracketsMatch (depth + 1) cs
  | 0, ']' :: _ => false
  | depth + 1, ']' :: cs => bracketsMatch depth cs
  | depth, _ :: cs => bracketsMatch depth cs

theorem count_of_bracketsMatch {depth : Nat} {s : List Char} (h : bracketsMatch depth s = true) :
    s.count ']' = depth + s.count '[' := by
  fun_induction bracketsMatch depth s with
  | case1 depth =>
    have hdepth : depth = 0 := by simpa using h
    simp [hdepth]
  | case2 depth cs ih =>
    rw [List.count_cons_of_ne (by decide), List.count_cons_self, ih h]
    omega
  | case3 => cases h
  | case4 depth cs ih =>
    rw [List.count_cons_self, List.count_cons_of_ne (by decide), ih h]
    omega
  | case5 depth c cs hopen hzero hclose ih =>
    have hne : c ≠ ']' := by
      cases depth with
      | zero => exact hzero rfl
      | succ depth => exact hclose depth rfl
    rw [List.count_cons_of_ne hne, List.count_cons_of_ne hopen, ih h]

theorem mem_bracket_iff_of_bracketsMatch {s : List Char} (h : bracketsMatch 0 s = true) :
    ']' ∈ s ↔ '[' ∈ s := by
  have hcount := count_of_bracketsMatch h
  rw [← List.count_pos_iff, ← List.count_pos_iff, hcount, Nat.zero_add]

theorem parse?_defaulted {text : String} {name front behind rest : List Char}
    (hname : IsDefaultedName name) (hfront : ']' ∉ front)
    (htext : text.toList = '[' :: (name ++ '=' :: front ++ ']' :: behind))
    (h : BehindType behind rest) :
    ParamTag.parse? text = some ⟨String.ofList name, nonempty? (trim rest)⟩ := by
  have hclose : ']' ∉ name ++ '=' :: front := by simp [hname.noBracket, hfront]
  have hname' := @trim_splitAtFirst_bracket [] name [] ('=' :: front) (by simp) (by simp)
    hname.noBlank hname.noEquals (by simp)
  simp only [List.nil_append, List.append_nil] at hname'
  have hskip : skipType (trimStart text.toList) = text.toList := by
    rw [htext]
    simp [trimStart, skipType, isBlank]
  have hread : nameAndRest? (skipType (trimStart text.toList)) = some (name, behind) := by
    rw [hskip, htext, nameAndRest?_bracket hclose, hname']
  rw [parse?_eq_some hname.nonempty hread, h.skipType_eq]

theorem BehindType.ne_comment {back comment rest : List Char}
    (h : BehindType (back ++ ']' :: ' ' :: comment) rest) (hne : comment ≠ []) :
    rest ≠ comment := by
  rintro rfl
  generalize htext : back ++ ']' :: ' ' :: rest = text at h
  have hcut : back ++ ']' :: ' ' :: rest = (back ++ [']'] ++ [' ']) ++ rest := by simp
  rw [hcut] at htext
  cases h with
  | @untyped gap _ hgap _ =>
    have hgap' := List.append_cancel_right htext
    exact not_mem_of_blank hgap (by decide : isBlank ']' = false) (by simp [← hgap'])
  | @typed gap type between _ hgap htype hbetween _ =>
    obtain ⟨inner, -, rfl⟩ := htype
    -- without the blanks at the end, one side ends in a bracket and the other one in a brace
    have hfront : back ++ [']'] ++ [' '] = (gap ++ '{' :: inner ++ ['}']) ++ between :=
      List.append_cancel_right (by simpa using htext)
    have htrim := congrArg trimEnd hfront
    rw [trimEnd_append_of_blank _ (by simp [isBlank]), trimEnd_append_of_blank _ hbetween,
      trimEnd_eq_self (by decide), trimEnd_eq_self (by decide)] at htrim
    have hlast := congrArg List.getLast? htrim
    rw [List.getLast?_concat, List.getLast?_concat] at hlast
    cases hlast
  | unclosed => exact hne rfl

section Defaulted

variable {name default comment : String} (hname : IsDefaultedName name.toList)
include hname

theorem parse?_defaultedText_of_mem {front back rest : List Char}
    (hsplit : default.toList = front ++ ']' :: back) (hfront : ']' ∉ front)
    (hrest : BehindType (back ++ ']' :: ' ' :: comment.toList) rest) :
    ParamTag.parse? (defaultedText name default comment) =
      some ⟨name, nonempty? (trim rest)⟩ := by
  have htext : (defaultedText name default comment).toList =
      '[' :: (name.toList ++ '=' :: front ++ ']' :: (back ++ ']' :: ' ' :: comment.toList)) := by
    simp [defaultedText, hsplit]
  rw [parse?_defaulted hname hfront htext hrest, String.ofList_toList]

theorem parse?_defaultedText_of_not_mem (hcomment : IsParamComment comment.toList)
    (hne : comment ≠ "") (hfree : ']' ∉ default.toList) :
    ParamTag.parse? (defaultedText name default comment) = some ⟨name, some comment⟩ := by
  have htext : (defaultedText name default comment).toList =
      '[' :: (name.toList ++ '=' :: default.toList ++ ']' :: ([' '] ++ comment.toList)) := by
    simp [defaultedText]
  have hstart : ∀ c ∈ comment.toList.head?, isBlank c = false ∧ c ≠ '{' := by
    intro c hc
    refine ⟨hcomment.head? c hc, ?_⟩
    rintro rfl
    exact hcomment.noType hc
  rw [parse?_defaulted hname hfree htext (.untyped (by simp [isBlank]) hstart), hcomment.trimmed]
  simp [nonempty?, hne]

theorem parse?_defaultedText_ne (hcomment : IsParamComment comment.toList) (hne : comment ≠ "")
    (hmem : ']' ∈ default.toList) :
    ParamTag.parse? (defaultedText name default comment) ≠ some ⟨name, some comment⟩ := by
  obtain ⟨front, back, hsplit, hfront⟩ := List.eq_append_cons_of_mem hmem
  obtain ⟨rest, hrest⟩ := exists_behindType (back ++ ']' :: ' ' :: comment.toList)
  have hne' : comment.toList ≠ [] := by simpa using hne
  have hend := trimEnd_spaced (by decide : isBlank ']' = false) hcomment.trimmed hne' back
  rw [parse?_defaultedText_of_mem hname hsplit hfront hrest, hrest.trim_eq hend]
  intro hread
  simp only [nonempty?, Option.some.injEq, ParamTag.mk.injEq, true_and,
    Option.ite_none_left_eq_some] at hread
  refine hrest.ne_comment hne' ?_
  rw [← hread.2, String.toList_ofList]

end Defaulted

/-- A default whose brackets match is left out as a whole only if it has none. Otherwise the bracket
of the name is closed inside of it, and the comment is what is left of the text from there on. -/
theorem default_ends_at_first_bracket {name default comment : String}
    (hname : IsDefaultedName name.toList) (hdefault : bracketsMatch 0 default.toList = true)
    (hcomment : IsParamComment comment.toList) (hne : comment ≠ "") :
    (ParamTag.parse? (defaultedText name default comment) = some ⟨name, some comment⟩ ↔
      '[' ∉ default.toList) ∧
    ∀ front back rest, default.toList = front ++ ']' :: back → ']' ∉ front →
      BehindType (back ++ ']' :: ' ' :: comment.toList) rest →
      ParamTag.parse? (defaultedText name default comment) =
        some ⟨name, nonempty? (trim rest)⟩ := by
  refine ⟨?_, fun front back rest => parse?_defaultedText_of_mem hname⟩
  rw [← mem_bracket_iff_of_bracketsMatch hdefault]
  constructor
  · intro hread hmem
    exact parse?_defaultedText_ne hname hcomment hne hmem hread
  · exact parse?_defaultedText_of_not_mem hname hcomment hne

/-- A default of two rows: the name ends with the first of them. -/
theorem default_ends_at_first_bracket_rows :
    bracketsMatch 0 "[[1, 2], [3]]".toList = true ∧
    ParamTag.parse? "[m=[[1, 2], [3]]] rows" = some ⟨"m", some ", [3]]] rows"⟩ ∧
    ParamTag.parse? "[m=[[1, 2], [3]]] rows" ≠ some ⟨"m", some "rows"⟩ := by
  have hname : IsDefaultedName "m".toList := ⟨by decide, by simp [isBlank], by decide, by decide⟩
  have hcomment : IsParamComment "rows".toList := ⟨by decide, by decide⟩
  have hmatch : bracketsMatch 0 "[[1, 2], [3]]".toList = true := by decide
  have hread := default_ends_at_first_bracket hname hmatch hcomment (by decide)
  have hrest : BehindType ", [3]]] rows".toList ", [3]]] rows".toList :=
    @BehindType.untyped [] (',' :: " [3]]] rows".toList) (by simp) (by simp [isBlank])
  refine ⟨hmatch, ?_, fun heq => hread.1.mp heq (by decide)⟩
  exact hread.2 "[[1, 2".toList ", [3]]".toList ", [3]]] rows".toList (by decide) (by decide) hrest

/-- Behind an empty list as the default, the bracket that closes the name is read as the comment's
first character. -/
theorem bracketed_default_leaks :
    bracketsMatch 0 "[]".toList = true ∧
    ParamTag.parse? (defaultedText "x" "[]" "y") = some ⟨"x", some "] y"⟩ ∧
    ParamTag.parse? (defaultedText "x" "[]" "y") ≠ some ⟨"x", some "y"⟩ := by
  decide

/-! ### Inline references -/

/-- A reference inside of a text: braces that start with `@` and a word, whatever follows it. -/
def IsInlineReference (reference : List Char) : Prop :=
  ∃ word body, word ≠ [] ∧ (∀ c ∈ word, isBlank c = false) ∧ (∀ c ∈ body.head?, isBlank c = true) ∧
    reference = '{' :: '@' :: (word ++ body ++ ['}'])

theorem nested_of_noBraces {s : List Char} (h : ∀ c ∈ s, c ≠ '{' ∧ c ≠ '}') : Nested s := by
  induction s with
  | nil => exact .nil
  | cons c s ih =>
    rw [List.forall_mem_cons] at h
    exact .char h.1.1 h.1.2 (ih h.2)

theorem length_cleanDescription_le (comment : String) :
    (cleanDescription comment).toList.length ≤ comment.toList.length := by
  rw [cleanDescription, String.toList_ofList]
  refine (trim_sublist _).length_le.trans ?_
  split
  · next rest heq => simp [heq]
  · exact Nat.le_refl _

theorem length_described_le (name : String) (rest : List Char) :
    (ParamTag.described ⟨name, nonempty? (trim rest)⟩).2.toList.length ≤ rest.length := by
  have htrim := (trim_sublist rest).length_le
  have hclean := length_cleanDescription_le (String.ofList (trim rest))
  rw [String.toList_ofList] at hclean
  rw [ParamTag.described, nonempty?]
  split
  · simp
  · simpa using hclean.trans htrim

theorem BehindType.length_lt {cs rest : List Char} (h : BehindType ('{' :: cs) rest) :
    rest.length < ('{' :: cs).length := by
  have hskip : skipType (trimStart ('{' :: cs)) = afterBraces 0 cs := by
    simp [trimStart, skipType, isBlank]
  have hle := (afterBraces_suffix 0 cs).length_le
  rw [← h.skipType_eq, hskip, List.length_cons]
  omega

theorem behindType_typed {type : List Char} (htype : IsTypeExpression type) (tail : List Char) :
    BehindType (type ++ tail) (trimStart tail) := by
  have hcut : type ++ tail = [] ++ (type ++ (tail.takeWhile isBlank ++ trimStart tail)) := by
    simp [trimStart, List.takeWhile_append_dropWhile]
  rw [hcut]
  exact .typed (by simp) htype (fun c hc => List.mem_takeWhile_imp hc)
    fun c hc => isBlank_of_mem_head?_dropWhile hc

section Named

variable {name comment : String} (hname : IsParamName name.toList)
include hname

theorem parse?_named {rest : List Char} (h : BehindType comment.toList rest) :
    ParamTag.parse? (name ++ " " ++ comment) = some ⟨name, nonempty? (trim rest)⟩ := by
  obtain ⟨c, cs, hcons, hblank, hbrace⟩ := NamePart.plain.exists_cons hname
  have hspace : isBlank ' ' = true := by decide
  have htext : (name ++ " " ++ comment).toList = name.toList ++ ' ' :: comment.toList := by simp
  have hstart : trimStart (name.toList ++ ' ' :: comment.toList) =
      name.toList ++ ' ' :: comment.toList := by
    rw [hcons, List.cons_append, trimStart, List.dropWhile_cons_of_neg (by simp [hblank])]
  have hskip : skipType (name.toList ++ ' ' :: comment.toList) =
      name.toList ++ ' ' :: comment.toList := by
    refine skipType_of_head? ?_
    rw [hcons]
    simpa using hbrace
  have hread : nameAndRest? (skipType (trimStart (name ++ " " ++ comment).toList)) =
      some (name.toList, ' ' :: comment.toList) := by
    rw [htext, hstart, hskip]
    exact NamePart.plain.nameAndRest? hname (by simp [hspace])
  rw [parse?_eq_some hname.nonempty hread, trimStart, List.dropWhile_cons_of_pos hspace,
    ← trimStart, h.skipType_eq, String.ofList_toList]

theorem described_separated (hcomment : trim comment.toList = comment.toList) (hne : comment ≠ "") :
    (ParamTag.parse? (name ++ " - " ++ comment)).map ParamTag.described = some (name, comment) := by
  have hdash : isBlank '-' = false := by decide
  have hlist : ("- " ++ comment).toList = '-' :: ' ' :: comment.toList := by simp
  have htrim : trim ("- " ++ comment).toList = ("- " ++ comment).toList := by
    rw [hlist]
    exact trim_eq_of_ends hdash (trimEnd_spaced hdash hcomment (by simpa using hne) [])
  have hbehind : BehindType ("- " ++ comment).toList ("- " ++ comment).toList := by
    rw [hlist]
    exact @BehindType.untyped [] ('-' :: ' ' :: comment.toList) (by simp) (by simp [hdash])
  have hassoc : name ++ " - " ++ comment = name ++ " " ++ ("- " ++ comment) := by
    rw [← String.toList_inj]
    simp
  rw [hassoc, parse?_named hname hbehind, htrim]
  simp [nonempty?, ParamTag.described, cleanDescription, trim_cons_of_blank, isBlank, hcomment]

theorem described_ne {cs : List Char} (hbrace : comment.toList = '{' :: cs) :
    (ParamTag.parse? (name ++ " " ++ comment)).map ParamTag.described ≠ some (name, comment) := by
  obtain ⟨rest, hrest⟩ := exists_behindType comment.toList
  rw [parse?_named hname hrest]
  intro heq
  have hle := length_described_le name rest
  rw [hbrace] at hrest
  have hlt := hrest.length_lt
  rw [Option.map_some, Option.some.injEq] at heq
  rw [heq, hbrace] at hle
  omega

end Named

/-- An inline reference behind the name is skipped like a type, with all that its braces hold, and
the description is never the one that the same comment gives behind a separator. -/
theorem leading_reference_is_skipped {name reference tail : String}
    (hname : IsParamName name.toList) (hreference : IsInlineReference reference.toList)
    (htrim : trim (reference ++ tail).toList = (reference ++ tail).toList) :
    (∀ rest, BehindType (reference ++ tail).toList rest →
      ParamTag.parse? (name ++ " " ++ (reference ++ tail)) = some ⟨name, nonempty? (trim rest)⟩) ∧
    (IsTypeExpression reference.toList →
      ParamTag.parse? (name ++ " " ++ (reference ++ tail)) =
        some ⟨name, nonempty? (trim tail.toList)⟩) ∧
    (ParamTag.parse? (name ++ " - " ++ (reference ++ tail))).map ParamTag.described =
      some (name, reference ++ tail) ∧
    (ParamTag.parse? (name ++ " " ++ (reference ++ tail))).map ParamTag.described ≠
      some (name, reference ++ tail) := by
  obtain ⟨word, body, -, -, -, hbraces⟩ := hreference
  have hcons : (reference ++ tail).toList =
      '{' :: ('@' :: (word ++ body ++ ['}']) ++ tail.toList) := by simp [hbraces]
  have hne : reference ++ tail ≠ "" := by
    intro heq
    simp [heq] at hcons
  refine ⟨fun rest => parse?_named hname, fun htype => ?_, described_separated hname htrim hne,
    described_ne hname hcons⟩
  have hbehind := behindType_typed htype tail.toList
  rw [← String.toList_append] at hbehind
  have hidem : trim (trimStart tail.toList) = trim tail.toList := by
    rw [trim, trimStart, trimStart, List.dropWhile_idempotent]
    rfl
  rw [parse?_named hname hbehind, hidem]

/-- A link in front of a comment with a dash of its own. -/
theorem leading_reference_is_skipped_link :
    ParamTag.parse? "x \x7b@link Ledger\x7d - its rows" = some ⟨"x", some "- its rows"⟩ ∧
    (ParamTag.parse? "x - \x7b@link Ledger\x7d - its rows").map ParamTag.described =
      some ("x", "\x7b@link Ledger\x7d - its rows") ∧
    (ParamTag.parse? "x \x7b@link Ledger\x7d - its rows").map ParamTag.described ≠
      some ("x", "\x7b@link Ledger\x7d - its rows") := by
  have hname : IsParamName "x".toList := ⟨by decide, by simp [isBlank], by decide, by decide⟩
  have hreference : IsInlineReference "\x7b@link Ledger\x7d".toList :=
    ⟨"link".toList, " Ledger".toList, by decide, by simp [isBlank], by simp [isBlank], by decide⟩
  have htype : IsTypeExpression "\x7b@link Ledger\x7d".toList :=
    ⟨"@link Ledger".toList, nested_of_noBraces (by simp), by decide⟩
  have htrim : trim ("\x7b@link Ledger\x7d" ++ " - its rows").toList =
      ("\x7b@link Ledger\x7d" ++ " - its rows").toList := by decide
  obtain ⟨-, hskipped, hseparated, hne⟩ := leading_reference_is_skipped hname hreference htrim
  exact ⟨hskipped htype, hseparated, hne⟩

/-- A comment that is a link and nothing else is lost. -/
theorem linked_comment_is_lost :
    IsInlineReference "\x7b@link y\x7d".toList ∧
    ParamTag.parse? "x \x7b@link y\x7d" = some ⟨"x", none⟩ ∧
    ParamTag.parse? "x \x7b@link y\x7d" ≠ some ⟨"x", some "\x7b@link y\x7d"⟩ ∧
    (ParamTag.parse? "x - \x7b@link y\x7d").map ParamTag.described =
      some ("x", "\x7b@link y\x7d") := by
  have hreference : IsInlineReference "\x7b@link y\x7d".toList :=
    ⟨"link".toList, " y".toList, by decide, by simp [isBlank], by simp [isBlank], by decide⟩
  refine ⟨hreference, ?_⟩
  decide

end ScriptManifest.Doc
