import ScriptManifest.Proofs.AllOrNothing
import ScriptManifest.Proofs.CommentLines
import ScriptManifest.Proofs.DeclarationAnalysis
import ScriptManifest.Proofs.LexemeStability
import ScriptManifest.Proofs.SignatureOrigin
import ScriptManifest.Proofs.TypeLanguage
import Mathlib.Algebra.Ring.Nat

/-!
The console text, line by line. A skipped declaration takes one line, for its name is a word of the
source (`newline_not_mem_shownName`). An error takes as many lines as the text that it quotes from a
type annotation: one if that text stands on one line, and more if it does not
(`errors_take_lines_of_quoted_types`).
-/

namespace ScriptManifest

open Doc Manifest Source Text

/-! ### Words stand on one line -/

namespace Source

theorem newline_not_mem_name (inEscape : Bool) (cs : List Char) :
    '\n' ∉ cs.take (nameLength inEscape cs) := by
  fun_induction nameLength inEscape cs with
  | case1 => simp
  | case2 cs ih => simpa [Nat.add_comm 1] using ih
  | case3 c cs hc hx ih =>
    have hne : c ≠ '\n' := by rintro rfl; cases hx
    simpa [Nat.add_comm 1, Ne.symm hne] using ih
  | case4 => simp
  | case5 cs ih => simpa [Nat.add_comm 3] using ih
  | case6 cs hno ih => simpa [Nat.add_comm 2] using ih
  | case7 c cs h1 h2 hname ih =>
    have hne : c ≠ '\n' := by rintro rfl; cases hname
    simpa [Nat.add_comm 1, Ne.symm hne] using ih
  | case8 => simp

theorem one_le_nameLength {c : Char} {cs : List Char}
    (h : (isNameStart c || (c = '\\' && cs.head? = some 'u')) = true) :
    1 ≤ nameLength false (c :: cs) := by
  simp only [Bool.or_eq_true, Bool.and_eq_true, decide_eq_true_eq] at h
  obtain hstart | ⟨rfl, hu⟩ := h
  · have hname : isNameChar c = true := (Bool.and_eq_true_iff.mp hstart).1
    have hc : c ≠ '\\' := by rintro rfl; cases hname
    rw [nameLength_cons hc, if_pos hname]
    omega
  · obtain ⟨rest, rfl⟩ := List.head?_eq_some_iff.mp hu
    cases rest with
    | nil => decide
    | cons d rest =>
      by_cases hd : d = '{'
      · rw [hd, nameLength]
        omega
      · rw [nameLength_escape hd]
        omega

theorem newline_not_mem_of_nextInCode {d : Dialect} {p : Place} {cs : List Char} {n : Nat}
    (h : p.nextInCode d cs = (.word, n)) : '\n' ∉ cs.take (max n 1) := by
  obtain ⟨c, rest, rfl, hc⟩ := exists_cons_of_nextInCode h (by decide)
  rw [nextInCode_cons hc] at h
  iterate 3 replace h := eq_of_ite_kind (by decide) h
  split at h
  · next hname =>
    cases h
    rw [Nat.max_eq_left (one_le_nameLength hname)]
    exact newline_not_mem_name false (c :: rest)
  · -- behind the words no other kind of lexeme is one
    iterate 6 replace h := eq_of_ite_kind (by decide) h
    cases h

theorem newline_not_mem_of_next {d : Dialect} {p : Place} {cs : List Char} {n : Nat}
    (h : p.next d cs = (.word, n)) : '\n' ∉ cs.take (max n 1) := by
  unfold Place.next at h
  split at h
  · unfold nextInTemplate at h
    repeat' split at h
    all_goals cases h
  · split at h
    · cases h
    · unfold nextInTag at h
      repeat' split at h
      all_goals cases h
  · unfold nextInContent at h
    split at h
    all_goals cases h
  · exact newline_not_mem_of_nextInCode h

theorem newline_not_mem_of_mem_lexemesFrom {d : Dialect} {fuel : Nat} {p : Place} {cs : List Char}
    {x : Lexeme} (h : x ∈ lexemesFrom d fuel p cs) (hx : x.kind = .word) : '\n' ∉ x.text.toList := by
  induction fuel generalizing p cs with
  | zero => cases h
  | succ fuel ih =>
    cases cs with
    | nil => cases h
    | cons c cs =>
      rw [lexemesFrom] at h
      obtain rfl | h := List.mem_cons.mp h
      · rw [String.toList_ofList]
        exact newline_not_mem_of_next (Prod.ext hx rfl)
      · exact ih h

theorem newline_not_mem_of_mem_tokensOf {d : Dialect} {source : String} {t : Token}
    (h : t ∈ tokensOf d source) (ht : t.kind = .word) : '\n' ∉ t.text.toList := by
  obtain ⟨hmem, -⟩ := lexeme_of_mem_ofLexemesAfter h
  unfold lexemes at hmem
  dsimp only at hmem
  split at hmem
  · obtain heq | hmem := List.mem_cons.mp hmem
    · rw [Lexeme.mk.injEq] at heq
      rw [ht] at heq
      cases heq.1
    · exact newline_not_mem_of_mem_lexemesFrom hmem ht
  · exact newline_not_mem_of_mem_lexemesFrom hmem ht

end Source

theorem newline_not_mem_shownName {source path : String} {d : Documented}
    (h : d ∈ topLevelDeclarations source path) : '\n' ∉ d.shownName.toList := by
  obtain ⟨x, hx, rfl⟩ := List.mem_map.mp h
  rw [Documented.shownName]
  cases hname : (Declaration.documented x).signature.name with
  | none => decide
  | some name =>
    obtain ⟨ts, r, hts, hr, hsignature⟩ := exists_readSignature_of_mem_topLevel hx
    have hread : r.signature.name = some name := by
      rw [hsignature]
      exact hname
    obtain ⟨t, ht, hword, rfl⟩ := exists_token_of_readSignature hr hread
    exact newline_not_mem_of_mem_tokensOf (hts.subset ht) hword

/-! ### Errors that quote a type -/

/-- A type that stands in another one: the type itself, or what stands in its element or in one of its
type arguments. -/
inductive DeclaredType.StandsIn : DeclaredType → DeclaredType → Prop
  | self (a : DeclaredType) : StandsIn a a
  | element {a e : DeclaredType} (h : StandsIn a e) (text : String) : StandsIn a (.array e text)
  | argument {a b : DeclaredType} {args : List DeclaredType} (hb : b ∈ args) (h : StandsIn a b)
    (name text : String) : StandsIn a (.named name args text)

/-- The errors that quote an annotation, each with what it quotes: the name of a type in it, or the
text of one. -/
inductive Quotes (a : DeclaredType) : ShapeError → String → Prop
  | reference {name : String} {args : List DeclaredType} {text : String}
    (h : DeclaredType.StandsIn (.named name args text) a) : Quotes a (.invalidType name) name
  | argument {b : DeclaredType} (h : DeclaredType.StandsIn b a) :
    Quotes a (.invalidTypeArray b.text) b.text
  | element {b : DeclaredType} (h : DeclaredType.StandsIn b a) :
    Quotes a (.invalidArrayTypeNode b.text) b.text

theorem Quotes.mono {a b : DeclaredType} {e : ShapeError} {text : String} (h : Quotes a e text)
    (hab : ∀ c, DeclaredType.StandsIn c a → DeclaredType.StandsIn c b) : Quotes b e text := by
  cases h with
  | reference h => exact .reference (hab _ h)
  | argument h => exact .argument (hab _ h)
  | element h => exact .element (hab _ h)

theorem newline_not_mem_ofList {cs : List Char} (h : '\n' ∉ cs) :
    '\n' ∉ (String.ofList cs).toList := by
  rwa [String.toList_ofList]

theorem newline_mem_append_iff {start : String} (hstart : '\n' ∉ start.toList) (text : String) :
    '\n' ∈ (start ++ text).toList ↔ '\n' ∈ text.toList := by
  rw [String.toList_append, List.mem_append, or_iff_right hstart]

theorem Quotes.newline_mem_iff {a : DeclaredType} {e : ShapeError} {text : String}
    (h : Quotes a e text) : '\n' ∈ e.message.toList ↔ '\n' ∈ text.toList := by
  cases h with
  | reference h => exact newline_mem_append_iff (by decide) _
  | argument h => exact newline_mem_append_iff (by decide) _
  | element h => exact newline_mem_append_iff (by decide) _

theorem quotes_of_mapping {a : DeclaredType} {e : ShapeError} (h : a.mapping = .error e) :
    e = .unmappedType ∨ ∃ text, Quotes a e text := by
  cases DeclaredType.mapping_eq_error_iff.mp h with
  | reference h args text => exact .inr ⟨_, .reference (.self _)⟩
  | argument h hno text => exact .inr ⟨_, .argument (.argument (by simp) (.self _) _ _)⟩
  | row h text => exact .inr ⟨_, .element (.element (.self _) _)⟩
  | _ => exact .inl rfl

def Source.Signature.annotations (s : Signature) : List DeclaredType :=
  s.parameters.filterMap (·.declaredType) ++ s.result.toList

/-- An error of a signature breaks its line only with what it quotes of an annotation. -/
def BreaksWithQuote (s : Signature) (error : String) : Prop :=
  '\n' ∈ error.toList → ∃ a ∈ s.annotations, ∃ e text, Quotes a e text ∧ error = e.message ∧
    '\n' ∈ text.toList

theorem breaksWithQuote_of_mapping {s : Signature} {a b : DeclaredType} (hb : b ∈ s.annotations)
    (hab : ∀ c, DeclaredType.StandsIn c a → DeclaredType.StandsIn c b) {error : String}
    (h : error ∈ errorTexts a.mapping) : BreaksWithQuote s error := by
  intro hnewline
  cases hmapping : a.mapping with
  | ok m => simp [hmapping, errorTexts] at h
  | error e =>
    rw [hmapping, errorTexts, List.mem_singleton] at h
    subst h
    obtain rfl | ⟨text, hquotes⟩ := quotes_of_mapping hmapping
    · exact absurd hnewline (by decide)
    · exact ⟨b, hb, e, text, hquotes.mono hab, rfl, hquotes.newline_mem_iff.mp hnewline⟩

theorem standsIn_of_typeArguments {h a : DeclaredType} (ha : a ∈ h.typeArguments) (c : DeclaredType)
    (hc : DeclaredType.StandsIn c a) : DeclaredType.StandsIn c h := by
  cases h with
  | named name args text => exact .argument ha hc name text
  | _ => cases ha

theorem newline_not_mem_message_of_streaming {e : ShapeError}
    (h : e = .streamingHandlerArity ∨ e = .streamingReturnType) : '\n' ∉ e.message.toList := by
  -- either message is put together from two literal texts
  obtain rfl | rfl := h
  all_goals
    refine mt (newline_mem_append_iff (newline_not_mem_ofList ?_) _).mp (newline_not_mem_ofList ?_)
    all_goals decide

theorem breaksWithQuote_of_handler {s : Signature} {h : DeclaredType} (hh : h ∈ s.annotations)
    {declared : Option DeclaredType} {error : String}
    (herror : error ∈ errorTexts (resolveStreaming h declared)) : BreaksWithQuote s error := by
  unfold resolveStreaming at herror
  split at herror
  · next result hargs =>
    split at herror
    · obtain rfl := List.mem_singleton.mp herror
      exact fun hnewline => (newline_not_mem_message_of_streaming (.inr rfl) hnewline).elim
    · exact breaksWithQuote_of_mapping hh
        (standsIn_of_typeArguments (by simp [hargs])) herror
  · obtain rfl := List.mem_singleton.mp herror
    exact fun hnewline => (newline_not_mem_message_of_streaming (.inl rfl) hnewline).elim

theorem standsIn_of_async {a b : DeclaredType} (h : a.async? = some b) (c : DeclaredType)
    (hc : DeclaredType.StandsIn c b) : DeclaredType.StandsIn c a := by
  unfold DeclaredType.async? DeclaredType.onlyArgumentOf? at h
  split at h
  · split at h
    · cases h
      exact .argument (List.mem_singleton_self _) hc _ _
    · cases h
  · cases h

theorem breaksWithQuote_of_return {s : Signature} {error : String}
    (herror : error ∈ errorTexts (resolveReturn s.result)) : BreaksWithQuote s error := by
  cases hresult : s.result with
  | none => simp [hresult, resolveReturn, errorTexts] at herror
  | some a =>
    have ha : a ∈ s.annotations := by simp [Signature.annotations, hresult]
    rw [hresult, resolveReturn] at herror
    cases hasync : a.async? with
    | none => exact breaksWithQuote_of_mapping ha (fun _ hc => hc) (by simpa [hasync] using herror)
    | some b =>
      exact breaksWithQuote_of_mapping ha (standsIn_of_async hasync) (by simpa [hasync] using herror)

theorem breaksWithQuote_of_parameter {s : Signature} {p : Parameter} (hp : p ∈ s.parameters)
    {error : String} (herror : error ∈ errorTexts (resolveType p.declaredType)) :
    BreaksWithQuote s error := by
  cases htype : p.declaredType with
  | none => simp [htype, resolveType, errorTexts] at herror
  | some a =>
    have ha : a ∈ s.annotations :=
      List.mem_append_left _ (List.mem_filterMap.mpr ⟨p, hp, htype⟩)
    rw [htype, resolveType] at herror
    exact breaksWithQuote_of_mapping ha (fun _ hc => hc) herror

theorem HandlerSplit.mem_parameters {all ps : List Parameter} {handler : Option DeclaredType}
    (h : HandlerSplit all ps handler) :
    (∀ p ∈ ps, p ∈ all) ∧ ∀ a, handler = some a → ∃ p ∈ all, p.declaredType = some a := by
  cases h with
  | streaming hp h ps =>
    refine ⟨fun _ => List.mem_append_left _, ?_⟩
    rintro a ⟨⟩
    exact ⟨_, by simp, hp⟩
  | plain h => exact ⟨fun _ hp => hp, by simp⟩

theorem breaksWithQuote_of_mem_signatureErrors {s : Signature} {ps : List Parameter}
    {handler : Option DeclaredType} (hsplit : HandlerSplit s.parameters ps handler) {error : String}
    (herror : error ∈ signatureErrors ps handler s.result) : BreaksWithQuote s error := by
  have hparts := hsplit.mem_parameters
  obtain hparameter | hresult := List.mem_append.mp herror
  · obtain ⟨p, hp, herror⟩ := List.mem_flatMap.mp hparameter
    exact breaksWithQuote_of_parameter (hparts.1 p hp) herror
  · cases handler with
    | none => exact breaksWithQuote_of_return hresult
    | some a =>
      obtain ⟨p, hp, ha⟩ := hparts.2 a rfl
      refine breaksWithQuote_of_handler ?_ hresult
      exact List.mem_append_left _ (List.mem_filterMap.mpr ⟨p, hp, ha⟩)

theorem Documented.breaksWithQuote_of_mem_errors {d : Documented} {error : String}
    (h : error ∈ d.outcome.errors) : d.isMarked = true ∧ BreaksWithQuote d.signature error := by
  obtain ⟨o, ho⟩ := d.exists_analysed
  rw [ho.outcome_eq] at h
  cases ho with
  | skipped hmark => cases h
  | nameless hmark hname =>
    obtain rfl := List.mem_singleton.mp h
    exact ⟨hmark, fun hnewline => absurd hnewline (by decide)⟩
  | failed hmark hname hsplit herrors => exact ⟨hmark, breaksWithQuote_of_mem_signatureErrors hsplit h⟩
  | accepted hmark hname hsplit herrors hf => cases h

/-! ### The lines of a text -/

namespace Text

def endedLines (text : String) : List String := (lines text.toList).dropLast.map String.ofList

theorem lines_append_cons_newline (s rest : List Char) :
    lines (s ++ '\n' :: rest) = lines s ++ lines rest := by
  simp only [lines_eq_splitOn, List.splitOn]
  rw [List.splitOnP_append_cons _ _ (by simp)]

theorem lines_consoleText (ls : List String) :
    lines (consoleText ls).toList = ls.flatMap (fun l => lines l.toList) ++ [[]] := by
  induction ls with
  | nil => rfl
  | cons l ls ih =>
    have hcons : (consoleText (l :: ls)).toList = l.toList ++ '\n' :: (consoleText ls).toList := by
      simp [consoleText, String.join_cons]
    rw [hcons, lines_append_cons_newline, ih, List.flatMap_cons, List.append_assoc]

theorem endedLines_consoleText (ls : List String) :
    endedLines (consoleText ls) = ls.flatMap fun l => (lines l.toList).map String.ofList := by
  rw [endedLines, lines_consoleText, List.dropLast_concat, List.map_flatMap]

theorem length_lines (s : List Char) : (lines s).length = s.count '\n' + 1 := by
  induction s with
  | nil => rfl
  | cons c s ih =>
    rw [lines]
    by_cases hc : c = '\n'
    · simp [hc, ih]
    · cases hs : lines s with
      | nil => exact absurd hs (lines_ne_nil s)
      | cons l ls => simpa [hc, hs] using ih

theorem map_ofList_lines {s : String} (h : '\n' ∉ s.toList) :
    (lines s.toList).map String.ofList = [s] := by
  rw [lines_of_not_mem h, List.map_singleton, String.ofList_toList]

theorem endedLines_consoleText_of_not_mem {ls : List String} (h : ∀ l ∈ ls, '\n' ∉ l.toList) :
    endedLines (consoleText ls) = ls := by
  rw [endedLines_consoleText]
  calc ls.flatMap (fun l => (lines l.toList).map String.ofList)
      = ls.flatMap fun l => [l] := List.flatMap_congr fun l hl => map_ofList_lines (h l hl)
    _ = ls := by simp

theorem length_flatMap_lines (ls : List String) :
    (ls.flatMap fun l => (lines l.toList).map String.ofList).length =
      ls.length + (ls.map fun l => l.toList.count '\n').sum := by
  induction ls with
  | nil => rfl
  | cons l ls ih =>
    rw [List.flatMap_cons, List.length_append, ih, List.length_map, length_lines]
    simp only [List.length_cons, List.map_cons, List.sum_cons]
    omega

end Text

/-! ### The lines of a report -/

/-- How a report on the script at a path is read back from the lines of its console text. -/
structure ReadsBack (r : Report) (path : String) : Prop where
  /-- A success takes a line, and the skipped names a heading and a line each. -/
  success : r.errors = [] →
    endedLines (r.console path) =
      ("functions.json created for file: " ++ path) ::
        if r.skipped = [] then [] else "The following functions were skipped." :: r.skipped
  /-- A failure takes a line, and then every error the lines of its text. -/
  failure : r.errors ≠ [] →
    endedLines (r.console path) =
      ("There was one of more errors. We couldn't parse your file: " ++ path) ::
        r.errors.flatMap fun e => (lines e.toList).map String.ofList
  /-- The lines after the first are as many as the errors and the line feeds in them. -/
  count : r.errors ≠ [] →
    (endedLines (r.console path)).length =
      1 + r.errors.length + (r.errors.map fun e => e.toList.count '\n').sum
  /-- The lines after the first are the errors if and only if no error has a line feed. -/
  oneLineEach : r.errors ≠ [] →
    ((endedLines (r.console path)).tail = r.errors ↔ ∀ e ∈ r.errors, '\n' ∉ e.toList)

theorem readsBack_of_names {r : Report} {path : String} (hpath : '\n' ∉ path.toList)
    (hskipped : ∀ name ∈ r.skipped, '\n' ∉ name.toList) : ReadsBack r path := by
  have hfailure : r.errors ≠ [] → endedLines (r.console path) =
      ("There was one of more errors. We couldn't parse your file: " ++ path) ::
        r.errors.flatMap fun e => (lines e.toList).map String.ofList := by
    intro h
    rw [console_of_errors h, endedLines_consoleText, List.flatMap_cons, map_ofList_lines,
      List.singleton_append]
    exact fun hnewline => hpath ((newline_mem_append_iff (by decide +kernel) path).mp hnewline)
  have hcount : r.errors ≠ [] → (endedLines (r.console path)).length =
      1 + r.errors.length + (r.errors.map fun e => e.toList.count '\n').sum := by
    intro h
    rw [hfailure h, List.length_cons, length_flatMap_lines]
    omega
  refine ⟨fun h => ?_, hfailure, hcount, fun h => ⟨fun htail e he => ?_, fun hone => ?_⟩⟩
  · rw [console_of_success h]
    refine endedLines_consoleText_of_not_mem fun l hl => ?_
    obtain rfl | hl := List.mem_cons.mp hl
    · exact fun hnewline => hpath ((newline_mem_append_iff (by decide +kernel) path).mp hnewline)
    split at hl
    · cases hl
    · obtain rfl | hl := List.mem_cons.mp hl
      · decide +kernel
      · exact hskipped l hl
  · -- a line feed in an error would make the lines more than the errors
    have hlength := hcount h
    rw [← List.length_tail_add_one _ (by rw [hfailure h]; simp), htail] at hlength
    have hsum : (r.errors.map fun e => e.toList.count '\n').sum = 0 := by omega
    exact List.count_eq_zero.mp (List.sum_eq_zero_iff_forall_eq_nat.mp hsum _ (List.mem_map_of_mem he))
  · rw [hfailure h, List.tail_cons, ← endedLines_consoleText, endedLines_consoleText_of_not_mem hone]

/-- The console text of a report is read back line by line, but for the errors that quote a type
written over several lines: every error with a line feed in it is one of a marked declaration, and
the line feed stands in what it quotes of a type annotation. -/
theorem errors_take_lines_of_quoted_types (source path : String) (hpath : '\n' ∉ path.toList) :
    ReadsBack (extract source path) path ∧
      ∀ error ∈ (extract source path).errors, '\n' ∈ error.toList →
        ∃ d ∈ topLevelDeclarations source path, d.isMarked = true ∧
          ∃ a ∈ d.signature.annotations, ∃ e text, Quotes a e text ∧ error = e.message ∧
            '\n' ∈ text.toList := by
  have haccounts := accounts_reportOn (topLevelDeclarations source path)
  rw [← extract_eq_reportOn] at haccounts
  refine ⟨readsBack_of_names hpath fun name hname => ?_, fun error herror hnewline => ?_⟩
  · rw [haccounts.skipped] at hname
    obtain ⟨d, hd, rfl⟩ := List.mem_map.mp hname
    exact newline_not_mem_shownName (List.mem_filter.mp hd).1
  · rw [haccounts.errors] at herror
    obtain ⟨d, hd, herror⟩ := List.mem_flatMap.mp herror
    obtain ⟨hmark, hquote⟩ := Documented.breaksWithQuote_of_mem_errors herror
    exact ⟨d, hd, hmark, hquote hnewline⟩

def brokenNameScript : String :=
  "function helper() \x7b \x7d\n/** @customfunction */\n" ++
    "function f(a: Foo.\nBar): number \x7b return 1; \x7d\n"

theorem errors_brokenNameScript :
    (extract brokenNameScript "f.ts").errors = ["Invalid type: Foo.\nBar"] := by
  decide +kernel

theorem errors_take_lines_of_quoted_types_brokenNameScript :
    '\n' ∉ "f.ts".toList ∧
      (extract brokenNameScript "f.ts").errors = ["Invalid type: Foo.\nBar"] ∧
      ReadsBack (extract brokenNameScript "f.ts") "f.ts" ∧
      ∃ d ∈ topLevelDeclarations brokenNameScript "f.ts", d.isMarked = true ∧
        ∃ a ∈ d.signature.annotations, ∃ e text, Quotes a e text ∧
          "Invalid type: Foo.\nBar" = e.message ∧ '\n' ∈ text.toList := by
  have herrors := errors_brokenNameScript
  have h := errors_take_lines_of_quoted_types brokenNameScript "f.ts" (by decide)
  exact ⟨by decide, herrors, h.1,
    h.2 _ (by rw [herrors]; exact List.mem_singleton_self _) (by decide)⟩

/-- One error on two lines: the console text is not read back. -/
theorem error_takes_two_lines :
    '\n' ∉ "f.ts".toList ∧
      (extract brokenNameScript "f.ts").errors = ["Invalid type: Foo.\nBar"] ∧
      endedLines ((extract brokenNameScript "f.ts").console "f.ts") =
        ["There was one of more errors. We couldn't parse your file: f.ts", "Invalid type: Foo.",
          "Bar"] := by
  exact ⟨by decide, errors_brokenNameScript, by decide +kernel⟩

end ScriptManifest
