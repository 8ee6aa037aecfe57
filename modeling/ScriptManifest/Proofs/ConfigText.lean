import ScriptManifest.Proofs.TomlStrings
import Mathlib.Data.List.Nodup

/-!
The texts that state the fields of a configuration. A document states values for keys, a line each, in
any order and with blank lines, blanks and comments wherever TOML has them. Reading a document gives
the configuration whose fields are those stated, and fails when there is none: when a key is unknown,
stated twice or given a value of the wrong kind (`answers_ofText`).
-/

namespace ScriptManifest.Config

open Manifest (IsHexDigit)

/-! ### Documents -/

/-- A value, as far as a configuration tells values apart. -/
inductive Value
  | text (s : String)
  | truth (b : Bool)
  | other
deriving DecidableEq

def Value.text? : Value → Option String
  | .text s => some s
  | _ => none

def Value.truth? : Value → Option Bool
  | .truth b => some b
  | _ => none

inductive ValueSpelling : Value → List Char → Prop
  | text {s v : List Char} (h : StringSpelling s v) : ValueSpelling (.text (String.ofList v)) s
  | true : ValueSpelling (.truth true) "true".toList
  | false : ValueSpelling (.truth false) "false".toList

/-- The first characters of numbers, dates, arrays and inline tables. -/
def otherStarts : List Char :=
  ['+', '-', '0', '1', '2', '3', '4', '5', '6', '7', '8', '9', 'i', 'n', '[', '{']

def IsBareKey (k : List Char) : Prop := ∀ c ∈ k, c.isAlphanum = true ∨ c = '_' ∨ c = '-'

instance (k : List Char) : Decidable (IsBareKey k) := List.decidableBAll _ k

inductive KeySpelling : String → List Char → Prop
  | bare {k : List Char} (hne : k ≠ []) (h : IsBareKey k) : KeySpelling (String.ofList k) k
  | basic {s v : List Char} (h : BasicBody s v) :
      KeySpelling (String.ofList v) ('"' :: (s ++ ['"']))
  | literal {s : List Char} (h : IsLiteralBody s) :
      KeySpelling (String.ofList s) ('\x27' :: (s ++ ['\x27']))

/-- A key at the front of a line, up to the value that it is given. -/
inductive KeyFront (key : String) : List Char → Prop
  | mk {gap k before after : List Char} (hgap : IsGap gap) (hk : KeySpelling key k)
      (hbefore : IsGap before) (hafter : IsGap after) :
      KeyFront key (gap ++ (k ++ (before ++ '=' :: after)))

def IsComment (text : List Char) : Prop := ∀ c ∈ text, IsTextChar c

instance (text : List Char) : Decidable (IsComment text) := List.decidableBAll _ text

/-- What may stand on a line behind all else: blanks and a comment. -/
inductive IsTrail : List Char → Prop
  | blank {gap : List Char} (hgap : IsGap gap) : IsTrail gap
  | comment {gap text : List Char} (hgap : IsGap gap) (htext : IsComment text) :
      IsTrail (gap ++ '#' :: text)

/-- A line ends with a line end or with the text. -/
def EndsLine (e rest : List Char) : Prop := IsLineEnd e ∨ e = [] ∧ rest = []

/-- The statements of a text. One that gives no string and no truth value, be it by a value of another
kind, a dotted key or the header of a table, is the last that counts: whatever follows belongs to it. -/
inductive Document : List (String × Value) → List Char → Prop
  | done {t : List Char} (ht : IsTrail t) : Document [] t
  | blank {ss : List (String × Value)} {t e s : List Char} (ht : IsTrail t) (he : IsLineEnd e)
      (h : Document ss s) : Document ss (t ++ (e ++ s))
  | statement {key : String} {value : Value} {ss : List (String × Value)}
      {front v t e s : List Char} (hfront : KeyFront key front) (hv : ValueSpelling value v)
      (ht : IsTrail t) (he : EndsLine e s) (h : Document ss s) :
      Document ((key, value) :: ss) (front ++ (v ++ (t ++ (e ++ s))))
  | other {key : String} {front s : List Char} {c : Char} (hfront : KeyFront key front)
      (hc : c ∈ otherStarts) : Document [(key, .other)] (front ++ c :: s)
  | dotted {key : String} {gap k before s : List Char} (hgap : IsGap gap) (hk : KeySpelling key k)
      (hbefore : IsGap before) : Document [(key, .other)] (gap ++ (k ++ (before ++ '.' :: s)))
  | table {key : String} {gap bracket before k s : List Char} (hgap : IsGap gap)
      (hbracket : bracket = [] ∨ bracket = ['[']) (hbefore : IsGap before) (hk : KeySpelling key k) :
      Document [(key, .other)] (gap ++ '[' :: (bracket ++ (before ++ (k ++ s))))

/-! ### Statements of a configuration -/

def statements (config : Config) : List (String × Value) :=
  (config.output.map fun s => ("output", Value.text s)).toList ++
    (config.pretty.map fun b => ("pretty", Value.truth b)).toList

def IsField (p : String × Value) : Prop :=
  (∃ s, p = ("output", .text s)) ∨ ∃ b, p = ("pretty", .truth b)

def Consistent (ss : List (String × Value)) : Prop :=
  (∀ p ∈ ss, IsField p) ∧ (ss.map Prod.fst).Nodup

theorem Consistent.of_perm {ss ss' : List (String × Value)} (h : Consistent ss) (hp : ss.Perm ss') :
    Consistent ss' :=
  ⟨fun p hmem => h.1 p (hp.mem_iff.mpr hmem), (hp.map Prod.fst).nodup_iff.mp h.2⟩

theorem Consistent.of_sublist {ss ss' : List (String × Value)} (h : Consistent ss')
    (hs : ss.Sublist ss') : Consistent ss :=
  ⟨fun p hmem => h.1 p (hs.subset hmem), h.2.sublist (hs.map Prod.fst)⟩

theorem consistent_statements (config : Config) : Consistent config.statements := by
  obtain ⟨output, pretty⟩ := config
  cases output <;> cases pretty <;> simp [Consistent, IsField, statements]

theorem output_mem_statements {config : Config} {s : String} :
    ("output", .text s) ∈ config.statements ↔ config.output = some s := by
  simp [statements]

theorem pretty_mem_statements {config : Config} {b : Bool} :
    ("pretty", .truth b) ∈ config.statements ↔ config.pretty = some b := by
  simp [statements]

theorem eq_of_statements_perm {config config' : Config}
    (h : config.statements.Perm config'.statements) : config = config' := by
  have houtput : config.output = config'.output := by
    refine Option.ext fun s => ?_
    rw [← output_mem_statements, ← output_mem_statements, h.mem_iff]
  have hpretty : config.pretty = config'.pretty := by
    refine Option.ext fun b => ?_
    rw [← pretty_mem_statements, ← pretty_mem_statements, h.mem_iff]
  cases config
  cases config'
  simp_all

/-- The right outcome for statements: the configuration that has them, or a fault if none has. -/
def Answers (ss : List (String × Value)) : Except Fault Config → Prop
  | .ok config => ss.Perm config.statements
  | .error _ => ¬ Consistent ss

theorem Answers.of_perm {ss ss' : List (String × Value)} {r : Except Fault Config}
    (h : Answers ss r) (hp : ss.Perm ss') : Answers ss' r := by
  cases r with
  | ok config => exact hp.symm.trans h
  | error fault => exact fun hss' => h (hss'.of_perm hp.symm)

theorem Answers.ok_iff {ss : List (String × Value)} {r : Except Fault Config} (h : Answers ss r)
    (config : Config) : r = .ok config ↔ ss.Perm config.statements := by
  constructor
  · rintro rfl
    exact h
  · intro hp
    cases r with
    | ok config' => rw [eq_of_statements_perm (h.symm.trans hp)]
    | error fault => exact absurd ((consistent_statements config).of_perm hp.symm) h

theorem Answers.exists_error {ss : List (String × Value)} {r : Except Fault Config}
    (h : Answers ss r) (hss : ¬ Consistent ss) : ∃ fault, r = .error fault := by
  cases r with
  | ok config => exact absurd ((consistent_statements config).of_perm h.symm) hss
  | error fault => exact ⟨fault, rfl⟩

/-! ### Values -/

/-- The readers of strings and of truth values agree that a value is at the front of a text. -/
structure Reads (value : Value) (cs rest : List Char) : Prop where
  string : string? cs = value.text?.map fun s => (s.toList, rest)
  truth : truth? cs = value.truth?.map fun b => (b, rest)

theorem string?_eq_none {c : Char} (hbasic : c ≠ '"') (hliteral : c ≠ '\x27') (cs : List Char) :
    string? (c :: cs) = none := by
  simp [string?, startsTriple_of_ne hbasic, startsTriple_of_ne hliteral, hbasic, hliteral]

theorem truth?_eq_none {c : Char} (htrue : c ≠ 't') (hfalse : c ≠ 'f') (cs : List Char) :
    truth? (c :: cs) = none := by
  simp [truth?, htrue.symm, hfalse.symm]

theorem StringSpelling.exists_cons {s v : List Char} (h : StringSpelling s v) :
    ∃ c cs, s = c :: cs ∧ c ∈ ['"', '\x27'] := by
  cases h with
  | basic => exact ⟨_, _, rfl, by decide⟩
  | literal => exact ⟨_, _, rfl, by decide⟩
  | long hquote =>
    refine ⟨_, _, rfl, ?_⟩
    simp only [List.mem_cons, Prod.mk.injEq, List.not_mem_nil, or_false] at hquote ⊢
    exact hquote.imp And.left And.left

theorem ValueSpelling.exists_cons {value : Value} {v : List Char} (h : ValueSpelling value v) :
    ∃ c cs, v = c :: cs ∧ c ∈ ['"', '\x27', 't', 'f'] := by
  cases h with
  | text h =>
    obtain ⟨c, cs, rfl, hc⟩ := h.exists_cons
    exact ⟨c, cs, rfl, List.mem_append_left ['t', 'f'] hc⟩
  | true => exact ⟨_, _, rfl, by decide⟩
  | false => exact ⟨_, _, rfl, by decide⟩

theorem ValueSpelling.reads {value : Value} {v : List Char} (h : ValueSpelling value v)
    {rest : List Char} (hrest : ∀ c ∈ rest.head?, c ≠ '"' ∧ c ≠ '\x27') :
    Reads value (v ++ rest) rest := by
  cases h with
  | @text s v h =>
    refine ⟨by simp [string?_of_spelling h hrest, Value.text?], ?_⟩
    obtain ⟨c, cs, rfl, hc⟩ := h.exists_cons
    have hne : c ≠ 't' ∧ c ≠ 'f' := by
      constructor <;> rintro rfl <;> exact absurd hc (by decide)
    exact truth?_eq_none hne.1 hne.2 (cs ++ rest)
  | true => exact ⟨string?_eq_none (by decide) (by decide) _, by simp [truth?, Value.truth?]⟩
  | false => exact ⟨string?_eq_none (by decide) (by decide) _, by simp [truth?, Value.truth?]⟩

theorem reads_other {c : Char} (hc : c ∈ otherStarts) (cs rest : List Char) :
    Reads .other (c :: cs) rest := by
  have hne : ∀ x ∈ otherStarts, x ≠ '"' ∧ x ≠ '\x27' ∧ x ≠ 't' ∧ x ≠ 'f' := by
    simp [otherStarts]
  obtain ⟨hbasic, hliteral, htrue, hfalse⟩ := hne c hc
  exact ⟨string?_eq_none hbasic hliteral cs, truth?_eq_none htrue hfalse cs⟩

/-! ### Storing a value -/

theorem consistent_cons_iff {p : String × Value} {config : Config} :
    Consistent (p :: config.statements) ↔
      IsField p ∧ p.1 ∉ config.statements.map Prod.fst := by
  have hfields := (consistent_statements config).1
  have hkeys := (consistent_statements config).2
  rw [Consistent, List.forall_mem_cons, List.map_cons, List.nodup_cons]
  tauto

theorem output_mem_keys {config : Config} :
    "output" ∈ config.statements.map Prod.fst ↔ config.output ≠ none := by
  cases h : config.output <;> simp [statements, h]

theorem pretty_mem_keys {config : Config} :
    "pretty" ∈ config.statements.map Prod.fst ↔ config.pretty ≠ none := by
  cases h : config.pretty <;> simp [statements, h]

inductive Stores (config : Config) (p : String × Value) (rest : List Char) :
    Except Fault (Config × List Char) → Prop
  | stored {config' : Config} (h : (p :: config.statements).Perm config'.statements) :
      Stores config p rest (.ok (config', rest))
  | refused {fault : Fault} (h : ¬ Consistent (p :: config.statements)) :
      Stores config p rest (.error fault)

section Refusal

variable {config : Config} {p : String × Value} {rest : List Char} {fault : Fault}

theorem Stores.of_not_isField (h : ¬ IsField p) : Stores config p rest (.error fault) :=
  .refused fun hc => h (consistent_cons_iff.mp hc).1

theorem Stores.of_repeated (h : p.1 ∈ config.statements.map Prod.fst) :
    Stores config p rest (.error fault) :=
  .refused fun hc => (consistent_cons_iff.mp hc).2 h

end Refusal

theorem stores_assign_output {value : Value} {cs rest : List Char} (h : Reads value cs rest)
    (config : Config) : Stores config ("output", value) rest (assign config "output" cs) := by
  cases hout : config.output with
  | some old =>
    have hassign : assign config "output" cs = .error (.repeatedKey "output") := by
      simp [assign, hout]
    rw [hassign]
    exact .of_repeated (output_mem_keys.mpr (by simp [hout]))
  | none =>
    cases value with
    | text s =>
      have hassign : assign config "output" cs = .ok (⟨some s, config.pretty⟩, rest) := by
        simp [assign, hout, h.string, Value.text?]
      rw [hassign]
      exact .stored (by simp [statements, hout])
    | truth _ | other =>
      have hassign : assign config "output" cs = .error (.wrongValue "output") := by
        simp [assign, hout, h.string, Value.text?]
      rw [hassign]
      exact .of_not_isField (by simp [IsField])

theorem stores_assign_pretty {value : Value} {cs rest : List Char} (h : Reads value cs rest)
    (config : Config) : Stores config ("pretty", value) rest (assign config "pretty" cs) := by
  cases hpretty : config.pretty with
  | some old =>
    have hassign : assign config "pretty" cs = .error (.repeatedKey "pretty") := by
      simp [assign, hpretty]
    rw [hassign]
    exact .of_repeated (pretty_mem_keys.mpr (by simp [hpretty]))
  | none =>
    cases value with
    | truth b =>
      have hassign : assign config "pretty" cs = .ok (⟨config.output, some b⟩, rest) := by
        simp [assign, hpretty, h.truth, Value.truth?]
      rw [hassign]
      refine .stored ?_
      simpa [statements, hpretty] using (List.perm_append_singleton _ _).symm
    | text _ | other =>
      have hassign : assign config "pretty" cs = .error (.wrongValue "pretty") := by
        simp [assign, hpretty, h.truth, Value.truth?]
      rw [hassign]
      exact .of_not_isField (by simp [IsField])

theorem stores_assign {value : Value} {cs rest : List Char} (h : Reads value cs rest)
    (config : Config) (key : String) :
    Stores config (key, value) rest (assign config key cs) := by
  by_cases houtput : key = "output"
  · subst houtput
    exact stores_assign_output h config
  by_cases hpretty : key = "pretty"
  · subst hpretty
    exact stores_assign_pretty h config
  have hassign : assign config key cs = .error (.unknownKey key) := by
    simp [assign]
  rw [hassign]
  exact .of_not_isField (by simp [IsField, houtput, hpretty])

/-! ### Lines -/

theorem skipBlanks_of_ne {gap : List Char} (hgap : IsGap gap) {c : Char} (hspace : c ≠ ' ')
    (htab : c ≠ '\t') (cs : List Char) : skipBlanks (gap ++ c :: cs) = c :: cs := by
  rw [skipBlanks_of_gap hgap, skipBlanks, List.dropWhile_cons_of_neg (by simp [isLineBlank, *])]

theorem lineEnd?_of_endsLine {e rest : List Char} (h : EndsLine e rest) :
    lineEnd? (e ++ rest) = some rest := by
  obtain (rfl | rfl) | ⟨rfl, rfl⟩ := h <;> rfl

theorem skipBlanks_of_endsLine {e rest : List Char} (h : EndsLine e rest) :
    skipBlanks (e ++ rest) = e ++ rest := by
  obtain (rfl | rfl) | ⟨rfl, rfl⟩ := h <;> rfl

theorem dropWhile_of_endsLine {e rest : List Char} (h : EndsLine e rest) :
    (e ++ rest).dropWhile isCommentChar = e ++ rest := by
  obtain (rfl | rfl) | ⟨rfl, rfl⟩ := h <;> rfl

theorem restOfLine?_of_trail {t e rest : List Char} (ht : IsTrail t) (he : EndsLine e rest) :
    restOfLine? (t ++ (e ++ rest)) = some rest := by
  cases ht with
  | blank hgap =>
    rw [restOfLine?, skipBlanks_of_gap hgap, skipBlanks_of_endsLine he]
    obtain (rfl | rfl) | ⟨rfl, rfl⟩ := he <;> rfl
  | @comment gap text hgap htext =>
    have hcomment : (text ++ (e ++ rest)).dropWhile isCommentChar = e ++ rest := by
      rw [List.dropWhile_append_of_pos fun c hc => (isCommentChar_iff c).mpr (htext c hc),
        dropWhile_of_endsLine he]
    rw [List.append_assoc, List.cons_append, restOfLine?, skipBlanks_of_ne hgap (by decide) (by decide)]
    simp only [hcomment, lineEnd?_of_endsLine he]

section Heads

variable {P : Char → Prop}

theorem head?_gap_append (hspace : P ' ') (htab : P '\t') {gap s : List Char} (hgap : IsGap gap)
    (hs : ∀ c ∈ s.head?, P c) : ∀ c ∈ (gap ++ s).head?, P c := by
  cases gap with
  | nil => exact hs
  | cons b gap =>
    rintro c hc
    obtain rfl : b = c := by simpa using hc
    obtain rfl | rfl := hgap b List.mem_cons_self
    · exact hspace
    · exact htab

theorem head?_trail_append (hspace : P ' ') (htab : P '\t') (hhash : P '#') {t s : List Char}
    (ht : IsTrail t) (hs : ∀ c ∈ s.head?, P c) : ∀ c ∈ (t ++ s).head?, P c := by
  cases ht with
  | blank hgap => exact head?_gap_append hspace htab hgap hs
  | comment hgap =>
    rw [List.append_assoc, List.cons_append]
    exact head?_gap_append hspace htab hgap (by simpa using hhash)

theorem head?_endsLine (hline : P '\n') (hreturn : P '\r') {e rest : List Char}
    (he : EndsLine e rest) : ∀ c ∈ (e ++ rest).head?, P c := by
  obtain (rfl | rfl) | ⟨rfl, rfl⟩ := he
  · simpa using hline
  · simpa using hreturn
  · simp

end Heads

/-! ### Keys -/

theorem isKeyChar_iff (c : Char) :
    isKeyChar c = true ↔ c.isAlphanum = true ∨ c = '_' ∨ c = '-' := by
  simp [isKeyChar, or_assoc]

theorem KeySpelling.exists_cons {key : String} {k : List Char} (h : KeySpelling key k) :
    ∃ c cs, k = c :: cs ∧ c ∉ [' ', '\t', '#', '\n', '\r', '\uFEFF'] := by
  cases h with
  | bare hne h =>
    obtain ⟨c, cs, rfl⟩ := List.exists_cons_of_ne_nil hne
    refine ⟨c, cs, rfl, fun hc => ?_⟩
    have hstart : ∀ x ∈ [' ', '\t', '#', '\n', '\r', '\uFEFF'], isKeyChar x = false := by
      simp only [List.mem_cons, List.not_mem_nil, or_false, forall_eq_or_imp, forall_eq]
      decide
    have hkey := (isKeyChar_iff c).mpr (h c List.mem_cons_self)
    simp [hstart c hc] at hkey
  | basic => exact ⟨_, _, rfl, by decide⟩
  | literal => exact ⟨_, _, rfl, by decide⟩

theorem key?_of_spelling {key : String} {k : List Char} (h : KeySpelling key k) {rest : List Char}
    (hrest : ∀ c ∈ rest.head?, isKeyChar c = false) :
    key? (k ++ rest) = some (key.toList, rest) := by
  cases h with
  | bare hne h =>
    obtain ⟨c, cs, rfl⟩ := List.exists_cons_of_ne_nil hne
    have hkey : ∀ x ∈ c :: cs, isKeyChar x = true := fun x hx => (isKeyChar_iff x).mpr (h x hx)
    have hstop : rest.takeWhile isKeyChar = [] ∧ rest.dropWhile isKeyChar = rest := by
      cases rest with
      | nil => exact ⟨rfl, rfl⟩
      | cons x xs => simp [hrest x rfl]
    have hquotes : c ≠ '"' ∧ c ≠ '\x27' := by
      have hc := hkey c List.mem_cons_self
      constructor <;> rintro rfl <;> exact absurd hc (by decide)
    have htake : (c :: cs ++ rest).takeWhile isKeyChar = c :: cs := by
      rw [List.takeWhile_append_of_pos hkey, hstop.1, List.append_nil]
    have hdrop : (c :: cs ++ rest).dropWhile isKeyChar = rest := by
      rw [List.dropWhile_append_of_pos hkey, hstop.2]
    rw [List.cons_append] at htake hdrop ⊢
    simp only [key?, hquotes, hkey c List.mem_cons_self, htake, hdrop, if_true, if_false,
      String.toList_ofList]
  | @basic s v h =>
    have hread : basicString? ('"' :: (s ++ '"' :: rest)).length (s ++ '"' :: rest) = some (v, rest) :=
      basicString?_of_body h rest (by simp only [List.length_cons, List.length_append]; omega)
    rw [List.cons_append, List.append_assoc, List.singleton_append, String.toList_ofList]
    exact hread
  | literal h =>
    rw [List.cons_append, List.append_assoc, List.singleton_append, String.toList_ofList]
    exact literalString?_of_body h rest

/-! ### Reading a document -/

theorem restOfLine?_of_start {gap : List Char} (hgap : IsGap gap) {c : Char}
    (hc : c ∉ [' ', '\t', '#', '\n', '\r']) (cs : List Char) :
    restOfLine? (gap ++ c :: cs) = none := by
  simp only [List.mem_cons, List.not_mem_nil, or_false, not_or] at hc
  obtain ⟨hspace, htab, hhash, hline, hreturn⟩ := hc
  rw [restOfLine?, skipBlanks_of_ne hgap hspace htab]
  simp [lineEnd?, hhash, hline, hreturn]

theorem ofLines_nil (fuel : Nat) (config : Config) : ofLines fuel config [] = .ok config := by
  cases fuel <;> rfl

theorem ofLines_of_trail {t e s : List Char} (ht : IsTrail t) (he : EndsLine e s) (fuel : Nat)
    (config : Config) : ofLines (fuel + 1) config (t ++ (e ++ s)) = ofLines fuel config s := by
  rw [ofLines, restOfLine?_of_trail ht he]
  cases s with
  | nil => exact (ofLines_nil fuel config).symm
  | cons => rfl

theorem key?_of_line {key : String} {gap k rest : List Char} (hgap : IsGap gap)
    (hk : KeySpelling key k) (hrest : ∀ c ∈ rest.head?, isKeyChar c = false) :
    restOfLine? (gap ++ (k ++ rest)) = none ∧
      key? (skipBlanks (gap ++ (k ++ rest))) = some (key.toList, rest) := by
  have hkey := key?_of_spelling hk hrest
  obtain ⟨c, cs, rfl, hc⟩ := hk.exists_cons
  have hstart : c ∉ [' ', '\t', '#', '\n', '\r'] := fun h => hc (List.mem_append_left ['\uFEFF'] h)
  have hblank : c ≠ ' ' ∧ c ≠ '\t' := by
    constructor <;> rintro rfl <;> exact hc (by decide)
  rw [List.cons_append] at hkey ⊢
  rw [skipBlanks_of_ne hgap hblank.1 hblank.2]
  exact ⟨restOfLine?_of_start hgap hstart _, hkey⟩

section Front

variable {key : String} {front : List Char} {c : Char} {config : Config}

theorem KeyFront.exists_key? (h : KeyFront key front) (hspace : c ≠ ' ') (htab : c ≠ '\t')
    (cs : List Char) :
    restOfLine? (front ++ c :: cs) = none ∧
      ∃ rest, key? (skipBlanks (front ++ c :: cs)) = some (key.toList, rest) ∧
        afterEquals? rest = some (c :: cs) := by
  obtain @⟨gap, k, before, after, hgap, hk, hbefore, hafter⟩ := h
  have hequals : afterEquals? (before ++ '=' :: (after ++ c :: cs)) = some (c :: cs) := by
    rw [afterEquals?, skipBlanks_of_ne hbefore (by decide) (by decide)]
    simp only [skipBlanks_of_ne hafter hspace htab]
  have hhead : ∀ x ∈ (before ++ '=' :: (after ++ c :: cs)).head?, isKeyChar x = false :=
    head?_gap_append (by decide) (by decide) hbefore (by rintro _ ⟨⟩; decide)
  simp only [List.append_assoc, List.cons_append]
  obtain ⟨hline, hkey⟩ := key?_of_line hgap hk hhead
  exact ⟨hline, _, hkey, hequals⟩

theorem ofLines_of_stored (hfront : KeyFront key front) (hspace : c ≠ ' ') (htab : c ≠ '\t')
    {cs : List Char} {config' : Config} {rest next : List Char}
    (hassign : assign config key (c :: cs) = .ok (config', rest)) (hrest : restOfLine? rest = some next)
    (fuel : Nat) : ofLines (fuel + 1) config (front ++ c :: cs) = ofLines fuel config' next := by
  obtain ⟨hline, behind, hkey, hequals⟩ := hfront.exists_key? hspace htab cs
  simp only [ofLines, hline, hkey, hequals, String.ofList_toList, hassign, hrest]

theorem ofLines_of_refused (hfront : KeyFront key front) (hspace : c ≠ ' ') (htab : c ≠ '\t')
    {cs : List Char} {fault : Fault} (hassign : assign config key (c :: cs) = .error fault)
    (fuel : Nat) :
    ofLines (fuel + 1) config (front ++ c :: cs) = .error fault := by
  obtain ⟨hline, behind, hkey, hequals⟩ := hfront.exists_key? hspace htab cs
  simp only [ofLines, hline, hkey, hequals, String.ofList_toList, hassign]

end Front

theorem KeyFront.length_pos {key : String} {front : List Char} (h : KeyFront key front) :
    0 < front.length := by
  obtain ⟨_, _, _, _⟩ := h
  simp only [List.length_append, List.length_cons]
  omega

theorem not_consistent_of_other {key : String} {ss : List (String × Value)}
    (h : (key, .other) ∈ ss) : ¬ Consistent ss := by
  intro hss
  simpa [IsField] using hss.1 _ h

theorem answers_ofLines {ss : List (String × Value)} {t : List Char} (h : Document ss t)
    (config : Config) {fuel : Nat} (hfuel : t.length < fuel) :
    Answers (config.statements ++ ss) (ofLines fuel config t) := by
  obtain ⟨fuel, rfl⟩ := Nat.exists_eq_add_one.mpr (Nat.zero_lt_of_lt hfuel)
  induction h generalizing config fuel with
  | @done t ht =>
    have hread := ofLines_of_trail ht (.inr ⟨rfl, rfl⟩) fuel config
    rw [List.append_nil, List.append_nil, ofLines_nil] at hread
    rw [hread, List.append_nil]
    exact List.Perm.refl _
  | @blank ss t e s ht he _ ih =>
    rw [ofLines_of_trail ht (.inl he)]
    have hpos : 0 < e.length := by obtain rfl | rfl := he <;> decide
    simp only [List.length_append] at hfuel
    obtain ⟨fuel, rfl⟩ : ∃ m, fuel = m + 1 := ⟨fuel - 1, by omega⟩
    exact ih config fuel (by omega)
  | @statement key value ss front v t e s hfront hv ht he _ ih =>
    have hmove : ((key, value) :: config.statements ++ ss).Perm
        (config.statements ++ (key, value) :: ss) := List.perm_middle.symm
    have hstores := stores_assign (hv.reads (head?_trail_append (by decide) (by decide) (by decide) ht
      (head?_endsLine (by decide) (by decide) he))) config key
    have hpos := hfront.length_pos
    obtain ⟨c, cs, rfl, hc⟩ := hv.exists_cons
    have hblank : c ≠ ' ' ∧ c ≠ '\t' := by
      constructor <;> rintro rfl <;> exact absurd hc (by decide)
    rw [List.cons_append] at hstores ⊢
    generalize hassign : assign config key (c :: (cs ++ (t ++ (e ++ s)))) = outcome at hstores
    cases hstores with
    | stored hperm =>
      rw [ofLines_of_stored hfront hblank.1 hblank.2 hassign (restOfLine?_of_trail ht he)]
      simp only [List.length_append, List.length_cons] at hfuel
      obtain ⟨fuel, rfl⟩ : ∃ m, fuel = m + 1 := ⟨fuel - 1, by omega⟩
      exact (ih _ fuel (by omega)).of_perm ((hperm.append_right ss).symm.trans hmove)
    | refused hrefused =>
      rw [ofLines_of_refused hfront hblank.1 hblank.2 hassign]
      intro hconsistent
      exact hrefused ((hconsistent.of_perm hmove.symm).of_sublist (List.sublist_append_left _ ss))
  | @other key front s c hfront hc =>
    have hblank : ∀ x ∈ otherStarts, x ≠ ' ' ∧ x ≠ '\t' := by simp [otherStarts]
    have hstores := stores_assign (reads_other hc s []) config key
    generalize hassign : assign config key (c :: s) = outcome at hstores
    cases hstores with
    | stored hperm =>
      have hconsistent := (consistent_statements _).of_perm hperm.symm
      exact absurd hconsistent (not_consistent_of_other List.mem_cons_self)
    | refused =>
      rw [ofLines_of_refused hfront (hblank c hc).1 (hblank c hc).2 hassign]
      exact not_consistent_of_other (List.mem_append_right _ List.mem_cons_self)
  | @dotted key gap k before s hgap hk hbefore =>
    have hequals : afterEquals? (before ++ '.' :: s) = none := by
      rw [afterEquals?, skipBlanks_of_ne hbefore (by decide) (by decide)]
      simp
    have hhead : ∀ x ∈ (before ++ '.' :: s).head?, isKeyChar x = false :=
      head?_gap_append (by decide) (by decide) hbefore (by rintro _ ⟨⟩; decide)
    obtain ⟨hline, hkey⟩ := key?_of_line hgap hk hhead
    simp only [ofLines, hline, hkey, hequals]
    exact not_consistent_of_other (List.mem_append_right _ List.mem_cons_self)
  | @table key gap bracket before k s hgap =>
    rw [ofLines, restOfLine?_of_start hgap (by decide), skipBlanks_of_ne hgap (by decide) (by decide)]
    exact not_consistent_of_other (List.mem_append_right _ List.mem_cons_self)

theorem Document.head?_ne {ss : List (String × Value)} {t : List Char} (h : Document ss t) :
    ∀ c ∈ t.head?, c ≠ '\uFEFF' := by
  have hkey {gap k rest : List Char} {key : String} (hgap : IsGap gap) (hk : KeySpelling key k) :
      ∀ c ∈ (gap ++ (k ++ rest)).head?, c ≠ '\uFEFF' := by
    obtain ⟨c, cs, rfl, hc⟩ := hk.exists_cons
    refine head?_gap_append (by decide) (by decide) hgap ?_
    rintro x hx rfl
    obtain rfl : c = '\uFEFF' := by simpa using hx
    exact hc (by decide)
  have hfront {front rest : List Char} {key : String} (hfront : KeyFront key front) :
      ∀ c ∈ (front ++ rest).head?, c ≠ '\uFEFF' := by
    obtain ⟨hgap, hk, _, _⟩ := hfront
    rw [List.append_assoc, List.append_assoc]
    exact hkey hgap hk
  cases h with
  | @done t ht =>
    rw [← List.append_nil t]
    exact head?_trail_append (by decide) (by decide) (by decide) ht (by simp)
  | blank ht he =>
    exact head?_trail_append (by decide) (by decide) (by decide) ht
      (head?_endsLine (by decide) (by decide) (.inl he))
  | statement h => exact hfront h
  | other h => exact hfront h
  | dotted hgap hk => exact hkey hgap hk
  | table hgap => exact head?_gap_append (by decide) (by decide) hgap (by simp)

theorem answers_ofText {ss : List (String × Value)} {text : String} (h : Document ss text.toList) :
    Answers ss (ofText text) := by
  have hmark : text.toList.head? ≠ some '\uFEFF' := fun hmark => h.head?_ne _ hmark rfl
  have hread := answers_ofLines h {} (Nat.lt_succ_self _)
  rw [ofText]
  simp only [hmark, if_false]
  exact hread

/-! ### One document for every list of statements -/

theorem exists_keySpelling (key : String) : ∃ k, KeySpelling key k := by
  obtain ⟨s, hs⟩ := exists_basicBody key.toList
  have hkey := KeySpelling.basic hs
  rw [String.ofList_toList] at hkey
  exact ⟨_, hkey⟩

theorem exists_valueSpelling {value : Value} (h : value ≠ .other) : ∃ v, ValueSpelling value v := by
  cases value with
  | text text =>
    obtain ⟨s, hs⟩ := exists_basicBody text.toList
    have hvalue := ValueSpelling.text (.basic hs)
    rw [String.ofList_toList] at hvalue
    exact ⟨_, hvalue⟩
  | truth b => cases b with
    | true => exact ⟨_, .true⟩
    | false => exact ⟨_, .false⟩
  | other => exact absurd rfl h

theorem exists_document {ss : List (String × Value)} (h : ∀ p ∈ ss, p.2 ≠ .other) :
    ∃ t, Document ss t := by
  have hnone : IsGap [] := by simp [IsGap]
  induction ss with
  | nil => exact ⟨[], .done (.blank hnone)⟩
  | cons p ss ih =>
    obtain ⟨hp, hss⟩ := List.forall_mem_cons.mp h
    obtain ⟨t, ht⟩ := ih hss
    obtain ⟨k, hk⟩ := exists_keySpelling p.1
    obtain ⟨v, hv⟩ := exists_valueSpelling hp
    exact ⟨_, .statement (.mk hnone hk hnone hnone) hv (.blank hnone) (.inl (.inl rfl)) ht⟩

theorem IsField.ne_other {p : String × Value} (h : IsField p) : p.2 ≠ .other := by
  obtain ⟨s, rfl⟩ | ⟨b, rfl⟩ := h <;> simp

/-! ### Round trip -/

/-- Every configuration has a document. A document reads back as a configuration exactly if it states
the fields of this configuration and nothing else, in whatever order and spelling; with an unknown key,
a key stated twice, or a value of the wrong kind, it is refused. -/
theorem ofText_round_trips_exactly :
    (∀ config : Config, ∃ text : String, Document config.statements text.toList) ∧
    ∀ (ss : List (String × Value)) (text : String), Document ss text.toList →
      (∀ config, ofText text = .ok config ↔ ss.Perm config.statements) ∧
      ((∃ p ∈ ss, p.1 ≠ "output" ∧ p.1 ≠ "pretty") ∨ ¬ (ss.map Prod.fst).Nodup ∨
        (∃ value, ("output", value) ∈ ss ∧ ∀ s, value ≠ .text s) ∨
        (∃ value, ("pretty", value) ∈ ss ∧ ∀ b, value ≠ .truth b) →
          ∃ fault, ofText text = .error fault) := by
  refine ⟨fun config => ?_, fun ss text h => ⟨(answers_ofText h).ok_iff, fun hfaulty => ?_⟩⟩
  · have hfields := (consistent_statements config).1
    obtain ⟨t, ht⟩ := exists_document fun p hp => (hfields p hp).ne_other
    exact ⟨String.ofList t, by rwa [String.toList_ofList]⟩
  · refine (answers_ofText h).exists_error fun hconsistent => ?_
    obtain ⟨hfields, hkeys⟩ := hconsistent
    obtain ⟨p, hp, houtput, hpretty⟩ | hrepeated | ⟨value, hvalue, hkind⟩ | ⟨value, hvalue, hkind⟩ :=
      hfaulty
    · obtain ⟨s, rfl⟩ | ⟨b, rfl⟩ := hfields p hp
      · exact houtput rfl
      · exact hpretty rfl
    · exact hrepeated hkeys
    · simpa [IsField, hkind] using hfields _ hvalue
    · simpa [IsField, hkind] using hfields _ hvalue

/-- Two documents: one that only its layout tells from the plainest one, and one with a misspelled key
whose value runs on to the next line. -/
theorem ofText_round_trips_exactly_misspelled :
    ofText "# cf\r\n pretty=true # on\n'output' = \"a\\u0041\\\"\"" = .ok ⟨some "aA\"", some true⟩ ∧
      ∃ fault, ofText "pretty = true\noutptu = [\n 'a' ]" = .error fault := by
  have hgap : IsGap [' '] := by decide
  have hnone : IsGap [] := by decide
  have hpretty : KeySpelling "pretty" "pretty".toList :=
    @KeySpelling.bare "pretty".toList (by decide) (by decide)
  have hmisspelled : KeySpelling "outptu" "outptu".toList :=
    @KeySpelling.bare "outptu".toList (by decide) (by decide)
  have hdigits : List.Forall₂ IsHexDigit "0041".toList [0, 0, 4, 1] :=
    .cons (.inl rfl) (.cons (.inl rfl) (.cons (.inl rfl) (.cons (.inl rfl) .nil)))
  have hbody : BasicBody "a\\u0041\\\"".toList "aA\"".toList :=
    .plain (by decide) (by decide) (by decide)
      (.escape (.code (e := 'u') (by decide) hdigits rfl)
        (.escape (.letter (e := '"') (by decide)) .nil))
  have hfirst : Document [("pretty", .truth true), ("output", .text "aA\"")]
      "# cf\r\n pretty=true # on\n'output' = \"a\\u0041\\\"\"".toList :=
    .blank (@IsTrail.comment [] " cf".toList hnone (by decide)) (.inr rfl)
      (.statement (.mk hgap hpretty hnone hnone) .true
        (@IsTrail.comment [' '] " on".toList hgap (by decide)) (.inl (.inl rfl))
        (.statement (.mk hnone (@KeySpelling.literal "output".toList (by decide)) hgap hgap)
          (.text (.basic hbody)) (.blank hnone) (.inr ⟨rfl, rfl⟩) (.done (.blank hnone))))
  have hsecond : Document [("pretty", .truth true), ("outptu", .other)]
      "pretty = true\noutptu = [\n 'a' ]".toList :=
    .statement (.mk hnone hpretty hgap hgap) .true (.blank hnone) (.inl (.inl rfl))
      (@Document.other _ _ "\n 'a' ]".toList '[' (.mk hnone hmisspelled hgap hgap) (by decide))
  constructor
  · have hread := (ofText_round_trips_exactly.2 _ _ hfirst).1
    exact (hread ⟨some "aA\"", some true⟩).mpr (List.Perm.swap _ _ _)
  · have hrefused := (ofText_round_trips_exactly.2 _ _ hsecond).2
    exact hrefused (.inl ⟨("outptu", .other), by simp, by decide⟩)

end ScriptManifest.Config
