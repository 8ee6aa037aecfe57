import ScriptManifest.Config.Toml
import ScriptManifest.Proofs.JsonLayout
import Mathlib.Data.List.Forall2

/-!
The strings of TOML: basic and literal ones, on one line or on several. A string is spelled character
by character, plainly or by an escape, and the reader gives the characters that are spelled and what
follows the closing quotes (`string?_of_spelling`), as long as no quote does.
-/

namespace ScriptManifest.Config

open Text
open Manifest (IsHexDigit hexValue?_of_isHexDigit isHexDigit_hexDigit)

/-! ### Spellings -/

def IsTextChar (c : Char) : Prop := c = '\t' ∨ (0x20 ≤ c.toNat ∧ c.toNat ≠ 0x7F)

instance (c : Char) : Decidable (IsTextChar c) :=
  inferInstanceAs (Decidable (c = '\t' ∨ (0x20 ≤ c.toNat ∧ c.toNat ≠ 0x7F)))

def letterEscapes : List (Char × Char) :=
  [('b', '\x08'), ('t', '\t'), ('n', '\n'), ('f', '\x0c'), ('r', '\r'), ('e', '\x1b'), ('"', '"'),
    ('\\', '\\')]

/-- The letters that come before the digits of a code, with the number of the digits. -/
def codeEscapes : List (Char × Nat) := [('x', 2), ('u', 4), ('U', 8)]

def hexNumber (digits : List Nat) : Nat := digits.foldl (16 * · + ·) 0

/-- An escape behind its backslash. -/
inductive EscapeSpelling (c : Char) : List Char → Prop
  | letter {e : Char} (h : (e, c) ∈ letterEscapes) : EscapeSpelling c [e]
  | code {e : Char} {ds : List Char} {ns : List Nat} (he : (e, ds.length) ∈ codeEscapes)
      (hds : List.Forall₂ IsHexDigit ds ns) (hc : hexNumber ns = c.toNat) : EscapeSpelling c (e :: ds)

/-- The inside of a basic string on one line, and the characters that it spells. -/
inductive BasicBody : List Char → List Char → Prop
  | nil : BasicBody [] []
  | plain {c : Char} {s v : List Char} (hc : IsTextChar c) (hquote : c ≠ '"') (hslash : c ≠ '\\')
      (h : BasicBody s v) : BasicBody (c :: s) (c :: v)
  | escape {c : Char} {e s v : List Char} (he : EscapeSpelling c e) (h : BasicBody s v) :
      BasicBody ('\\' :: (e ++ s)) (c :: v)

/-- The inside of a literal string on one line, which spells itself. -/
def IsLiteralBody (s : List Char) : Prop := ∀ c ∈ s, IsTextChar c ∧ c ≠ '\x27'

instance (s : List Char) : Decidable (IsLiteralBody s) := List.decidableBAll _ s

def IsGap (s : List Char) : Prop := ∀ c ∈ s, c = ' ' ∨ c = '\t'

instance (s : List Char) : Decidable (IsGap s) := List.decidableBAll _ s

def IsLineEnd (s : List Char) : Prop := s = ['\n'] ∨ s = ['\r', '\n']

inductive IsWideGap : List Char → Prop
  | nil : IsWideGap []
  | blank {c : Char} {s : List Char} (hc : c = ' ' ∨ c = '\t') (h : IsWideGap s) : IsWideGap (c :: s)
  | lineEnd {e s : List Char} (he : IsLineEnd e) (h : IsWideGap s) : IsWideGap (e ++ s)

def StartsInLine (s : List Char) : Prop := ∀ e, IsLineEnd e → ¬ e <+: s

def StartsText (s : List Char) : Prop :=
  s.head? ≠ some ' ' ∧ s.head? ≠ some '\t' ∧ StartsInLine s

/-- A string of several lines behind its opening quotes, the closing ones included, and the characters
that it spells. A quote may stand in it as long as it does not start three of them, and up to two
quotes may stand in front of the closing ones. -/
inductive LongBody (quote : Char) (escaping : Bool) : List Char → List Char → Prop
  | close {n : Nat} (hn : n ≤ 2) :
      LongBody quote escaping (List.replicate (n + 3) quote) (List.replicate n quote)
  | plain {c : Char} {s v : List Char} (hc : IsTextChar c) (hquote : c ≠ quote)
      (hslash : escaping = true → c ≠ '\\') (h : LongBody quote escaping s v) :
      LongBody quote escaping (c :: s) (c :: v)
  | quote {s v : List Char} (hopen : ¬ [quote, quote, quote] <+: quote :: s)
      (h : LongBody quote escaping s v) : LongBody quote escaping (quote :: s) (quote :: v)
  | lineEnd {e s v : List Char} (he : IsLineEnd e) (h : LongBody quote escaping s v) :
      LongBody quote escaping (e ++ s) (e ++ v)
  | escape {c : Char} {e s v : List Char} (hescaping : escaping = true) (he : EscapeSpelling c e)
      (h : LongBody quote escaping s v) : LongBody quote escaping ('\\' :: (e ++ s)) (c :: v)
  | joined {gap e wide s v : List Char} (hescaping : escaping = true) (hgap : IsGap gap)
      (he : IsLineEnd e) (hwide : IsWideGap wide) (hs : StartsText s)
      (h : LongBody quote escaping s v) :
      LongBody quote escaping ('\\' :: (gap ++ (e ++ (wide ++ s)))) v

/-- A string, quotes and all, and the characters that it spells. A line end behind the opening quotes
of a string of several lines is not part of it. -/
inductive StringSpelling : List Char → List Char → Prop
  | basic {s v : List Char} (h : BasicBody s v) : StringSpelling ('"' :: (s ++ ['"'])) v
  | literal {s : List Char} (h : IsLiteralBody s) : StringSpelling ('\x27' :: (s ++ ['\x27'])) s
  | long {quote : Char} {escaping : Bool} {first s v : List Char}
      (hquote : (quote, escaping) ∈ [('"', true), ('\x27', false)])
      (hfirst : IsLineEnd first ∨ first = [] ∧ StartsInLine s)
      (h : LongBody quote escaping s v) :
      StringSpelling (quote :: quote :: quote :: (first ++ s)) v

/-! ### Escapes -/

theorem isCommentChar_iff (c : Char) : isCommentChar c = true ↔ IsTextChar c := by
  simp [isCommentChar, IsTextChar]

theorem hexNumberFrom?_of_digits {ds : List Char} {ns : List Nat} (h : List.Forall₂ IsHexDigit ds ns)
    (start : Nat) : hexNumberFrom? start ds = some (ns.foldl (16 * · + ·) start) := by
  induction h generalizing start with
  | nil => rfl
  | cons hd _ ih => rw [hexNumberFrom?, hexValue?_of_isHexDigit hd, List.foldl_cons, ← ih]

theorem hexEscape?_of_digits {c : Char} {ds : List Char} {ns : List Nat}
    (hds : List.Forall₂ IsHexDigit ds ns) (hc : hexNumber ns = c.toNat) (rest : List Char) :
    hexEscape? ds.length (ds ++ rest) = some (c, rest) := by
  have hnumber : Text.hexNumber? ds = some c.toNat := by
    rw [Text.hexNumber?, hexNumberFrom?_of_digits hds, ← hc]
    rfl
  have hvalid : c.toNat.isValidChar := c.valid
  simp [hexEscape?, hnumber, hvalid, Char.ofNat_toNat]

theorem EscapeSpelling.escape? {c : Char} {e : List Char} (h : EscapeSpelling c e) (rest : List Char) :
    Config.escape? (e ++ rest) = some (c, rest) := by
  cases h with
  | letter h =>
    simp only [letterEscapes, List.mem_cons, Prod.mk.injEq, List.not_mem_nil, or_false] at h
    obtain ⟨rfl, rfl⟩ | ⟨rfl, rfl⟩ | ⟨rfl, rfl⟩ | ⟨rfl, rfl⟩ | ⟨rfl, rfl⟩ | ⟨rfl, rfl⟩ |
      ⟨rfl, rfl⟩ | ⟨rfl, rfl⟩ := h <;> rfl
  | @code e ds ns he hds hc =>
    have hread := hexEscape?_of_digits hds hc rest
    simp only [codeEscapes, List.mem_cons, Prod.mk.injEq, List.not_mem_nil, or_false] at he
    obtain ⟨rfl, hlength⟩ | ⟨rfl, hlength⟩ | ⟨rfl, hlength⟩ := he <;> rwa [hlength] at hread

theorem EscapeSpelling.exists_cons {c : Char} {e : List Char} (h : EscapeSpelling c e) :
    ∃ x xs, e = x :: xs ∧ x ∉ [' ', '\t', '\n', '\r'] := by
  have hletters : ∀ p ∈ letterEscapes, p.1 ∉ [' ', '\t', '\n', '\r'] := by decide
  have hcodes : ∀ p ∈ codeEscapes, p.1 ∉ [' ', '\t', '\n', '\r'] := by decide
  cases h with
  | letter h => exact ⟨_, _, rfl, hletters _ h⟩
  | code he => exact ⟨_, _, rfl, hcodes _ he⟩

theorem EscapeSpelling.joinedLine? {c : Char} {e : List Char} (h : EscapeSpelling c e)
    (rest : List Char) : Config.joinedLine? (e ++ rest) = none := by
  obtain ⟨x, xs, rfl, hx⟩ := h.exists_cons
  simp only [List.mem_cons, List.not_mem_nil, or_false, not_or] at hx
  simp [Config.joinedLine?, skipBlanks, isLineBlank, hx]

/-! ### Strings on one line -/

theorem basicString?_of_body {s v : List Char} (h : BasicBody s v) (rest : List Char) {fuel : Nat}
    (hfuel : s.length < fuel) : basicString? fuel (s ++ '"' :: rest) = some (v, rest) := by
  induction h generalizing fuel with
  | nil =>
    obtain ⟨n, rfl⟩ := Nat.exists_eq_add_one.mpr hfuel
    simp [basicString?]
  | @plain c s v hc hquote hslash _ ih =>
    obtain ⟨n, rfl⟩ := Nat.exists_eq_add_one.mpr (Nat.zero_lt_of_lt hfuel)
    have hrest : basicString? n (s ++ '"' :: rest) = some (v, rest) :=
      ih (by rw [List.length_cons] at hfuel; omega)
    simp [basicString?, hquote, hslash, (isCommentChar_iff c).mpr hc, hrest, consChar]
  | @escape c e s v he _ ih =>
    obtain ⟨n, rfl⟩ := Nat.exists_eq_add_one.mpr (Nat.zero_lt_of_lt hfuel)
    have hrest : basicString? n (s ++ '"' :: rest) = some (v, rest) :=
      ih (by rw [List.length_cons, List.length_append] at hfuel; omega)
    simp [basicString?, he.escape?, hrest, consChar]

theorem literalString?_of_body {s : List Char} (h : IsLiteralBody s) (rest : List Char) :
    literalString? (s ++ '\x27' :: rest) = some (s, rest) := by
  induction s with
  | nil => simp [literalString?]
  | cons c s ih =>
    obtain ⟨⟨hc, hquote⟩, hs⟩ := List.forall_mem_cons.mp h
    simp [literalString?, hquote, (isCommentChar_iff c).mpr hc, ih hs, consChar]

/-! ### Strings of several lines -/

theorem skipBlanks_of_gap {gap : List Char} (h : IsGap gap) (rest : List Char) :
    skipBlanks (gap ++ rest) = skipBlanks rest := by
  rw [skipBlanks, List.dropWhile_append_of_pos, skipBlanks]
  intro c hc
  simpa [isLineBlank] using h c hc

theorem skipBlankLines_of_wideGap {wide s : List Char} (hwide : IsWideGap wide) (hs : StartsText s) :
    skipBlankLines (wide ++ s) = s := by
  induction hwide with
  | nil =>
    obtain ⟨hspace, htab, hline⟩ := hs
    rw [List.nil_append]
    unfold skipBlankLines
    split
    · rfl
    · exact absurd (by simp) (hline _ (.inr rfl))
    · rename_i c cs _
      have hnewline : c ≠ '\n' := fun hc => hline _ (.inl rfl) (by simp [hc])
      simp_all [isLineBlank]
  | blank hc _ ih =>
    obtain rfl | rfl := hc
    · simpa [skipBlankLines, isLineBlank] using ih
    · simpa [skipBlankLines, isLineBlank] using ih
  | lineEnd he _ ih =>
    obtain rfl | rfl := he
    · simpa [skipBlankLines, isLineBlank] using ih
    · simpa [skipBlankLines] using ih

theorem joinedLine?_of_gap {gap e wide s : List Char} (hgap : IsGap gap) (he : IsLineEnd e)
    (hwide : IsWideGap wide) (hs : StartsText s) :
    joinedLine? (gap ++ (e ++ (wide ++ s))) = some s := by
  have hskip := skipBlankLines_of_wideGap hwide hs
  rw [joinedLine?, skipBlanks_of_gap hgap]
  obtain rfl | rfl := he
  · simpa [skipBlanks, isLineBlank] using hskip
  · simpa [skipBlanks, isLineBlank] using hskip

theorem extraQuotes_replicate {quote : Char} {n : Nat} (hn : n ≤ 2) {rest : List Char}
    (hrest : rest.head? ≠ some quote) :
    extraQuotes quote (List.replicate n quote ++ rest) = (List.replicate n quote, rest) := by
  have htake : rest.takeWhile (· == quote) = [] := by
    cases rest with
    | nil => rfl
    | cons c cs => rw [List.takeWhile_cons_of_neg (by simpa using hrest)]
  simp [extraQuotes, List.takeWhile_append_of_pos, htake, hn]

theorem startsTriple_iff (quote : Char) (cs : List Char) :
    startsTriple quote cs = true ↔ [quote, quote, quote] <+: cs := by
  rw [startsTriple, List.isPrefixOf_iff_prefix]

theorem startsTriple_of_ne {quote c : Char} (h : c ≠ quote) (cs : List Char) :
    startsTriple quote (c :: cs) = false := by
  rw [Bool.eq_false_iff, Ne, startsTriple_iff, List.cons_prefix_cons]
  exact fun hprefix => h hprefix.1.symm

theorem LongBody.three_le_length {quote : Char} {escaping : Bool} {s v : List Char}
    (h : LongBody quote escaping s v) : 3 ≤ s.length := by
  induction h with
  | close => simp
  | plain _ _ _ _ ih => exact Nat.le_succ_of_le ih
  | quote _ _ ih => exact Nat.le_succ_of_le ih
  | lineEnd _ _ ih => rw [List.length_append]; omega
  | escape _ _ _ ih => rw [List.length_cons, List.length_append]; omega
  | joined _ _ _ _ _ _ ih => simp only [List.length_cons, List.length_append]; omega

theorem LongBody.startsInLine_append {quote : Char} {escaping : Bool} {s v : List Char}
    (h : LongBody quote escaping s v) (hs : StartsInLine s) (rest : List Char) :
    StartsInLine (s ++ rest) := by
  intro e he hprefix
  have hlong := h.three_le_length
  have hlength : e.length ≤ s.length := by
    obtain rfl | rfl := he
    · exact Nat.le_trans (by decide) hlong
    · exact Nat.le_trans (by decide) hlong
  exact hs e he (List.prefix_of_prefix_length_le hprefix (List.prefix_append s rest) hlength)

theorem LongBody.startsText_append {quote : Char} {escaping : Bool} {s v : List Char}
    (h : LongBody quote escaping s v) (hs : StartsText s) (rest : List Char) :
    StartsText (s ++ rest) := by
  have hhead : (s ++ rest).head? = s.head? :=
    List.head?_append_of_ne_nil s (List.ne_nil_of_length_pos (Nat.zero_lt_of_lt h.three_le_length))
  obtain ⟨hspace, htab, hline⟩ := hs
  exact ⟨by rwa [hhead], by rwa [hhead], h.startsInLine_append hline rest⟩

theorem LongBody.startsTriple_quote {quote : Char} {escaping : Bool} {s v : List Char}
    (h : LongBody quote escaping s v) (hopen : ¬ [quote, quote, quote] <+: quote :: s)
    (rest : List Char) : startsTriple quote (quote :: (s ++ rest)) = false := by
  rw [Bool.eq_false_iff, Ne, startsTriple_iff]
  intro hprefix
  have hlength := h.three_le_length
  exact hopen (List.prefix_of_prefix_length_le hprefix (List.prefix_append (quote :: s) rest)
    (by simp; omega))

theorem longBasicString?_of_body {s v : List Char} (h : LongBody '"' true s v) {rest : List Char}
    (hrest : rest.head? ≠ some '"') {fuel : Nat} (hfuel : s.length ≤ fuel) :
    longBasicString? fuel (s ++ rest) = some (v, rest) := by
  induction h generalizing fuel with
  | @close n hn =>
    obtain ⟨m, rfl⟩ : ∃ m, fuel = m + 1 := ⟨fuel - 1, by simp at hfuel; omega⟩
    have hextra := extraQuotes_replicate hn hrest
    simpa [List.replicate_succ, longBasicString?, startsTriple] using hextra
  | @plain c s v hc hquote hslash h ih =>
    obtain ⟨m, rfl⟩ : ∃ m, fuel = m + 1 := ⟨fuel - 1, by simp at hfuel; omega⟩
    have hread := @ih m (by simpa using hfuel)
    simp [longBasicString?, startsTriple_of_ne hquote, hslash, (isCommentChar_iff c).mpr hc, hread,
      consChar]
  | @quote s v hopen h ih =>
    obtain ⟨m, rfl⟩ : ∃ m, fuel = m + 1 := ⟨fuel - 1, by simp at hfuel; omega⟩
    have hread := @ih m (by simpa using hfuel)
    simp [longBasicString?, h.startsTriple_quote hopen, isCommentChar, hread, consChar]
  | @lineEnd e s v he h ih =>
    obtain rfl | rfl := he
    · obtain ⟨m, rfl⟩ : ∃ m, fuel = m + 1 := ⟨fuel - 1, by simp at hfuel; omega⟩
      have hread := @ih m (by simpa using hfuel)
      simp [longBasicString?, startsTriple_of_ne, hread, consChar]
    · obtain ⟨m, rfl⟩ : ∃ m, fuel = m + 2 := ⟨fuel - 2, by simp at hfuel; omega⟩
      have hread := @ih m (by simpa using hfuel)
      simp [longBasicString?, startsTriple_of_ne, hread, consChar]
  | @escape c e s v _ he h ih =>
    obtain ⟨m, rfl⟩ : ∃ m, fuel = m + 1 := ⟨fuel - 1, by simp at hfuel; omega⟩
    have hread := @ih m (by simp at hfuel; omega)
    simp [longBasicString?, startsTriple_of_ne, he.joinedLine?, he.escape?, hread, consChar]
  | @joined gap e wide s v _ hgap he hwide hs h ih =>
    obtain ⟨m, rfl⟩ : ∃ m, fuel = m + 1 := ⟨fuel - 1, by simp at hfuel; omega⟩
    have hread := @ih m (by simp at hfuel; omega)
    have hjoined := joinedLine?_of_gap hgap he hwide (h.startsText_append hs rest)
    simp [longBasicString?, startsTriple_of_ne, hjoined, hread]

theorem longLiteralString?_of_body {s v : List Char} (h : LongBody '\x27' false s v)
    {rest : List Char} (hrest : rest.head? ≠ some '\x27') :
    longLiteralString? (s ++ rest) = some (v, rest) := by
  induction h with
  | close hn =>
    have hextra := extraQuotes_replicate hn hrest
    simpa [List.replicate_succ, longLiteralString?, startsTriple] using hextra
  | @plain c s v hc hquote hslash h ih =>
    simp [longLiteralString?, startsTriple_of_ne hquote, (isCommentChar_iff c).mpr hc, ih, consChar]
  | @quote s v hopen h ih =>
    simp [longLiteralString?, h.startsTriple_quote hopen, isCommentChar, ih, consChar]
  | lineEnd he h ih =>
    obtain rfl | rfl := he
    · simp [longLiteralString?, startsTriple_of_ne, ih, consChar]
    · simp [longLiteralString?, startsTriple_of_ne, ih, consChar]
  | escape hescaping => cases hescaping
  | joined hescaping => cases hescaping

theorem skipLineEnd_of_lineEnd {e : List Char} (h : IsLineEnd e) (s : List Char) :
    skipLineEnd (e ++ s) = s := by
  obtain rfl | rfl := h <;> rfl

theorem skipLineEnd_of_startsInLine {s : List Char} (h : StartsInLine s) : skipLineEnd s = s := by
  unfold skipLineEnd
  split
  · exact absurd (by simp) (h _ (.inl rfl))
  · exact absurd (by simp) (h _ (.inr rfl))
  · rfl

/-! ### All strings -/

theorem BasicBody.head? {s v : List Char} (h : BasicBody s v) : s.head? ≠ some '"' := by
  cases h with
  | nil => simp
  | plain _ hquote => simpa using hquote
  | escape => exact (by decide : some '\\' ≠ some '"')

theorem IsLiteralBody.head? {s : List Char} (h : IsLiteralBody s) : s.head? ≠ some '\x27' := by
  intro hhead
  exact (h '\x27' (List.mem_of_mem_head? hhead)).2 rfl

theorem startsTriple_quoted {quote : Char} {s rest : List Char} (hs : s.head? ≠ some quote)
    (hrest : rest.head? ≠ some quote) : startsTriple quote (quote :: (s ++ quote :: rest)) = false := by
  rw [Bool.eq_false_iff, Ne, startsTriple_iff]
  rintro ⟨tail, htail⟩
  cases s with
  | nil =>
    obtain rfl : quote :: tail = rest := by simpa using htail
    exact hrest rfl
  | cons c s =>
    simp only [List.cons_append, List.nil_append, List.cons.injEq] at htail
    exact hs (congrArg some htail.2.1.symm)

/-- A string is read to its end, whatever follows it that is no quote. -/
theorem string?_of_spelling {text v : List Char} (h : StringSpelling text v) {rest : List Char}
    (hrest : ∀ c ∈ rest.head?, c ≠ '"' ∧ c ≠ '\x27') : string? (text ++ rest) = some (v, rest) := by
  have hbasic : rest.head? ≠ some '"' := fun h => (hrest _ h).1 rfl
  have hliteral : rest.head? ≠ some '\x27' := fun h => (hrest _ h).2 rfl
  cases h with
  | @basic s v h =>
    have htriple := startsTriple_quoted h.head? hbasic
    have hread : basicString? ('"' :: (s ++ '"' :: rest)).length (s ++ '"' :: rest) = some (v, rest) :=
      basicString?_of_body h rest (by simp only [List.length_cons, List.length_append]; omega)
    rw [List.cons_append, List.append_assoc, List.singleton_append, string?, htriple,
      startsTriple_of_ne (by decide)]
    exact hread
  | @literal s h =>
    have htriple := startsTriple_quoted h.head? hliteral
    rw [List.cons_append, List.append_assoc, List.singleton_append, string?,
      startsTriple_of_ne (by decide), htriple]
    exact literalString?_of_body h rest
  | @long quote escaping first s v hquote hfirst h =>
    have hskip : skipLineEnd (first ++ (s ++ rest)) = s ++ rest := by
      obtain hfirst | ⟨rfl, hfirst⟩ := hfirst
      · exact skipLineEnd_of_lineEnd hfirst _
      · exact skipLineEnd_of_startsInLine (h.startsInLine_append hfirst rest)
    simp only [List.mem_cons, Prod.mk.injEq, List.not_mem_nil, or_false] at hquote
    obtain ⟨rfl, rfl⟩ | ⟨rfl, rfl⟩ := hquote
    · have hread : longBasicString? ('"' :: '"' :: '"' :: (first ++ (s ++ rest))).length (s ++ rest) =
          some (v, rest) :=
        longBasicString?_of_body h hbasic (by simp; omega)
      simpa [string?, startsTriple, hskip] using hread
    · have hread := longLiteralString?_of_body h hliteral
      simpa [string?, startsTriple, hskip] using hread

theorem exists_basicBody (v : List Char) : ∃ s, BasicBody s v := by
  induction v with
  | nil => exact ⟨[], .nil⟩
  | cons c v ih =>
    obtain ⟨s, hs⟩ := ih
    by_cases hquote : c = '"'
    · subst hquote
      exact ⟨_, .escape (.letter (e := '"') (by decide)) hs⟩
    by_cases hslash : c = '\\'
    · subst hslash
      exact ⟨_, .escape (.letter (e := '\\') (by decide)) hs⟩
    by_cases hc : IsTextChar c
    · exact ⟨c :: s, .plain hc hquote hslash hs⟩
    -- only control characters are left, and two digits are enough for their codes
    have hsmall : c.toNat < 256 := by
      simp only [IsTextChar, not_or, not_and, not_not] at hc
      omega
    have hcode : hexNumber [c.toNat / 16, c.toNat % 16] = c.toNat := by
      simp only [hexNumber, List.foldl_cons, List.foldl_nil]
      omega
    have hdigits := List.Forall₂.cons (isHexDigit_hexDigit (c.toNat / 16) (by omega))
      (.cons (isHexDigit_hexDigit (c.toNat % 16) (by omega)) .nil)
    exact ⟨_, .escape (.code (e := 'x') (by simp [codeEscapes]) hdigits hcode) hs⟩

end ScriptManifest.Config
