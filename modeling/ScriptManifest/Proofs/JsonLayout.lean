import ScriptManifest.Proofs.JsonText
import Mathlib.Data.List.Chain

/-!
The texts that lay out tokens: the spellings of the tokens, with any blanks in front of, between and
behind them (`Lays`). A token of punctuation has one spelling; a number is spelled by the grammar of
numbers, and a quoted text character by character, plainly or escaped. A text that lays out tokens is
cut into these tokens, as long as nothing stands behind a number that could continue it
(`jsonTokens_of_lays`).
-/

namespace ScriptManifest.Manifest

/-! ### Spellings -/

def IsDigits (ds : List Char) : Prop := ds ≠ [] ∧ ∀ c ∈ ds, c.isDigit = true

/-- The digits in front of the point: no zero leads others. -/
inductive IsInteger : List Char → Prop
  | zero : IsInteger ['0']
  | digits {c : Char} {ds : List Char} (hc : c.isDigit = true) (hzero : c ≠ '0')
    (hds : ∀ d ∈ ds, d.isDigit = true) : IsInteger (c :: ds)

inductive IsFraction : List Char → Prop
  | none : IsFraction []
  | digits {ds : List Char} (h : IsDigits ds) : IsFraction ('.' :: ds)

inductive IsExponent : List Char → Prop
  | none : IsExponent []
  | digits {e : Char} {sign ds : List Char} (he : e = 'e' ∨ e = 'E')
    (hsign : sign ∈ [[], ['+'], ['-']]) (h : IsDigits ds) : IsExponent (e :: (sign ++ ds))

inductive IsNumber : List Char → Prop
  | mk {sign integer fraction exponent : List Char} (hsign : sign ∈ [[], ['-']])
    (hinteger : IsInteger integer) (hfraction : IsFraction fraction)
    (hexponent : IsExponent exponent) : IsNumber (sign ++ (integer ++ (fraction ++ exponent)))

def IsHexDigit (c : Char) (n : Nat) : Prop :=
  "0123456789abcdef".toList[n]? = some c ∨ "0123456789ABCDEF".toList[n]? = some c

def escapes : List (Char × Char) :=
  [('"', '"'), ('\\', '\\'), ('/', '/'), ('b', '\x08'), ('f', '\x0c'), ('n', '\n'), ('r', '\r'),
    ('t', '\t')]

inductive UnitSpelling : TextUnit → List Char → Prop
  | plain {c : Char} (hquote : c ≠ '"') (hslash : c ≠ '\\') (hcontrol : 0x20 ≤ c.toNat) :
    UnitSpelling (.char c) [c]
  | escape {e c : Char} (h : (e, c) ∈ escapes) : UnitSpelling (.char c) ['\\', e]
  | code {a b c d : Char} {i j k l : Nat} (ha : IsHexDigit a i) (hb : IsHexDigit b j)
    (hc : IsHexDigit c k) (hd : IsHexDigit d l) :
    UnitSpelling (.code (0x1000 * i + 0x100 * j + 0x10 * k + l)) ['\\', 'u', a, b, c, d]

inductive UnitsSpelling : List TextUnit → List Char → Prop
  | nil : UnitsSpelling [] []
  | cons {u : TextUnit} {us : List TextUnit} {cs body : List Char} (h : UnitSpelling u cs)
    (hus : UnitsSpelling us body) : UnitsSpelling (u :: us) (cs ++ body)

/-- The text that units stand for: a code stands for the character of that number, and two surrogates
for the one character that they are the halves of. -/
inductive UnitsDenote : List TextUnit → List Char → Prop
  | nil : UnitsDenote [] []
  | char (c : Char) {us : List TextUnit} {cs : List Char} (h : UnitsDenote us cs) :
    UnitsDenote (.char c :: us) (c :: cs)
  | code {n : Nat} (hn : n < 0xD800 ∨ 0xDFFF < n) {us : List TextUnit} {cs : List Char}
    (h : UnitsDenote us cs) : UnitsDenote (.code n :: us) (Char.ofNat n :: cs)
  | pair {n m : Nat} (hn : 0xD800 ≤ n ∧ n ≤ 0xDBFF) (hm : 0xDC00 ≤ m ∧ m ≤ 0xDFFF)
    {us : List TextUnit} {cs : List Char} (h : UnitsDenote us cs) :
    UnitsDenote (.code n :: .code m :: us)
      (Char.ofNat (0x10000 + (n - 0xD800) * 0x400 + (m - 0xDC00)) :: cs)

/-- The spellings of a token. A quoted text of lone surrogates stands for nothing, but it is one. -/
inductive Spelling : JsonToken → List Char → Prop
  | openBrace : Spelling .openBrace ['{']
  | closeBrace : Spelling .closeBrace ['}']
  | openBracket : Spelling .openBracket ['[']
  | closeBracket : Spelling .closeBracket [']']
  | colon : Spelling .colon [':']
  | comma : Spelling .comma [',']
  | null : Spelling .null "null".toList
  | true : Spelling (.bool true) "true".toList
  | false : Spelling (.bool false) "false".toList
  | number {cs : List Char} (h : IsNumber cs) : Spelling .number cs
  | text {us : List TextUnit} {body : List Char} {s : String} (h : UnitsSpelling us body)
    (hs : UnitsDenote us s.toList) : Spelling (.text (some s)) ('"' :: (body ++ ['"']))
  | noText {us : List TextUnit} {body : List Char} (h : UnitsSpelling us body)
    (hno : ∀ cs, ¬ UnitsDenote us cs) : Spelling (.text none) ('"' :: (body ++ ['"']))

def IsBlanks (bs : List Char) : Prop := ∀ c ∈ bs, c ∈ [' ', '\n', '\r', '\t']

/-- A text that lays out tokens, with blanks wherever there may be some. -/
inductive Lays : List JsonToken → List Char → Prop
  | nil {bs : List Char} (hbs : IsBlanks bs) : Lays [] bs
  | cons {bs cs rest : List Char} {t : JsonToken} {ts : List JsonToken} (hbs : IsBlanks bs)
    (h : Spelling t cs) (hrest : Lays ts rest) : Lays (t :: ts) (bs ++ (cs ++ rest))

/-! ### Numbers -/

def EndsNumber (rest : List Char) : Prop :=
  ∀ c ∈ rest.head?, c.isDigit = false ∧ c ≠ '.' ∧ c ≠ 'e' ∧ c ≠ 'E'

theorem dropWhile_digits {ds rest : List Char} (hds : ∀ c ∈ ds, c.isDigit = true)
    (hrest : ∀ c ∈ rest.head?, c.isDigit = false) : (ds ++ rest).dropWhile Char.isDigit = rest := by
  rw [List.dropWhile_append_of_pos hds]
  cases rest with
  | nil => rfl
  | cons c cs => rw [List.dropWhile_cons_of_neg (by simp [hrest c (by simp)])]

theorem scanDigits_append {ds rest : List Char} (h : IsDigits ds)
    (hrest : ∀ c ∈ rest.head?, c.isDigit = false) : scanDigits (ds ++ rest) = .ok rest := by
  obtain ⟨hne, hds⟩ := h
  cases ds with
  | nil => exact (hne rfl).elim
  | cons c ds =>
    rw [List.cons_append, scanDigits, if_pos (hds c (by simp)),
      dropWhile_digits (fun d hd => hds d (List.mem_cons_of_mem c hd)) hrest]

theorem IsDigits.head {ds : List Char} (h : IsDigits ds) (rest : List Char) :
    ∃ c cs, ds ++ rest = c :: cs ∧ c.isDigit = true := by
  obtain ⟨hne, hds⟩ := h
  cases ds with
  | nil => exact (hne rfl).elim
  | cons c ds => exact ⟨c, ds ++ rest, rfl, hds c (by simp)⟩

theorem scanExponent_append {exponent rest : List Char} (h : IsExponent exponent)
    (hrest : EndsNumber rest) : scanExponent (exponent ++ rest) = .ok rest := by
  cases h with
  | none =>
    rw [List.nil_append]
    cases rest with
    | nil => rfl
    | cons c cs =>
      have hc := hrest c (by simp)
      simp [scanExponent, hc.2.2]
  | @digits e sign ds he hsign hds =>
    have hscan := scanDigits_append hds fun c hc => (hrest c hc).1
    have hexp : (decide (e = 'e') || decide (e = 'E')) = true := by simpa using he
    rw [List.cons_append, List.append_assoc]
    simp only [scanExponent, hexp, if_true]
    simp only [List.mem_cons, List.not_mem_nil, or_false] at hsign
    obtain rfl | rfl | rfl := hsign
    · obtain ⟨c, cs, hcs, hc⟩ := hds.head rest
      have hsign : (decide (c = '+') || decide (c = '-')) = false := by
        have hplus : c ≠ '+' := by rintro rfl; cases hc
        have hminus : c ≠ '-' := by rintro rfl; cases hc
        simp [hplus, hminus]
      rw [List.nil_append, hcs]
      simp only [hsign]
      rw [← hcs]
      exact hscan
    · exact hscan
    · exact hscan

theorem head?_exponent {exponent rest : List Char} (he : IsExponent exponent)
    (hrest : EndsNumber rest) : ∀ c ∈ (exponent ++ rest).head?, c.isDigit = false := by
  intro c hc
  cases he with
  | none => exact (hrest c hc).1
  | digits he _ _ =>
    cases hc
    obtain rfl | rfl := he <;> rfl

theorem head?_fraction {fraction exponent rest : List Char} (hf : IsFraction fraction)
    (he : IsExponent exponent) (hrest : EndsNumber rest) :
    ∀ c ∈ (fraction ++ (exponent ++ rest)).head?, c.isDigit = false := by
  cases hf with
  | none =>
    rw [List.nil_append]
    exact head?_exponent he hrest
  | digits hds =>
    intro c hc
    cases hc
    rfl

theorem scanFraction_append {fraction exponent rest : List Char} (hf : IsFraction fraction)
    (he : IsExponent exponent) (hrest : EndsNumber rest) :
    scanFraction (fraction ++ (exponent ++ rest)) = .ok rest := by
  have hscan := scanExponent_append he hrest
  cases hf with
  | none =>
    rw [List.nil_append, scanFraction, hscan]
    intro cs hcs
    cases he with
    | none => exact (hrest '.' (by rw [List.nil_append] at hcs; simp [hcs])).2.1 rfl
    | digits he _ _ =>
      cases hcs
      simp at he
  | digits hds =>
    have hdigits := scanDigits_append hds (head?_exponent he hrest)
    rw [List.cons_append, scanFraction, hdigits]
    exact hscan

def scanInteger (cs : List Char) : Except Fault (List Char) :=
  match cs with
  | '0' :: rest => if rest.head?.any Char.isDigit then .error .syntactic else scanFraction rest
  | _ =>
    match scanDigits cs with
    | .ok rest => scanFraction rest
    | .error f => .error f

theorem scanNumber_eq (cs : List Char) :
    scanNumber cs = scanInteger (match cs with | '-' :: rest => rest | _ => cs) :=
  rfl

theorem scanInteger_append {integer fraction exponent rest : List Char} (hi : IsInteger integer)
    (hf : IsFraction fraction) (he : IsExponent exponent) (hrest : EndsNumber rest) :
    scanInteger (integer ++ (fraction ++ (exponent ++ rest))) = .ok rest := by
  have hscan := scanFraction_append hf he hrest
  have hhead := head?_fraction hf he hrest
  cases hi with
  | zero =>
    change (if (fraction ++ (exponent ++ rest)).head?.any Char.isDigit then _ else _) = _
    rw [if_neg]
    · exact hscan
    · cases hfirst : (fraction ++ (exponent ++ rest)).head? with
      | none => simp
      | some c => simp [hhead c hfirst]
  | @digits c ds hc hzero hds =>
    have hdigits : IsDigits (c :: ds) := by
      refine ⟨by simp, fun d hd => ?_⟩
      obtain rfl | hd := List.mem_cons.mp hd
      · exact hc
      · exact hds d hd
    rw [scanInteger, scanDigits_append hdigits hhead]
    · exact hscan
    · rintro cs ⟨⟩
      exact hzero rfl

theorem scanNumber_append {cs rest : List Char} (h : IsNumber cs) (hrest : EndsNumber rest) :
    scanNumber (cs ++ rest) = .ok rest := by
  obtain ⟨hsign, hinteger, hfraction, hexponent⟩ := h
  have hscan := scanInteger_append hinteger hfraction hexponent hrest
  rw [List.append_assoc, List.append_assoc, List.append_assoc, scanNumber_eq]
  simp only [List.mem_cons, List.not_mem_nil, or_false] at hsign
  obtain rfl | rfl := hsign
  · rw [List.nil_append]
    split
    · next heq =>
      cases hinteger with
      | zero => cases heq
      | digits hc hzero hds =>
        cases heq
        cases hc
    · exact hscan
  · exact hscan

/-! ### Quoted texts -/

theorem hexValue?_of_isHexDigit {c : Char} {n : Nat} (h : IsHexDigit c n) :
    Text.hexValue? c = some n := by
  have hlower : ∀ m < 16, "0123456789abcdef".toList[m]?.bind Text.hexValue? = some m := by decide
  have hupper : ∀ m < 16, "0123456789ABCDEF".toList[m]?.bind Text.hexValue? = some m := by decide
  obtain h | h := h
  · have := hlower n (List.getElem?_eq_some_iff.mp h).1
    rwa [h] at this
  · have := hupper n (List.getElem?_eq_some_iff.mp h).1
    rwa [h] at this

theorem scanUnits_append {u : TextUnit} {cs : List Char} (h : UnitSpelling u cs) (rest : List Char) :
    scanUnits (cs ++ rest) = consUnit u (scanUnits rest) := by
  cases h with
  | plain hquote hslash hcontrol => exact scanUnits_plain hquote hslash (by omega) rest
  | escape h =>
    simp only [escapes, List.mem_cons, Prod.mk.injEq, List.not_mem_nil, or_false] at h
    obtain ⟨rfl, rfl⟩ | ⟨rfl, rfl⟩ | ⟨rfl, rfl⟩ | ⟨rfl, rfl⟩ | ⟨rfl, rfl⟩ | ⟨rfl, rfl⟩ |
      ⟨rfl, rfl⟩ | ⟨rfl, rfl⟩ := h <;> rfl
  | @code a b c d i j k l ha hb hc hd =>
    have hnumber : Text.hexNumber? [a, b, c, d] = some (0x1000 * i + 0x100 * j + 0x10 * k + l) := by
      simp only [Text.hexNumber?, Text.hexNumberFrom?, hexValue?_of_isHexDigit ha,
        hexValue?_of_isHexDigit hb, hexValue?_of_isHexDigit hc, hexValue?_of_isHexDigit hd]
      congr 1
      omega
    change scanUnits ('\\' :: 'u' :: a :: b :: c :: d :: rest) = _
    rw [scanUnits, hnumber]

theorem scanUnits_quote {us : List TextUnit} {body : List Char} (h : UnitsSpelling us body)
    (rest : List Char) : scanUnits (body ++ '"' :: rest) = .ok (us, rest) := by
  induction h with
  | nil => rfl
  | cons h _ ih =>
    rw [List.append_assoc, scanUnits_append h, ih]
    rfl

theorem decodeUnits_of_unitsDenote {us : List TextUnit} {cs : List Char} (h : UnitsDenote us cs) :
    decodeUnits us = some cs := by
  induction h with
  | nil => rfl
  | char c h ih => rw [decodeUnits, ih, Option.map_some]
  | @code n hn us cs h ih =>
    have hl : isLeadSurrogate n = false := by simp [isLeadSurrogate]; omega
    have ht : isTrailSurrogate n = false := by simp [isTrailSurrogate]; omega
    rw [decodeUnits.eq_def]
    split <;> simp_all
  | @pair n m hn hm us cs h ih =>
    have hl : isLeadSurrogate n = true := by simpa [isLeadSurrogate] using hn
    have ht : isTrailSurrogate m = true := by simpa [isTrailSurrogate] using hm
    simp [decodeUnits, hl, ht, ih]

theorem unitsDenote_of_decodeUnits {us : List TextUnit} {cs : List Char}
    (h : decodeUnits us = some cs) : UnitsDenote us cs := by
  fun_induction decodeUnits us generalizing cs with
  | case1 =>
    cases h
    exact .nil
  | case2 c us ih =>
    obtain ⟨ds, hds, rfl⟩ := Option.map_eq_some_iff.mp h
    exact .char c (ih hds)
  | case3 n m us hn hm ih =>
    obtain ⟨ds, hds, rfl⟩ := Option.map_eq_some_iff.mp h
    exact .pair (by simpa [isLeadSurrogate] using hn) (by simpa [isTrailSurrogate] using hm) (ih hds)
  | case4 n m us hn hm => cases h
  | case5 n m us hn hm => cases h
  | case6 n m us hn hm ih =>
    obtain ⟨ds, hds, rfl⟩ := Option.map_eq_some_iff.mp h
    refine .code ?_ (ih hds)
    simp [isLeadSurrogate, isTrailSurrogate] at hn hm
    omega
  | case7 n us hno hn => cases h
  | case8 n us hno hn ih =>
    obtain ⟨ds, hds, rfl⟩ := Option.map_eq_some_iff.mp h
    refine .code ?_ (ih hds)
    simp [isLeadSurrogate, isTrailSurrogate] at hn
    omega

/-! ### Tokens -/

def MayFollow (t u : JsonToken) : Prop := t = .number → u ∈ [.comma, .closeBracket, .closeBrace]

theorem isJsonBlank_of_mem {c : Char} (h : c ∈ [' ', '\n', '\r', '\t']) : isJsonBlank c = true := by
  simp only [List.mem_cons, List.not_mem_nil, or_false] at h
  obtain rfl | rfl | rfl | rfl := h <;> rfl

theorem endsNumber_of_blanks {bs rest : List Char} (hbs : IsBlanks bs) (h : EndsNumber rest) :
    EndsNumber (bs ++ rest) := by
  cases bs with
  | nil => exact h
  | cons b bs =>
    rintro c ⟨⟩
    have hb := hbs b (by simp)
    simp only [List.mem_cons, List.not_mem_nil, or_false] at hb
    obtain rfl | rfl | rfl | rfl := hb <;> decide

theorem endsNumber_of_lays {ts : List JsonToken} {cs : List Char} (h : Lays ts cs)
    (hts : ∀ t ∈ ts.head?, t ∈ [.comma, .closeBracket, .closeBrace]) : EndsNumber cs := by
  cases h with
  | nil hbs =>
    rw [← List.append_nil cs]
    exact endsNumber_of_blanks hbs (by simp [EndsNumber])
  | @cons bs cs rest t ts hbs hspelling hrest =>
    refine endsNumber_of_blanks hbs ?_
    have ht := hts t (by simp)
    simp only [List.mem_cons, List.not_mem_nil, or_false] at ht
    obtain rfl | rfl | rfl := ht <;> cases hspelling <;> rintro c ⟨⟩ <;> decide

theorem scanToken_number {c : Char} (h : c = '-' ∨ c.isDigit = true) {cs rest : List Char}
    (hscan : scanNumber (c :: cs) = .ok rest) : scanToken c cs = (.number, rest) := by
  have hnumber : (decide (c = '-') || c.isDigit) = true := by simpa using h
  have hne : ∀ {x : Char}, (decide (x = '-') || x.isDigit) = false → c ≠ x := by
    rintro x hx rfl
    rw [hx] at hnumber
    cases hnumber
  rw [scanToken, if_pos hnumber, hscan]
  all_goals exact hne (by decide)

theorem IsNumber.head {cs : List Char} (h : IsNumber cs) :
    ∃ c ds, cs = c :: ds ∧ (c = '-' ∨ c.isDigit = true) := by
  obtain ⟨hsign, hinteger, hfraction, hexponent⟩ := h
  simp only [List.mem_cons, List.not_mem_nil, or_false] at hsign
  obtain rfl | rfl := hsign
  · cases hinteger with
    | zero => exact ⟨'0', _, rfl, .inr rfl⟩
    | digits hc hzero hds => exact ⟨_, _, rfl, .inr hc⟩
  · exact ⟨'-', _, rfl, .inl rfl⟩

theorem not_isJsonBlank_of_number {c : Char} (h : c = '-' ∨ c.isDigit = true) :
    isJsonBlank c = false := by
  obtain rfl | h := h
  · rfl
  · have hne : ∀ {x : Char}, x.isDigit = false → c ≠ x := by
      rintro x hx rfl
      rw [hx] at h
      cases h
    simp [isJsonBlank, hne (x := ' ') rfl, hne (x := '\n') rfl, hne (x := '\r') rfl,
      hne (x := '\t') rfl]

theorem Scans.spelling {t : JsonToken} {cs rest : List Char} {ts : List JsonToken}
    (h : Scans rest ts) (hspelling : Spelling t cs) (hnumber : t = .number → EndsNumber rest) :
    Scans (cs ++ rest) (t :: ts) := by
  have hquote : ∀ {us : List TextUnit} {body : List Char}, UnitsSpelling us body →
      Scans ('"' :: (body ++ ['"']) ++ rest)
        (.text ((decodeUnits us).map String.ofList) :: ts) := by
    intro us body hus
    have hscan := scanUnits_quote hus rest
    have htext : '"' :: (body ++ ['"']) ++ rest = '"' :: (body ++ '"' :: rest) := by simp
    rw [htext]
    refine h.token rfl ?_ ?_
    · simp only [scanToken, hscan]
    · simp only [List.length_append, List.length_cons]
      omega
  cases hspelling with
  | null => exact h.token rfl rfl (by simp; omega)
  | true => exact h.token rfl rfl (by simp; omega)
  | false => exact h.token rfl rfl (by simp; omega)
  | number hcs =>
    have hscan := scanNumber_append hcs (hnumber rfl)
    obtain ⟨c, ds, rfl, hc⟩ := hcs.head
    exact h.token (not_isJsonBlank_of_number hc) (scanToken_number hc hscan) (by simp)
  | text hus hs =>
    have := hquote hus
    rwa [decodeUnits_of_unitsDenote hs, Option.map_some, String.ofList_toList] at this
  | @noText us body hus hno =>
    have := hquote hus
    cases hdecode : decodeUnits us with
    | none => rwa [hdecode] at this
    | some cs => exact (hno cs (unitsDenote_of_decodeUnits hdecode)).elim
  | _ => exact h.mark rfl rfl

theorem scans_of_lays {ts : List JsonToken} {cs : List Char} (h : Lays ts cs)
    (hts : ts.IsChain MayFollow) : Scans cs ts := by
  induction h with
  | nil hbs =>
    have hscan := scans_nil.blanks fun c hc => isJsonBlank_of_mem (hbs c hc)
    rwa [List.append_nil] at hscan
  | @cons bs cs rest t ts hbs hspelling hrest ih =>
    refine Scans.blanks ?_ fun c hc => isJsonBlank_of_mem (hbs c hc)
    refine (ih hts.tail).spelling hspelling fun ht => endsNumber_of_lays hrest fun u hu => ?_
    cases ts with
    | nil => cases hu
    | cons v ts =>
      cases hu
      exact (List.isChain_cons_cons.mp hts).1 ht

/-- A text that lays out tokens is cut into them. -/
theorem jsonTokens_of_lays {ts : List JsonToken} {text : String} (h : Lays ts text.toList)
    (hts : ts.IsChain MayFollow) : jsonTokens text = ts := by
  have hscan := jsonTokens_of_scans (scans_of_lays h hts)
  rwa [String.ofList_toList] at hscan

/-! ### One layout of every list of tokens -/

theorem isHexDigit_hexDigit : ∀ n < 16, IsHexDigit (hexDigit n) n := by
  have hlower : ∀ n < 16, "0123456789abcdef".toList[n]? = some (hexDigit n) := by decide
  exact fun n hn => .inl (hlower n hn)

theorem unitSpelling_escapeChar (c : Char) : UnitSpelling (unitOf c) (escapeChar c) := by
  unfold escapeChar
  split
  · exact .escape (by decide)
  · exact .escape (by decide)
  · exact .escape (by decide)
  · exact .escape (by decide)
  · exact .escape (by decide)
  · exact .escape (by decide)
  · exact .escape (by decide)
  · next hq hb hn hr ht hbs hff =>
    have hplain : c ∉ ['\n', '\r', '\t', '\x08', '\x0c'] := by simpa using ⟨hn, hr, ht, hbs, hff⟩
    split
    · next hc =>
      have hcode := UnitSpelling.code (.inl rfl : IsHexDigit '0' 0) (.inl rfl : IsHexDigit '0' 0)
        (isHexDigit_hexDigit (c.toNat / 16) (by omega))
        (isHexDigit_hexDigit (c.toNat % 16) (by omega))
      have hsum : 0x1000 * 0 + 0x100 * 0 + 0x10 * (c.toNat / 16) + c.toNat % 16 = c.toNat := by omega
      rw [unitOf, if_pos ⟨hc, hplain⟩]
      rwa [hsum] at hcode
    · next hc =>
      rw [unitOf, if_neg fun h => hc h.1]
      exact .plain hq hb (by omega)

theorem spelling_quoted (s : String) : Spelling (.text (some s)) (quoted s) := by
  have hunits : ∀ cs : List Char, UnitsSpelling (cs.map unitOf) (cs.flatMap escapeChar) := by
    intro cs
    induction cs with
    | nil => exact .nil
    | cons c cs ih => exact .cons (unitSpelling_escapeChar c) ih
  exact .text (hunits s.toList) (unitsDenote_of_decodeUnits (decodeUnits_unitOf s.toList))

def spelling? : JsonToken → Option (List Char)
  | .openBrace => some ['\x7b']
  | .closeBrace => some ['\x7d']
  | .openBracket => some ['[']
  | .closeBracket => some [']']
  | .colon => some [':']
  | .comma => some [',']
  | .null => some "null".toList
  | .bool true => some "true".toList
  | .bool false => some "false".toList
  | .number => some "-1.5e+7".toList
  | .text (some s) => some (quoted s)
  | .text none => some "\"\\uD800\"".toList
  | .brokenText _ | .broken _ => none

theorem spelling_of_spelling? {t : JsonToken} {cs : List Char} (h : spelling? t = some cs) :
    Spelling t cs := by
  unfold spelling? at h
  split at h <;> cases h
  · exact .openBrace
  · exact .closeBrace
  · exact .openBracket
  · exact .closeBracket
  · exact .colon
  · exact .comma
  · exact .null
  · exact .true
  · exact .false
  · have hdigit : ∀ {c : Char}, c.isDigit = true → IsDigits [c] := by
      intro c hc
      simpa [IsDigits] using hc
    have hnumber : IsNumber (['-'] ++ (['1'] ++ (['.', '5'] ++ ['e', '+', '7']))) :=
      .mk (by simp) (.digits rfl (by decide) (by simp)) (.digits (hdigit rfl))
        (.digits (.inl rfl) (by simp : ['+'] ∈ _) (hdigit rfl))
    exact .number hnumber
  · exact spelling_quoted _
  · -- half of a pair stands for nothing
    have hspelling : UnitsSpelling [.code 0xD800] "\\uD800".toList :=
      .cons (.code (.inr rfl : IsHexDigit 'D' 13) (.inl rfl : IsHexDigit '8' 8)
        (.inl rfl : IsHexDigit '0' 0) (.inl rfl : IsHexDigit '0' 0)) .nil
    refine .noText hspelling fun cs hcs => ?_
    cases hcs with
    | code hn _ => omega

def spaced (ts : List JsonToken) : List Char := ts.flatMap fun t => ' ' :: (spelling? t).getD []

theorem lays_spaced {ts : List JsonToken} (h : ∀ t ∈ ts, (spelling? t).isSome = true) :
    Lays ts (spaced ts) := by
  induction ts with
  | nil => exact .nil (by simp [IsBlanks, spaced])
  | cons t ts ih =>
    obtain ⟨cs, hcs⟩ := Option.isSome_iff_exists.mp (h t (by simp))
    have hrest := ih fun u hu => h u (List.mem_cons_of_mem t hu)
    have hblank : IsBlanks [' '] := by simp [IsBlanks]
    have hlays := Lays.cons hblank (spelling_of_spelling? hcs) hrest
    simpa [spaced, hcs] using hlays

end ScriptManifest.Manifest
