import ScriptManifest.Manifest.Json
import ScriptManifest.Manifest.JsonToken

/-!
JSON text and its tokens. A quoted text is scanned to the text that was quoted, whatever its
characters (`scanToken_quoted`), and a value is scanned to its own tokens in either layout
(`scans_compactChars`, `scans_prettyChars`): the layouts differ in blanks only.
-/

namespace ScriptManifest.Manifest

/-! ### Quoted texts -/

def unitOf (c : Char) : TextUnit :=
  if c.toNat < 0x20 ∧ c ∉ ['\n', '\r', '\t', '\x08', '\x0c'] then .code c.toNat else .char c

theorem hexNumber?_control : ∀ n < 0x20,
    Text.hexNumber? ['0', '0', hexDigit (n / 16), hexDigit (n % 16)] = some n := by decide

theorem scanUnits_code {n : Nat} (h : n < 0x20) (cs : List Char) :
    scanUnits ('\\' :: 'u' :: '0' :: '0' :: hexDigit (n / 16) :: hexDigit (n % 16) :: cs) =
      consUnit (.code n) (scanUnits cs) := by
  rw [scanUnits, hexNumber?_control n h]

theorem scanUnits_plain {c : Char} (hq : c ≠ '"') (hb : c ≠ '\\') (hc : ¬ c.toNat < 0x20)
    (cs : List Char) : scanUnits (c :: cs) = consUnit (.char c) (scanUnits cs) := by
  rw [scanUnits, if_neg hc]
  · exact hq
  all_goals
    intros
    exact hb ‹_›

theorem scanUnits_escapeChar (c : Char) (cs : List Char) :
    scanUnits (escapeChar c ++ cs) = consUnit (unitOf c) (scanUnits cs) := by
  unfold escapeChar
  split
  · rfl
  · rfl
  · rfl
  · rfl
  · rfl
  · rfl
  · rfl
  · next hq hb hn hr ht hbs hff =>
    split
    · next hc =>
      have hu : unitOf c = .code c.toNat := by
        have hplain : c ∉ ['\n', '\r', '\t', '\x08', '\x0c'] := by
          simpa using ⟨hn, hr, ht, hbs, hff⟩
        rw [unitOf, if_pos ⟨hc, hplain⟩]
      rw [hu]
      exact scanUnits_code hc cs
    · next hc =>
      have hu : unitOf c = .char c := by simp [unitOf, hc]
      rw [hu]
      exact scanUnits_plain hq hb hc cs

theorem scanUnits_escaped (s rest : List Char) :
    scanUnits (s.flatMap escapeChar ++ '"' :: rest) = .ok (s.map unitOf, rest) := by
  induction s with
  | nil => rfl
  | cons c s ih =>
    rw [List.flatMap_cons, List.append_assoc, scanUnits_escapeChar, ih]
    rfl

theorem decodeUnits_code {n : Nat} (h : n < 0x20) (us : List TextUnit) :
    decodeUnits (.code n :: us) = (decodeUnits us).map (Char.ofNat n :: ·) := by
  have hl : isLeadSurrogate n = false := by simp [isLeadSurrogate]; omega
  have ht : isTrailSurrogate n = false := by simp [isTrailSurrogate]; omega
  rw [decodeUnits.eq_def]
  split <;> simp_all

theorem decodeUnits_unitOf (s : List Char) : decodeUnits (s.map unitOf) = some s := by
  induction s with
  | nil => rfl
  | cons c s ih =>
    rw [List.map_cons, unitOf]
    split
    · next hc => rw [decodeUnits_code hc.1, ih, Option.map_some, Char.ofNat_toNat]
    · rw [decodeUnits, ih, Option.map_some]

/-- A text in quotes is one token, and nothing of it is lost. -/
theorem scanToken_quoted (s : String) (rest : List Char) :
    scanToken '"' (s.toList.flatMap escapeChar ++ '"' :: rest) = (.text (some s), rest) := by
  simp [scanToken, scanUnits_escaped, decodeUnits_unitOf]

/-! ### Tokens of a text -/

def Scans (cs : List Char) (ts : List JsonToken) : Prop :=
  ts.length ≤ cs.length ∧ ∀ fuel, ts.length < fuel → jsonTokensFrom fuel cs = ts

theorem scans_nil : Scans [] [] := by
  refine ⟨Nat.le_refl _, fun fuel h => ?_⟩
  obtain ⟨n, rfl⟩ : ∃ n, fuel = n + 1 := ⟨fuel - 1, by simp at h; omega⟩
  rfl

theorem Scans.blank {c : Char} {cs : List Char} {ts : List JsonToken} (h : Scans cs ts)
    (hc : isJsonBlank c = true) : Scans (c :: cs) ts := by
  refine ⟨Nat.le_succ_of_le h.1, fun fuel hf => ?_⟩
  have hscan := h.2 fuel hf
  cases fuel with
  | zero => simp at hf
  | succ n =>
    rw [jsonTokensFrom] at hscan ⊢
    rwa [List.dropWhile_cons_of_pos hc]

theorem Scans.blanks {bs cs : List Char} {ts : List JsonToken} (h : Scans cs ts)
    (hb : ∀ c ∈ bs, isJsonBlank c = true) : Scans (bs ++ cs) ts := by
  induction bs with
  | nil => exact h
  | cons c bs ih => exact (ih fun x hx => hb x (List.mem_cons_of_mem c hx)).blank (hb c (by simp))

theorem Scans.token {c : Char} {cs rest : List Char} {t : JsonToken} {ts : List JsonToken}
    (h : Scans rest ts) (hc : isJsonBlank c = false) (ht : scanToken c cs = (t, rest))
    (hlen : rest.length ≤ cs.length) : Scans (c :: cs) (t :: ts) := by
  refine ⟨?_, fun fuel hf => ?_⟩
  · have := h.1
    simp only [List.length_cons]
    omega
  · cases fuel with
    | zero => simp at hf
    | succ n =>
      have hrest := h.2 n (by simp at hf; omega)
      rw [jsonTokensFrom, List.dropWhile_cons_of_neg (by simp [hc])]
      simp [ht, hrest]

theorem Scans.mark {c : Char} {cs : List Char} {t : JsonToken} {ts : List JsonToken}
    (h : Scans cs ts) (hc : isJsonBlank c = false) (ht : scanToken c cs = (t, cs)) :
    Scans (c :: cs) (t :: ts) :=
  h.token hc ht (Nat.le_refl _)

theorem Scans.quoted {rest : List Char} {ts : List JsonToken} (h : Scans rest ts) (s : String) :
    Scans (quoted s ++ rest) (.text (some s) :: ts) := by
  have hq : Manifest.quoted s ++ rest = '"' :: (s.toList.flatMap escapeChar ++ '"' :: rest) := by
    simp [Manifest.quoted]
  rw [hq]
  refine h.token rfl (scanToken_quoted s rest) ?_
  simp only [List.length_append, List.length_cons]
  omega

theorem Scans.newLine {rest : List Char} {ts : List JsonToken} (h : Scans rest ts) (depth : Nat) :
    Scans (newLine depth ++ rest) ts := by
  refine h.blanks fun c hc => ?_
  obtain rfl | hc := List.mem_cons.mp hc
  · rfl
  · rw [List.eq_of_mem_replicate hc]
    rfl

theorem jsonTokens_of_scans {cs : List Char} {ts : List JsonToken} (h : Scans cs ts) :
    jsonTokens (String.ofList cs) = ts := by
  rw [jsonTokens, String.toList_ofList]
  exact h.2 _ (Nat.lt_succ_of_le h.1)

/-! ### Tokens of a value -/

namespace Json

mutual

def tokens : Json → List JsonToken
  | null => [.null]
  | bool b => [.bool b]
  | number _ => [.number]
  | text s => [.text (some s)]
  | array items => .openBracket :: itemTokens items ++ [.closeBracket]
  | object fields => .openBrace :: fieldTokens fields ++ [.closeBrace]

def itemTokens : List Json → List JsonToken
  | [] => []
  | j :: js => j.tokens ++ furtherItemTokens js

def furtherItemTokens : List Json → List JsonToken
  | [] => []
  | j :: js => .comma :: j.tokens ++ furtherItemTokens js

def fieldTokens : List (String × Json) → List JsonToken
  | [] => []
  | (k, j) :: fs => .text (some k) :: .colon :: j.tokens ++ furtherFieldTokens fs

def furtherFieldTokens : List (String × Json) → List JsonToken
  | [] => []
  | (k, j) :: fs => .comma :: .text (some k) :: .colon :: j.tokens ++ furtherFieldTokens fs

end

mutual

def hasNoNumber : Json → Bool
  | null | bool _ | text _ => true
  | number _ => false
  | array items => itemsHaveNoNumber items
  | object fields => fieldsHaveNoNumber fields

def itemsHaveNoNumber : List Json → Bool
  | [] => true
  | j :: js => j.hasNoNumber && itemsHaveNoNumber js

def fieldsHaveNoNumber : List (String × Json) → Bool
  | [] => true
  | (_, j) :: fs => j.hasNoNumber && fieldsHaveNoNumber fs

end

theorem scans_word {rest : List Char} {ts : List JsonToken} (h : Scans rest ts) (b : Bool) :
    Scans ((if b then "true".toList else "false".toList) ++ rest) (.bool b :: ts) := by
  cases b with
  | true => exact h.token rfl rfl (by simp; omega)
  | false => exact h.token rfl rfl (by simp; omega)

mutual

theorem scans_compactChars (j : Json) (hj : j.hasNoNumber = true) {rest : List Char}
    {ts : List JsonToken} (h : Scans rest ts) : Scans (j.compactChars ++ rest) (j.tokens ++ ts) := by
  cases j with
  | null => exact h.token rfl rfl (by simp; omega)
  | bool b => exact scans_word h b
  | number s => simp [hasNoNumber] at hj
  | text s => exact h.quoted s
  | array items =>
    rw [hasNoNumber] at hj
    have hclose : Scans (']' :: rest) (.closeBracket :: ts) := h.mark rfl rfl
    have hitems := scans_compactItems items hj hclose
    simpa [compactChars, tokens] using hitems.mark (c := '[') rfl rfl
  | object fields =>
    rw [hasNoNumber] at hj
    have hclose : Scans ('}' :: rest) (.closeBrace :: ts) := h.mark rfl rfl
    have hfields := scans_compactFields fields hj hclose
    simpa [compactChars, tokens] using hfields.mark (c := '{') rfl rfl

theorem scans_compactItems (js : List Json) (hj : itemsHaveNoNumber js = true) {rest : List Char}
    {ts : List JsonToken} (h : Scans rest ts) :
    Scans (compactItems js ++ rest) (itemTokens js ++ ts) := by
  match js with
  | [] => exact h
  | [j] =>
    rw [itemsHaveNoNumber, Bool.and_eq_true] at hj
    simpa [compactItems, itemTokens, furtherItemTokens] using scans_compactChars j hj.1 h
  | j :: k :: js =>
    rw [itemsHaveNoNumber, Bool.and_eq_true] at hj
    have hrest := scans_compactItems (k :: js) hj.2 h
    have hcomma := hrest.mark (c := ',') rfl rfl
    simpa [compactItems, itemTokens, furtherItemTokens] using scans_compactChars j hj.1 hcomma

theorem scans_compactFields (fs : List (String × Json)) (hj : fieldsHaveNoNumber fs = true)
    {rest : List Char} {ts : List JsonToken} (h : Scans rest ts) :
    Scans (compactFields fs ++ rest) (fieldTokens fs ++ ts) := by
  match fs with
  | [] => exact h
  | [(k, j)] =>
    rw [fieldsHaveNoNumber, Bool.and_eq_true] at hj
    have hcolon := (scans_compactChars j hj.1 h).mark (c := ':') rfl rfl
    simpa [compactFields, fieldTokens, furtherFieldTokens] using hcolon.quoted k
  | (k, j) :: f :: fs =>
    rw [fieldsHaveNoNumber, Bool.and_eq_true] at hj
    have hrest := scans_compactFields (f :: fs) hj.2 h
    have hcomma := hrest.mark (c := ',') rfl rfl
    have hcolon := (scans_compactChars j hj.1 hcomma).mark (c := ':') rfl rfl
    simpa [compactFields, fieldTokens, furtherFieldTokens] using hcolon.quoted k

end

mutual

theorem scans_prettyChars (depth : Nat) (j : Json) (hj : j.hasNoNumber = true) {rest : List Char}
    {ts : List JsonToken} (h : Scans rest ts) :
    Scans (j.prettyChars depth ++ rest) (j.tokens ++ ts) := by
  match j with
  | null => exact h.token rfl rfl (by simp; omega)
  | bool b => exact scans_word h b
  | number s => simp [hasNoNumber] at hj
  | text s => exact h.quoted s
  | array [] =>
    have hclose : Scans (']' :: rest) (.closeBracket :: ts) := h.mark rfl rfl
    exact hclose.mark rfl rfl
  | array (j :: js) =>
    rw [hasNoNumber] at hj
    have hclose : Scans (']' :: rest) (.closeBracket :: ts) := h.mark rfl rfl
    have hitems := scans_prettyItems (depth + 1) (j :: js) hj (hclose.newLine depth)
    have hopen := (hitems.newLine (depth + 1)).mark (c := '[') rfl rfl
    simpa [prettyChars, tokens] using hopen
  | object [] =>
    have hclose : Scans ('}' :: rest) (.closeBrace :: ts) := h.mark rfl rfl
    exact hclose.mark rfl rfl
  | object (f :: fs) =>
    rw [hasNoNumber] at hj
    have hclose : Scans ('}' :: rest) (.closeBrace :: ts) := h.mark rfl rfl
    have hfields := scans_prettyFields (depth + 1) (f :: fs) hj (hclose.newLine depth)
    have hopen := (hfields.newLine (depth + 1)).mark (c := '{') rfl rfl
    simpa [prettyChars, tokens] using hopen

theorem scans_prettyItems (depth : Nat) (js : List Json) (hj : itemsHaveNoNumber js = true)
    {rest : List Char} {ts : List JsonToken} (h : Scans rest ts) :
    Scans (prettyItems depth js ++ rest) (itemTokens js ++ ts) := by
  match js with
  | [] => exact h
  | [j] =>
    rw [itemsHaveNoNumber, Bool.and_eq_true] at hj
    simpa [prettyItems, itemTokens, furtherItemTokens] using scans_prettyChars depth j hj.1 h
  | j :: k :: js =>
    rw [itemsHaveNoNumber, Bool.and_eq_true] at hj
    have hrest := scans_prettyItems depth (k :: js) hj.2 h
    have hcomma := (hrest.newLine depth).mark (c := ',') rfl rfl
    simpa [prettyItems, itemTokens, furtherItemTokens] using scans_prettyChars depth j hj.1 hcomma

theorem scans_prettyFields (depth : Nat) (fs : List (String × Json))
    (hj : fieldsHaveNoNumber fs = true) {rest : List Char} {ts : List JsonToken}
    (h : Scans rest ts) : Scans (prettyFields depth fs ++ rest) (fieldTokens fs ++ ts) := by
  match fs with
  | [] => exact h
  | [(k, j)] =>
    rw [fieldsHaveNoNumber, Bool.and_eq_true] at hj
    have hblank := (scans_prettyChars depth j hj.1 h).blank (c := ' ') rfl
    have hcolon := hblank.mark (c := ':') rfl rfl
    simpa [prettyFields, fieldTokens, furtherFieldTokens] using hcolon.quoted k
  | (k, j) :: f :: fs =>
    rw [fieldsHaveNoNumber, Bool.and_eq_true] at hj
    have hrest := scans_prettyFields depth (f :: fs) hj.2 h
    have hcomma := (hrest.newLine depth).mark (c := ',') rfl rfl
    have hblank := (scans_prettyChars depth j hj.1 hcomma).blank (c := ' ') rfl
    have hcolon := hblank.mark (c := ':') rfl rfl
    simpa [prettyFields, fieldTokens, furtherFieldTokens] using hcolon.quoted k

end

theorem jsonTokens_render (pretty : Bool) (j : Json) (hj : j.hasNoNumber = true) :
    jsonTokens (j.render pretty) = j.tokens := by
  have hcompact := scans_compactChars j hj scans_nil
  have hpretty := scans_prettyChars 0 j hj scans_nil
  rw [List.append_nil, List.append_nil] at hcompact hpretty
  cases pretty with
  | false => exact jsonTokens_of_scans hcompact
  | true => exact jsonTokens_of_scans hpretty

end Json

end ScriptManifest.Manifest
