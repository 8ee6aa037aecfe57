import ScriptManifest.Manifest.Reading
import ScriptManifest.Proofs.JsonLayout
import Mathlib.Data.List.Forall2

/-!
Reading well-formed documents. Whatever the document, a reader takes all of it and nothing else, or it
refuses it (`Aligned`): there is one such fact for every reader, the forms of a record as an array of
its fields and of a word as an object included. So what an object is read as depends on its fields
one by one (`Steps`), and a value that is passed over may be any document (`takes_skipValue`).
-/

namespace ScriptManifest.Manifest

/-- A JSON value, as far as reading can tell two of them apart. A text or a key is `none` if its
escapes do not spell one. -/
inductive Document
  | null
  | bool (value : Bool)
  | number
  | text (value : Option String)
  | array (items : List Document)
  | object (fields : List (Option String × Document))

namespace Document

mutual

def tokens : Document → List JsonToken
  | null => [.null]
  | bool b => [.bool b]
  | number => [.number]
  | text s => [.text s]
  | array items => .openBracket :: itemTokens items ++ [.closeBracket]
  | object fields => .openBrace :: fieldTokens fields ++ [.closeBrace]

def itemTokens : List Document → List JsonToken
  | [] => []
  | d :: ds => d.tokens ++ furtherItemTokens ds

def furtherItemTokens : List Document → List JsonToken
  | [] => []
  | d :: ds => .comma :: d.tokens ++ furtherItemTokens ds

def fieldTokens : List (Option String × Document) → List JsonToken
  | [] => []
  | (k, d) :: fs => .text k :: .colon :: d.tokens ++ furtherFieldTokens fs

def furtherFieldTokens : List (Option String × Document) → List JsonToken
  | [] => []
  | (k, d) :: fs => .comma :: .text k :: .colon :: d.tokens ++ furtherFieldTokens fs

end

/-! ### Laid out documents -/

def Closes (rest : List JsonToken) : Prop :=
  rest.IsChain MayFollow ∧ ∀ t ∈ rest.head?, t ∈ [.comma, .closeBracket, .closeBrace]

theorem isChain_cons {t : JsonToken} {ts : List JsonToken} (ht : t ≠ .number)
    (h : ts.IsChain MayFollow) : (t :: ts).IsChain MayFollow := by
  cases ts with
  | nil => exact .singleton t
  | cons u ts => exact .cons_cons (fun hnumber => (ht hnumber).elim) h

theorem closes_cons {t : JsonToken} (ht : t ∈ [.comma, .closeBracket, .closeBrace])
    {ts : List JsonToken} (h : ts.IsChain MayFollow) : Closes (t :: ts) := by
  refine ⟨isChain_cons ?_ h, by simpa using ht⟩
  rintro rfl
  simp at ht

mutual

theorem isChain_tokens (d : Document) {rest : List JsonToken} (h : Closes rest) :
    (d.tokens ++ rest).IsChain MayFollow := by
  cases d with
  | null => exact isChain_cons (by simp) h.1
  | bool b => exact isChain_cons (by simp) h.1
  | number =>
    cases rest with
    | nil => exact .singleton _
    | cons t ts => exact .cons_cons (fun _ => h.2 t rfl) h.1
  | text s => exact isChain_cons (by simp) h.1
  | array items =>
    have hclose : Closes (.closeBracket :: rest) := closes_cons (by simp) h.1
    simpa [tokens] using isChain_cons (t := .openBracket) (by simp) (isChain_items items hclose)
  | object fields =>
    have hclose : Closes (.closeBrace :: rest) := closes_cons (by simp) h.1
    simpa [tokens] using isChain_cons (t := .openBrace) (by simp) (isChain_fields fields hclose)

theorem isChain_items (ds : List Document) {rest : List JsonToken} (h : Closes rest) :
    (itemTokens ds ++ rest).IsChain MayFollow := by
  match ds with
  | [] => exact h.1
  | d :: ds => simpa [itemTokens] using isChain_tokens d (closes_further ds h)

theorem closes_further (ds : List Document) {rest : List JsonToken} (h : Closes rest) :
    Closes (furtherItemTokens ds ++ rest) := by
  match ds with
  | [] => exact h
  | d :: ds =>
    simpa [furtherItemTokens] using
      closes_cons (t := .comma) (by simp) (isChain_tokens d (closes_further ds h))

theorem isChain_fields (fs : List (Option String × Document)) {rest : List JsonToken}
    (h : Closes rest) : (fieldTokens fs ++ rest).IsChain MayFollow := by
  match fs with
  | [] => exact h.1
  | (k, d) :: fs =>
    have hvalue := isChain_tokens d (closes_furtherFields fs h)
    simpa [fieldTokens] using isChain_cons (t := .text k) (by simp)
      (isChain_cons (t := .colon) (by simp) hvalue)

theorem closes_furtherFields (fs : List (Option String × Document)) {rest : List JsonToken}
    (h : Closes rest) : Closes (furtherFieldTokens fs ++ rest) := by
  match fs with
  | [] => exact h
  | (k, d) :: fs =>
    have hvalue := isChain_tokens d (closes_furtherFields fs h)
    simpa [furtherFieldTokens] using closes_cons (t := .comma) (by simp)
      (isChain_cons (t := .text k) (by simp) (isChain_cons (t := .colon) (by simp) hvalue))

end

theorem jsonTokens_of_document {d : Document} {text : String} (h : Lays d.tokens text.toList) :
    jsonTokens text = d.tokens := by
  refine jsonTokens_of_lays h ?_
  simpa using isChain_tokens d (show Closes [] from ⟨.nil, by simp⟩)

/-! ### Passing over a document -/

def afterValue (opened : List Bool) (rest : List JsonToken) : Except Fault (List JsonToken) :=
  if opened.isEmpty then .ok rest else skip .next opened rest

mutual

theorem skip_tokens (d : Document) {state : SkipState} (hstate : state = .value ∨ state = .firstItem)
    (opened : List Bool) (rest : List JsonToken) :
    skip state opened (d.tokens ++ rest) = afterValue opened rest := by
  match d with
  | null => obtain rfl | rfl := hstate <;> rfl
  | bool b => obtain rfl | rfl := hstate <;> rfl
  | number => obtain rfl | rfl := hstate <;> rfl
  | text s => obtain rfl | rfl := hstate <;> rfl
  | array [] => obtain rfl | rfl := hstate <;> rfl
  | array (d :: ds) =>
    have hfirst := skip_tokens d (.inr rfl) (false :: opened)
      (furtherItemTokens ds ++ .closeBracket :: rest)
    have hrest := skip_further ds opened rest
    obtain rfl | rfl := hstate <;> simpa [tokens, itemTokens, skip] using hfirst.trans hrest
  | object [] => obtain rfl | rfl := hstate <;> rfl
  | object ((k, d) :: fs) =>
    have hfirst := skip_tokens d (.inl rfl) (true :: opened)
      (furtherFieldTokens fs ++ .closeBrace :: rest)
    have hrest := skip_furtherFields fs opened rest
    obtain rfl | rfl := hstate <;> simpa [tokens, fieldTokens, skip] using hfirst.trans hrest

theorem skip_further (ds : List Document) (opened : List Bool) (rest : List JsonToken) :
    afterValue (false :: opened) (furtherItemTokens ds ++ .closeBracket :: rest) =
      afterValue opened rest := by
  match ds with
  | [] => rfl
  | d :: ds =>
    have hfirst := skip_tokens d (.inl rfl) (false :: opened)
      (furtherItemTokens ds ++ .closeBracket :: rest)
    have hrest := skip_further ds opened rest
    simpa [furtherItemTokens, skip, afterValue] using hfirst.trans hrest

theorem skip_furtherFields (fs : List (Option String × Document)) (opened : List Bool)
    (rest : List JsonToken) :
    afterValue (true :: opened) (furtherFieldTokens fs ++ .closeBrace :: rest) =
      afterValue opened rest := by
  match fs with
  | [] => rfl
  | (k, d) :: fs =>
    have hfirst := skip_tokens d (.inl rfl) (true :: opened)
      (furtherFieldTokens fs ++ .closeBrace :: rest)
    have hrest := skip_furtherFields fs opened rest
    simpa [furtherFieldTokens, skip, afterValue] using hfirst.trans hrest

end

/-! ### Readers and documents -/

section Readers
variable {α : Type}

/-- A reader finds `a` in the tokens of a document and leaves all that follows. -/
def Takes (r : Reader α) (d : Document) (a : α) : Prop :=
  ∀ rest, r (d.tokens ++ rest) = .ok (a, rest)

def Refuses (r : Reader α) (d : Document) : Prop := ∀ rest, ∃ f, r (d.tokens ++ rest) = .error f

/-- A reader takes a document as a whole, or refuses it. -/
def Aligned (r : Reader α) : Prop := ∀ d, (∃ a, Takes r d a) ∨ Refuses r d

theorem Takes.not_refuses {r : Reader α} {d : Document} {a : α} (h : Takes r d a) :
    ¬ Refuses r d := by
  intro hrefuses
  obtain ⟨f, hf⟩ := hrefuses []
  rw [h []] at hf
  cases hf

theorem Takes.unique {r : Reader α} {d : Document} {a b : α} (h : Takes r d a) (h' : Takes r d b) :
    a = b := by
  have heq := (h []).symm.trans (h' [])
  cases heq
  rfl

theorem takes_skipValue (d : Document) : Takes skipValue d () := by
  intro rest
  rw [skipValue, skip_tokens d (.inl rfl)]
  rfl

theorem takes_text (s : String) : Takes readText (.text (some s)) s := fun _ => rfl

theorem takes_bool (b : Bool) : Takes readBool (.bool b) b := fun _ => rfl

theorem takes_null : Takes readOptional .null none := fun _ => rfl

theorem takes_optional (s : String) : Takes readOptional (.text (some s)) (some s) := fun _ => rfl

theorem takes_word {meaning : String → Option α} {w : String} {a : α} (h : meaning w = some a) :
    Takes (readWord meaning) (.text (some w)) a := by
  intro rest
  simp [tokens, readWord, h]

theorem refuses_word {meaning : String → Option α} {w : String} (h : meaning w = none) :
    Refuses (readWord meaning) (.text (some w)) := by
  intro rest
  exact ⟨.data, by simp [tokens, readWord, h]⟩

theorem aligned_text : Aligned readText := by
  intro d
  match d with
  | text (some s) => exact .inl ⟨s, takes_text s⟩
  | text none => exact .inr fun _ => ⟨_, rfl⟩
  | null => exact .inr fun _ => ⟨_, rfl⟩
  | bool b => exact .inr fun _ => ⟨_, rfl⟩
  | number => exact .inr fun _ => ⟨_, rfl⟩
  | array ds => exact .inr fun _ => ⟨_, rfl⟩
  | object fs => exact .inr fun _ => ⟨_, rfl⟩

theorem aligned_bool : Aligned readBool := by
  intro d
  cases d with
  | bool b => exact .inl ⟨b, takes_bool b⟩
  | _ => exact .inr fun _ => ⟨_, rfl⟩

theorem aligned_optional : Aligned readOptional := by
  intro d
  match d with
  | text (some s) => exact .inl ⟨some s, takes_optional s⟩
  | null => exact .inl ⟨none, takes_null⟩
  | text none => exact .inr fun _ => ⟨_, rfl⟩
  | bool b => exact .inr fun _ => ⟨_, rfl⟩
  | number => exact .inr fun _ => ⟨_, rfl⟩
  | array ds => exact .inr fun _ => ⟨_, rfl⟩
  | object fs => exact .inr fun _ => ⟨_, rfl⟩

theorem aligned_word (meaning : String → Option α) : Aligned (readWord meaning) := by
  intro d
  match d with
  | text (some w) =>
    cases h : meaning w with
    | some a => exact .inl ⟨a, takes_word h⟩
    | none => exact .inr (refuses_word h)
  | object [] => exact .inr fun _ => ⟨_, rfl⟩
  | object ((none, d) :: fs) => exact .inr fun _ => ⟨_, rfl⟩
  | object ((some w, d) :: fs) =>
    cases h : meaning w with
    | none => exact .inr fun rest => ⟨.data, by simp [tokens, fieldTokens, readWord, readText, h]⟩
    | some a =>
      match d, fs with
      | null, [] =>
        exact .inl ⟨a, fun rest => by
          simp [tokens, fieldTokens, furtherFieldTokens, readWord, readText, h]⟩
      | null, (k, d) :: fs =>
        exact .inr fun rest => ⟨.syntactic, by
          simp [tokens, fieldTokens, furtherFieldTokens, readWord, readText, h, misplaced]⟩
      | text none, fs =>
        exact .inr fun rest => ⟨.syntactic, by
          simp [tokens, fieldTokens, readWord, readText, h, mismatch, JsonToken.mismatch]⟩
      | bool _, fs | number, fs | text (some _), fs | array _, fs | object _, fs =>
        exact .inr fun rest => ⟨.data, by
          simp [tokens, fieldTokens, readWord, readText, h, mismatch, JsonToken.mismatch]⟩
  | text none => exact .inr fun _ => ⟨_, rfl⟩
  | null => exact .inr fun _ => ⟨_, rfl⟩
  | bool b => exact .inr fun _ => ⟨_, rfl⟩
  | number => exact .inr fun _ => ⟨_, rfl⟩
  | array ds => exact .inr fun _ => ⟨_, rfl⟩

/-! ### Arrays -/

theorem tokens_eq_cons (d : Document) : ∃ t ts, d.tokens = t :: ts ∧ t ≠ .closeBracket := by
  cases d with
  | null => exact ⟨.null, [], rfl, by decide⟩
  | bool b => exact ⟨.bool b, [], rfl, by simp⟩
  | number => exact ⟨.number, [], rfl, by decide⟩
  | text s => exact ⟨.text s, [], rfl, by simp⟩
  | array items => exact ⟨.openBracket, _, rfl, by decide⟩
  | object fields => exact ⟨.openBrace, _, rfl, by decide⟩

theorem nextItem?_first (d : Document) (rest : List JsonToken) :
    nextItem? true (d.tokens ++ rest) = .ok (some (d.tokens ++ rest)) := by
  obtain ⟨t, ts, ht, hne⟩ := tokens_eq_cons d
  rw [ht, List.cons_append]
  cases t <;> simp_all [nextItem?]

theorem nextItem?_further (d : Document) (rest : List JsonToken) :
    nextItem? false (.comma :: (d.tokens ++ rest)) = .ok (some (d.tokens ++ rest)) := by
  obtain ⟨t, ts, ht, hne⟩ := tokens_eq_cons d
  rw [ht, List.cons_append]
  cases t <;> simp_all [nextItem?]

def partTokens (first : Bool) (ds : List Document) : List JsonToken :=
  if first then itemTokens ds else furtherItemTokens ds

theorem nextItem?_nil (first : Bool) (rest : List JsonToken) :
    nextItem? first (partTokens first [] ++ .closeBracket :: rest) = .ok none := by
  cases first <;> rfl

theorem nextItem?_cons (first : Bool) (d : Document) (ds : List Document) (rest : List JsonToken) :
    nextItem? first (partTokens first (d :: ds) ++ rest) =
      .ok (some (d.tokens ++ (furtherItemTokens ds ++ rest))) := by
  cases first with
  | true => simpa [partTokens, itemTokens] using nextItem?_first d (furtherItemTokens ds ++ rest)
  | false =>
    simpa [partTokens, furtherItemTokens] using nextItem?_further d (furtherItemTokens ds ++ rest)

theorem length_le_partTokens (first : Bool) (ds : List Document) :
    ds.length ≤ (partTokens first ds).length := by
  have hfurther : ∀ ds : List Document, ds.length ≤ (furtherItemTokens ds).length := by
    intro ds
    induction ds with
    | nil => exact Nat.zero_le _
    | cons d ds ih =>
      simp only [furtherItemTokens, List.length_cons, List.length_append, List.cons_append]
      omega
  cases first with
  | false => exact hfurther ds
  | true =>
    cases ds with
    | nil => exact Nat.zero_le _
    | cons d ds =>
      obtain ⟨t, ts, ht, -⟩ := tokens_eq_cons d
      have hrest := hfurther ds
      simp only [partTokens, if_true, itemTokens, ht, List.length_cons, List.length_append,
        List.cons_append]
      omega

theorem readItems_of_takes {item : Reader α} {ds : List Document} {as : List α}
    (h : List.Forall₂ (Takes item) ds as) {fuel : Nat} (hf : ds.length < fuel) (first : Bool)
    (rest : List JsonToken) :
    readItems item fuel first (partTokens first ds ++ .closeBracket :: rest) = .ok (as, rest) := by
  induction h generalizing fuel first with
  | nil =>
    obtain ⟨n, rfl⟩ : ∃ n, fuel = n + 1 := ⟨fuel - 1, by simp at hf; omega⟩
    cases first <;> rfl
  | cons hd _ ih =>
    obtain ⟨n, rfl⟩ : ∃ n, fuel = n + 1 := ⟨fuel - 1, by simp at hf; omega⟩
    have hrest : readItems item n false (furtherItemTokens _ ++ .closeBracket :: rest) = _ :=
      ih (show _ < n by simp at hf; omega) false
    rw [readItems, nextItem?_cons]
    simp only [hd _, hrest]

theorem readItems_of_refuses {item : Reader α} (hitem : Aligned item) {ds : List Document}
    {d : Document} (hd : d ∈ ds) (h : Refuses item d) {fuel : Nat} (hf : ds.length < fuel)
    (first : Bool) (rest : List JsonToken) :
    ∃ f, readItems item fuel first (partTokens first ds ++ .closeBracket :: rest) = .error f := by
  induction ds generalizing fuel first with
  | nil => cases hd
  | cons e ds ih =>
    obtain ⟨n, rfl⟩ : ∃ n, fuel = n + 1 := ⟨fuel - 1, by simp at hf; omega⟩
    rw [readItems, nextItem?_cons]
    obtain ⟨a, ha⟩ | he := hitem e
    · have hne : e ≠ d := by
        rintro rfl
        exact ha.not_refuses h
      have hfuel : ds.length < n := by simp at hf; omega
      obtain ⟨f, hrest⟩ := ih ((List.mem_cons.mp hd).resolve_left hne.symm) hfuel false
      simp only [partTokens, Bool.false_eq_true, if_false] at hrest
      exact ⟨f, by simp only [ha _, hrest]⟩
    · obtain ⟨f, hf⟩ := he (furtherItemTokens ds ++ .closeBracket :: rest)
      exact ⟨f, by simp only [hf]⟩

theorem readArray_tokens (item : Reader α) (ds : List Document) (rest : List JsonToken) :
    ∃ fuel, ds.length < fuel ∧ readArray item ((array ds).tokens ++ rest) =
      readItems item fuel true (partTokens true ds ++ .closeBracket :: rest) := by
  refine ⟨(itemTokens ds ++ .closeBracket :: rest).length + 1, ?_, ?_⟩
  · have := length_le_partTokens true ds
    simp only [partTokens, if_true] at this
    simp only [List.length_append]
    omega
  · simp [tokens, readArray, partTokens]

theorem takes_array {item : Reader α} {ds : List Document} {as : List α}
    (h : List.Forall₂ (Takes item) ds as) : Takes (readArray item) (.array ds) as := by
  intro rest
  obtain ⟨fuel, hf, hread⟩ := readArray_tokens item ds rest
  exact hread.trans (readItems_of_takes h hf true rest)

theorem refuses_array {item : Reader α} (hitem : Aligned item) {ds : List Document} {d : Document}
    (hd : d ∈ ds) (h : Refuses item d) : Refuses (readArray item) (.array ds) := by
  intro rest
  obtain ⟨fuel, hf, hread⟩ := readArray_tokens item ds rest
  rw [hread]
  exact readItems_of_refuses hitem hd h hf true rest

theorem aligned_array {item : Reader α} (hitem : Aligned item) : Aligned (readArray item) := by
  intro d
  cases d with
  | array ds =>
    by_cases h : ∃ d ∈ ds, Refuses item d
    · obtain ⟨d, hd, hrefuses⟩ := h
      exact .inr (refuses_array hitem hd hrefuses)
    · push Not at h
      have htakes : ∀ d ∈ ds, ∃ a, Takes item d a := fun d hd => (hitem d).resolve_right (h d hd)
      have hall : ∃ as, List.Forall₂ (Takes item) ds as := by
        clear h
        induction ds with
        | nil => exact ⟨[], .nil⟩
        | cons d ds ih =>
          obtain ⟨a, ha⟩ := htakes d (by simp)
          obtain ⟨as, has⟩ := ih fun e he => htakes e (List.mem_cons_of_mem d he)
          exact ⟨a :: as, .cons ha has⟩
      obtain ⟨as, has⟩ := hall
      exact .inl ⟨as, takes_array has⟩
  | text s => cases s <;> exact .inr fun _ => ⟨_, rfl⟩
  | _ => exact .inr fun _ => ⟨_, rfl⟩

/-! ### Records as arrays of their fields -/

def PartsAligned (first : Bool) (r : Reader α) : Prop :=
  ∀ ds, (∃ a ds', ∀ rest, r (partTokens first ds ++ .closeBracket :: rest) =
      .ok (a, partTokens false ds' ++ .closeBracket :: rest)) ∨
    ∀ rest, ∃ f, r (partTokens first ds ++ .closeBracket :: rest) = .error f

theorem partsAligned_part {read : Reader α} (hread : Aligned read) (first : Bool) :
    PartsAligned first (readPart first read) := by
  intro ds
  cases ds with
  | nil => exact .inr fun rest => ⟨.data, by rw [readPart, nextItem?_nil]⟩
  | cons d ds =>
    simp only [readPart, nextItem?_cons]
    obtain ⟨a, ha⟩ | hd := hread d
    · exact .inl ⟨a, ds, fun rest => ha _⟩
    · exact .inr fun rest => hd _

theorem partsAligned_part? {read : Reader (Option α)} (hread : Aligned read) :
    PartsAligned false (readPart? read) := by
  intro ds
  cases ds with
  | nil => exact .inl ⟨none, [], fun rest => by rw [readPart?, nextItem?_nil]⟩
  | cons d ds =>
    simp only [readPart?, nextItem?_cons]
    obtain ⟨a, ha⟩ | hd := hread d
    · exact .inl ⟨a, ds, fun rest => ha _⟩
    · exact .inr fun rest => hd _

theorem partsAligned_pure (a : α) : PartsAligned false (fun ts => .ok (a, ts)) :=
  fun ds => .inl ⟨a, ds, fun _ => rfl⟩

theorem PartsAligned.andThen {β : Type} {first : Bool} {r : Reader α} {next : α → Reader β}
    (hr : PartsAligned first r) (hnext : ∀ a, PartsAligned false (next a)) :
    PartsAligned first (r.andThen next) := by
  intro ds
  obtain ⟨a, ds', ha⟩ | hr := hr ds
  · simp only [Reader.andThen, ha]
    exact hnext a ds'
  · refine .inr fun rest => ?_
    obtain ⟨f, hf⟩ := hr rest
    exact ⟨f, by simp only [Reader.andThen, hf]⟩

/-! ### Records as objects -/

variable {σ : Type}

def FieldTakes (field : String → σ → Reader σ) (k : String) (s : σ) (d : Document) (s' : σ) : Prop :=
  ∀ rest, field k s (.colon :: (d.tokens ++ rest)) = .ok (s', rest)

def FieldRefuses (field : String → σ → Reader σ) (k : String) (s : σ) (d : Document) : Prop :=
  ∀ rest, ∃ f, field k s (.colon :: (d.tokens ++ rest)) = .error f

def FieldsAligned (field : String → σ → Reader σ) : Prop :=
  ∀ k s d, (∃ s', FieldTakes field k s d s') ∨ FieldRefuses field k s d

inductive Steps (field : String → σ → Reader σ) : σ → List (Option String × Document) → σ → Prop
  | nil (s : σ) : Steps field s [] s
  | cons {s s' s'' : σ} {k : String} {d : Document} {fs : List (Option String × Document)}
    (h : FieldTakes field k s d s') (hs : Steps field s' fs s'') :
    Steps field s ((some k, d) :: fs) s''

variable {field : String → σ → Reader σ}

theorem FieldTakes.unique {k : String} {s t t' : σ} {d : Document} (h : FieldTakes field k s d t)
    (h' : FieldTakes field k s d t') : t = t' := by
  have heq := (h []).symm.trans (h' [])
  cases heq
  rfl

theorem FieldTakes.not_refuses {k : String} {s t : σ} {d : Document} (h : FieldTakes field k s d t) :
    ¬ FieldRefuses field k s d := by
  intro hrefuses
  obtain ⟨f, hf⟩ := hrefuses []
  rw [h []] at hf
  cases hf

theorem Steps.unique {s t t' : σ} {fs : List (Option String × Document)} (h : Steps field s fs t)
    (h' : Steps field s fs t') : t = t' := by
  induction h with
  | nil =>
    cases h'
    rfl
  | cons hd _ ih =>
    cases h' with
    | cons hd' hs' =>
      obtain rfl := hd.unique hd'
      exact ih hs'

def entryTokens (first : Bool) (fs : List (Option String × Document)) : List JsonToken :=
  if first then fieldTokens fs else furtherFieldTokens fs

theorem readFields_noKey (first : Bool) (fuel : Nat) (d : Document)
    (fs : List (Option String × Document)) (s : σ) (rest : List JsonToken) :
    readFields field (fuel + 1) first s (entryTokens first ((none, d) :: fs) ++ rest) =
      .error .syntactic := by
  cases first <;> simp [entryTokens, fieldTokens, furtherFieldTokens, readFields, misplaced]

theorem readFields_cons {k : String} {s s' : σ} {d : Document} (h : FieldTakes field k s d s')
    (first : Bool) (fuel : Nat) (fs : List (Option String × Document)) (rest : List JsonToken) :
    readFields field (fuel + 1) first s (entryTokens first ((some k, d) :: fs) ++ rest) =
      readFields field fuel false s' (entryTokens false fs ++ rest) := by
  cases first <;> simp [entryTokens, fieldTokens, furtherFieldTokens, readFields, h _]

theorem readFields_of_refuses {k : String} {s : σ} {d : Document} (h : FieldRefuses field k s d)
    (first : Bool) (fuel : Nat) (fs : List (Option String × Document)) (rest : List JsonToken) :
    ∃ f, readFields field (fuel + 1) first s (entryTokens first ((some k, d) :: fs) ++ rest) =
      .error f := by
  obtain ⟨f, hf⟩ := h (furtherFieldTokens fs ++ rest)
  exact ⟨f, by cases first <;> simp [entryTokens, fieldTokens, furtherFieldTokens, readFields, hf]⟩

theorem readFields_cases (hfield : FieldsAligned field) (fs : List (Option String × Document))
    {fuel : Nat} (hf : fs.length < fuel) (first : Bool) (s : σ) :
    (∃ s', Steps field s fs s' ∧ ∀ rest,
      readFields field fuel first s (entryTokens first fs ++ .closeBrace :: rest) = .ok (s', rest)) ∨
    ((∀ s', ¬ Steps field s fs s') ∧ ∀ rest, ∃ f,
      readFields field fuel first s (entryTokens first fs ++ .closeBrace :: rest) = .error f) := by
  induction fs generalizing fuel first s with
  | nil =>
    obtain ⟨n, rfl⟩ : ∃ n, fuel = n + 1 := ⟨fuel - 1, by simp at hf; omega⟩
    exact .inl ⟨s, .nil s, fun rest => by cases first <;> rfl⟩
  | cons f fs ih =>
    obtain ⟨k, d⟩ := f
    obtain ⟨n, rfl⟩ : ∃ n, fuel = n + 1 := ⟨fuel - 1, by simp at hf; omega⟩
    cases k with
    | none => exact .inr ⟨by rintro s' ⟨⟩, fun rest => ⟨.syntactic, readFields_noKey ..⟩⟩
    | some k =>
      obtain ⟨t, ht⟩ | hd := hfield k s d
      · have hn : fs.length < n := by simp at hf; omega
        simp only [readFields_cons ht]
        obtain ⟨s', hs', hread⟩ | ⟨hno, hread⟩ := ih hn false t
        · exact .inl ⟨s', .cons ht hs', hread⟩
        · refine .inr ⟨?_, hread⟩
          rintro s' (_ | ⟨ht', hs'⟩)
          obtain rfl := ht.unique ht'
          exact hno s' hs'
      · refine .inr ⟨?_, fun rest => readFields_of_refuses hd first n fs _⟩
        rintro s' (_ | ⟨ht', hs'⟩)
        exact ht'.not_refuses hd

theorem length_le_fieldTokens (fs : List (Option String × Document)) :
    fs.length ≤ (fieldTokens fs).length := by
  have hfurther : ∀ fs : List (Option String × Document),
      fs.length ≤ (furtherFieldTokens fs).length := by
    intro fs
    induction fs with
    | nil => exact Nat.zero_le _
    | cons f fs ih =>
      simp only [furtherFieldTokens, List.length_cons, List.length_append, List.cons_append]
      omega
  cases fs with
  | nil => exact Nat.zero_le _
  | cons f fs =>
    have hrest := hfurther fs
    simp only [fieldTokens, List.length_cons, List.length_append, List.cons_append]
    omega

theorem readFields_object_cases (hfield : FieldsAligned field)
    (fs : List (Option String × Document)) (s : σ) (rest : List JsonToken) :
    (∃ s', Steps field s fs s' ∧
      readFields field ((fieldTokens fs ++ .closeBrace :: rest).length + 1) true s
        (fieldTokens fs ++ .closeBrace :: rest) = .ok (s', rest)) ∨
    ((∀ s', ¬ Steps field s fs s') ∧ ∃ f,
      readFields field ((fieldTokens fs ++ .closeBrace :: rest).length + 1) true s
        (fieldTokens fs ++ .closeBrace :: rest) = .error f) := by
  have hlen : fs.length < (fieldTokens fs ++ .closeBrace :: rest).length + 1 := by
    have := length_le_fieldTokens fs
    simp only [List.length_append]
    omega
  obtain ⟨s', hs', hok⟩ | ⟨hno, herror⟩ := readFields_cases hfield fs hlen true s
  · exact .inl ⟨s', hs', hok rest⟩
  · exact .inr ⟨hno, herror rest⟩

variable {start : σ} {finish : σ → Option α} {parts : Reader α}

theorem takes_record (hfield : FieldsAligned field) {fs : List (Option String × Document)} {s : σ}
    {a : α} (hs : Steps field start fs s) (ha : finish s = some a) :
    Takes (readRecord start field finish parts) (.object fs) a := by
  intro rest
  obtain ⟨s', hs', hok⟩ | ⟨hno, -⟩ := readFields_object_cases hfield fs start rest
  · obtain rfl := hs.unique hs'
    simp only [tokens, List.cons_append, List.append_assoc, List.nil_append, readRecord, hok, ha]
  · exact (hno s hs).elim

theorem refuses_record (hfield : FieldsAligned field) {fs : List (Option String × Document)}
    (h : ∀ s, Steps field start fs s → finish s = none) :
    Refuses (readRecord start field finish parts) (.object fs) := by
  intro rest
  obtain ⟨s, hs, hok⟩ | ⟨-, f, hf⟩ := readFields_object_cases hfield fs start rest
  · refine ⟨.data, ?_⟩
    simp only [tokens, List.cons_append, List.append_assoc, List.nil_append, readRecord, hok, h s hs]
  · refine ⟨f, ?_⟩
    simp only [tokens, List.cons_append, List.append_assoc, List.nil_append, readRecord, hf]

theorem aligned_record (hfield : FieldsAligned field) (hparts : PartsAligned true parts) :
    Aligned (readRecord start field finish parts) := by
  intro d
  cases d with
  | object fs =>
    by_cases h : ∃ s a, Steps field start fs s ∧ finish s = some a
    · obtain ⟨s, a, hs, ha⟩ := h
      exact .inl ⟨a, takes_record hfield hs ha⟩
    · refine .inr (refuses_record hfield fun s hs => ?_)
      cases ha : finish s with
      | none => rfl
      | some a => exact (h ⟨s, a, hs, ha⟩).elim
  | array ds =>
    have hread : ∀ rest, readRecord start field finish parts ((array ds).tokens ++ rest) =
        parts.andThen readEnd (partTokens true ds ++ .closeBracket :: rest) := by
      intro rest
      simp [tokens, readRecord, partTokens]
    obtain ⟨a, ds', ha⟩ | herror := hparts ds
    · cases ds' with
      | nil => exact .inl ⟨a, fun rest => by rw [hread, Reader.andThen, ha]; rfl⟩
      | cons d ds' =>
        refine .inr fun rest => ⟨.syntactic, ?_⟩
        rw [hread, Reader.andThen, ha]
        rfl
    · refine .inr fun rest => ?_
      obtain ⟨f, hf⟩ := herror rest
      exact ⟨f, by rw [hread, Reader.andThen, hf]⟩
  | text s => cases s <;> exact .inr fun _ => ⟨_, rfl⟩
  | _ => exact .inr fun _ => ⟨_, rfl⟩

end Readers

end Document

end ScriptManifest.Manifest
