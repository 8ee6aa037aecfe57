import ScriptManifest.Proofs.Lexing

/-!
Sources without markup. A dialect matters to the lexemes of a source only where markup may start; as
long as none does, all dialects cut it into the same tokens (`tokensOf_eq_of_plain`).
-/

namespace ScriptManifest.Source

def Lexeme.opensMarkup (x : Lexeme) : Bool := x.kind == .opener && x.text == "<"

def Frame.isMarkup : Frame → Bool
  | tag _ | content | embedded => true
  | _ => false

def Place.isPlain (p : Place) : Prop := ∀ f ∈ p.frames, f.isMarkup = false

theorem startsMarkup_untyped {typed : Bool} {cs : List Char} (h : startsMarkup typed cs = true) :
    startsMarkup false cs = true := by
  unfold startsMarkup at h ⊢
  split at h
  · cases h
  · split at h
    · next heq => simp [heq]
    · split at h
      · cases h
      · next c cs' _ hne hname => simp [hne, hname]

theorem Place.isPlain.head {p : Place} (hp : p.isPlain) {f : Frame} {fs : List Frame}
    (h : p.frames = f :: fs) : f.isMarkup = false :=
  hp f (by simp [h])

theorem isMarkup_opened {p : Place} (hp : p.isPlain) {text : String} (h : text ≠ "<") :
    (p.opened text).isMarkup = false := by
  unfold Place.opened
  split
  · rfl
  · rfl
  · split
    · next heq => exact absurd (hp.head heq) (by simp [Frame.isMarkup])
    · next heq => exact absurd (hp.head heq) (by simp [Frame.isMarkup])
    · rfl
  · rfl
  · exact (h rfl).elim
  · rfl

theorem mem_of_mem_closeFrames {f : Frame} {fs : List Frame} (h : f ∈ closeFrames fs) : f ∈ fs := by
  unfold closeFrames at h
  split at h
  · simp [h]
  · simp [h]
  · cases h

theorem isPlain_after {p : Place} {x : Lexeme} (hp : p.isPlain) (hx : x.opensMarkup = false) :
    (p.after x).isPlain := by
  obtain ⟨kind, text⟩ := x
  unfold Place.after
  split
  · exact hp
  · cases kind with
    | opener =>
      have htext : text ≠ "<" := by
        rintro rfl
        simp [Lexeme.opensMarkup] at hx
      intro f hf
      obtain rfl | hf := List.mem_cons.mp hf
      · exact isMarkup_opened hp htext
      · exact hp f hf
    | closer => exact fun f hf => hp f (mem_of_mem_closeFrames hf)
    | piece =>
      simp only [Place.afterToken]
      split
      · next heq _ => exact absurd (hp.head heq) (by simp [Frame.isMarkup])
      · next heq _ => exact absurd (hp.head heq) (by simp [Frame.isMarkup])
      · exact hp
    | mark =>
      intro f hf
      have hframes := frames_after_mark text p
      exact hp f (hframes ▸ hf)
    | _ => exact hp

theorem nextInCode_plain (d : Dialect) {p : Place} {cs : List Char}
    (h : cs.head? = some '<' → p.nextInCode .javaScript cs ≠ (.opener, 1)) :
    p.nextInCode d cs = p.nextInCode .javaScript cs := by
  cases cs with
  | nil => rfl
  | cons c rest =>
    by_cases hc : c = '<'
    · subst hc
      have hno := h rfl
      rw [nextInCode_cons (by decide)] at hno ⊢
      rw [nextInCode_cons (by decide)]
      simp [isSpace, isNameStart, isNameChar, isPunctuation] at hno ⊢
      by_cases haside : p.operand = true ∧ ['!', '-', '-'] <+: rest
      · rw [if_pos haside, if_pos haside]
      · rw [if_neg haside] at hno ⊢
        rw [if_neg haside]
        have hmarkup : ¬ (((p.operand = true ∧ ¬ p.last = "<") ∧
            Dialect.javaScript.hasMarkup = true) ∧
            startsMarkup Dialect.javaScript.isTyped rest = true) := by
          intro hm
          rw [if_pos hm] at hno
          exact hno rfl
        rw [if_neg hmarkup, if_neg fun hm => hmarkup ⟨⟨hm.1.1, rfl⟩, startsMarkup_untyped hm.2⟩]
    · unfold Place.nextInCode
      split
      · rfl
      · rfl
      · rfl
      · next heq =>
        cases heq
        simp [hc]

theorem next_plain (d : Dialect) {p : Place} (hp : p.isPlain) {cs : List Char}
    (h : cs.head? = some '<' → p.next .javaScript cs ≠ (.opener, 1)) :
    p.next d cs = p.next .javaScript cs := by
  unfold Place.next at h ⊢
  split
  · rfl
  · next heq => exact absurd (hp.head heq) (by simp [Frame.isMarkup])
  · next heq => exact absurd (hp.head heq) (by simp [Frame.isMarkup])
  · next hno1 hno2 hno3 => exact nextInCode_plain d (by simpa [hno1, hno2, hno3] using h)

theorem lexemesFrom_plain (d : Dialect) {fuel : Nat} {p : Place} {cs : List Char} (hp : p.isPlain)
    (h : ∀ x ∈ lexemesFrom .javaScript fuel p cs, x.opensMarkup = false) :
    lexemesFrom d fuel p cs = lexemesFrom .javaScript fuel p cs := by
  induction fuel generalizing p cs with
  | zero => rfl
  | succ fuel ih =>
    cases cs with
    | nil => rfl
    | cons c cs =>
      obtain ⟨kind, n, hjs⟩ : ∃ kind n, p.next .javaScript (c :: cs) = (kind, n) := ⟨_, _, rfl⟩
      simp only [lexemesFrom, hjs, List.forall_mem_cons] at h ⊢
      have hnext : p.next d (c :: cs) = (kind, n) := by
        rw [← hjs]
        apply next_plain d hp
        intro hc hopener
        rw [hjs] at hopener
        cases hopener
        obtain rfl : c = '<' := by simpa using hc
        exact absurd h.1 (by simp [Lexeme.opensMarkup])
      rw [hnext]
      simp only [List.cons.injEq, true_and]
      exact ih (isPlain_after hp h.1) h.2

def IsPlainSource (source : String) : Prop :=
  ∀ x ∈ lexemes .javaScript source, x.opensMarkup = false

theorem lexemes_eq_of_plain (d : Dialect) {source : String} (h : IsPlainSource source) :
    lexemes d source = lexemes .javaScript source := by
  have hstart : Place.isPlain {} := fun _ hf => by cases hf
  unfold IsPlainSource lexemes at h
  unfold lexemes
  dsimp only at h ⊢
  split
  · next hshebang =>
    rw [if_pos hshebang] at h
    rw [lexemesFrom_plain d hstart fun x hx => h x (List.mem_cons_of_mem _ hx)]
  · next hshebang =>
    rw [if_neg hshebang] at h
    exact lexemesFrom_plain d hstart h

theorem tokensOf_eq_of_plain (d : Dialect) {source : String} (h : IsPlainSource source) :
    tokensOf d source = tokensOf .javaScript source := by
  rw [tokensOf, tokensOf, lexemes_eq_of_plain d h]

end ScriptManifest.Source
