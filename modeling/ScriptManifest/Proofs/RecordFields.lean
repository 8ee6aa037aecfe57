import ScriptManifest.Proofs.DocumentReading
import Mathlib.Data.List.Nodup

/-!
Records and the fields of the objects that they are read from. A record knows some fields; each has a
place in the state of the reading, and a reader for its value (`Component`). Where the reading leads
depends on the fields of each name only (`Collects`), so neither on the order of the fields nor on
those that the record does not know. An object with all that a record needs is taken
(`takes_of_shows`), and one in which a field is missing, comes twice or has a value that is refused is
refused (`refuses_of_damages`).
-/

namespace ScriptManifest.Manifest

open Document

structure Component (σ : Type) where
  key : String
  {α : Type}
  /-- The value of the field, if it has been read. -/
  get : σ → Option α
  set : σ → α → σ
  read : Reader α

section Components
variable {σ : Type}

/-- The values of the fields of an object are read by components, and each has a place of its own. -/
structure ReadsBy (components : List (Component σ)) (start : σ) (field : String → σ → Reader σ) :
    Prop where
  known : ∀ c ∈ components, ∀ s, field c.key s = setField (c.get s) c.read (c.set s)
  unknown : ∀ k ∉ components.map Component.key, ∀ s, field k s = skipField s
  distinct : (components.map Component.key).Nodup
  empty : ∀ c ∈ components, c.get start = none
  get_set : ∀ c ∈ components, ∀ s a, c.get (c.set s a) = some a
  get_set_ne : ∀ c ∈ components, ∀ c' ∈ components, c.key ≠ c'.key →
    ∀ s a, c'.get (c.set s a) = c'.get s
  ext : ∀ s s', (∀ c ∈ components, c.get s = c.get s') → s = s'
  aligned : ∀ c ∈ components, Aligned c.read

def named (k : String) (fs : List (Option String × Document)) : List (Option String × Document) :=
  fs.filter (·.1 = some k)

inductive Collects {α : Type} (k : String) (read : Reader α) (fs : List (Option String × Document)) :
    Option α → Option α → Prop
  | missing (h : named k fs = []) (old : Option α) : Collects k read fs old old
  | once {d : Document} {a : α} (h : named k fs = [(some k, d)]) (ha : Takes read d a) :
    Collects k read fs none (some a)

theorem named_cons_self (k : String) (d : Document) (fs : List (Option String × Document)) :
    named k ((some k, d) :: fs) = (some k, d) :: named k fs := by
  simp [named]

theorem named_cons_ne {k k' : String} (h : k' ≠ k) (d : Document)
    (fs : List (Option String × Document)) : named k ((some k', d) :: fs) = named k fs := by
  simp [named, h]

namespace Collects
variable {α : Type} {k : String} {read : Reader α} {fs gs : List (Option String × Document)}
  {old new : Option α}

theorem unique {new' : Option α} (h : Collects k read fs old new) (h' : Collects k read fs old new') :
    new = new' := by
  cases h with
  | missing hnone =>
    cases h' with
    | missing => rfl
    | once hone => simp [hnone] at hone
  | once hone ha =>
    cases h' with
    | missing hnone => simp [hnone] at hone
    | once hone' ha' =>
      rw [hone] at hone'
      cases hone'
      rw [ha.unique ha']

theorem of_named (hnamed : named k fs = named k gs) (h : Collects k read gs old new) :
    Collects k read fs old new := by
  cases h with
  | missing hnone => exact .missing (hnamed.trans hnone) _
  | once hone ha => exact .once (hnamed.trans hone) ha

theorem append (hgs : named k gs = []) (h : Collects k read fs old new) :
    Collects k read (fs ++ gs) old new := by
  refine h.of_named ?_
  rw [named, List.filter_append]
  exact (congrArg _ hgs).trans (List.append_nil _)

theorem prepend (hgs : named k gs = []) (h : Collects k read fs old new) :
    Collects k read (gs ++ fs) old new := by
  refine h.of_named ?_
  rw [named, List.filter_append]
  exact congrArg (· ++ named k fs) hgs

theorem perm (hperm : fs.Perm gs) (h : Collects k read gs old new) : Collects k read fs old new := by
  have hnamed : (named k fs).Perm (named k gs) := hperm.filter _
  cases h with
  | missing hnone =>
    rw [hnone, List.perm_nil] at hnamed
    exact .missing hnamed _
  | once hone ha =>
    rw [hone, List.perm_singleton] at hnamed
    exact .once hnamed ha

theorem of_some (h : Collects k read fs old new) {a : α} (ha : old = some a) :
    named k fs = [] ∧ new = some a := by
  cases h with
  | missing hnone => exact ⟨hnone, ha⟩
  | once hone _ => cases ha

theorem of_cons {d : Document} (h : Collects k read ((some k, d) :: fs) old new) :
    old = none ∧ named k fs = [] ∧ ∃ a, Takes read d a := by
  cases h with
  | missing hno => simp [named_cons_self] at hno
  | once hone ha =>
    rw [named_cons_self, List.cons.injEq, Prod.mk.injEq] at hone
    obtain ⟨⟨-, rfl⟩, hfurther⟩ := hone
    exact ⟨rfl, hfurther, _, ha⟩

theorem length_le_one (h : Collects k read fs old new) : (named k fs).length ≤ 1 := by
  cases h with
  | missing hno => simp [hno]
  | once hone _ => simp [hone]

theorem takes_of_mem (h : Collects k read fs old new) {d : Document} (hd : (some k, d) ∈ fs) :
    ∃ a, Takes read d a := by
  have hmem : (some k, d) ∈ named k fs := List.mem_filter.mpr ⟨hd, by simp⟩
  cases h with
  | missing hno => simp [hno] at hmem
  | once hone ha =>
    rw [hone, List.mem_singleton] at hmem
    cases hmem
    exact ⟨_, ha⟩

end Collects

variable {components : List (Component σ)} {start : σ} {field : String → σ → Reader σ}

theorem ReadsBy.eq_of_key (h : ReadsBy components start field) {c c' : Component σ}
    (hc : c ∈ components) (hc' : c' ∈ components) (hkey : c.key = c'.key) : c = c' :=
  List.inj_on_of_nodup_map h.distinct hc hc' hkey

/-! ### One field -/

theorem ReadsBy.fieldTakes_known (h : ReadsBy components start field) {c : Component σ}
    (hc : c ∈ components) {s : σ} (hs : c.get s = none) {d : Document} {a : c.α}
    (ha : Takes c.read d a) : FieldTakes field c.key s d (c.set s a) := by
  intro rest
  simp [h.known c hc, setField, hs, ha rest]

theorem ReadsBy.fieldTakes_unknown (h : ReadsBy components start field) {k : String}
    (hk : k ∉ components.map Component.key) (s : σ) (d : Document) : FieldTakes field k s d s := by
  intro rest
  simp [h.unknown k hk, skipField, setField, takes_skipValue d rest]

theorem ReadsBy.fieldRefuses_again (h : ReadsBy components start field) {c : Component σ}
    (hc : c ∈ components) {s : σ} (hs : (c.get s).isSome = true) (d : Document) :
    FieldRefuses field c.key s d := by
  intro rest
  exact ⟨.data, by simp [h.known c hc, setField, hs]⟩

theorem ReadsBy.fieldRefuses_value (h : ReadsBy components start field) {c : Component σ}
    (hc : c ∈ components) (s : σ) {d : Document} (hd : Refuses c.read d) :
    FieldRefuses field c.key s d := by
  intro rest
  obtain ⟨f, hf⟩ := hd rest
  cases hs : c.get s with
  | some a => exact ⟨.data, by simp [h.known c hc, setField, hs]⟩
  | none => exact ⟨f, by simp [h.known c hc, setField, hs, hf]⟩

theorem ReadsBy.fieldsAligned (h : ReadsBy components start field) : FieldsAligned field := by
  intro k s d
  by_cases hk : k ∈ components.map Component.key
  · obtain ⟨c, hc, rfl⟩ := List.mem_map.mp hk
    obtain ⟨a, ha⟩ | hd := h.aligned c hc d
    · cases hs : c.get s with
      | none => exact .inl ⟨_, h.fieldTakes_known hc hs ha⟩
      | some b => exact .inr (h.fieldRefuses_again hc (by simp [hs]) d)
    · exact .inr (h.fieldRefuses_value hc s hd)
  · exact .inl ⟨s, h.fieldTakes_unknown hk s d⟩

theorem ReadsBy.of_fieldTakes_known (h : ReadsBy components start field) {c : Component σ}
    (hc : c ∈ components) {s s' : σ} {d : Document} (hd : FieldTakes field c.key s d s') :
    c.get s = none ∧ ∃ a, Takes c.read d a ∧ s' = c.set s a := by
  cases hs : c.get s with
  | some b => exact (hd.not_refuses (h.fieldRefuses_again hc (by simp [hs]) d)).elim
  | none =>
    obtain ⟨a, ha⟩ | hrefuses := h.aligned c hc d
    · exact ⟨rfl, a, ha, hd.unique (h.fieldTakes_known hc hs ha)⟩
    · exact (hd.not_refuses (h.fieldRefuses_value hc s hrefuses)).elim

/-! ### All fields -/

theorem ReadsBy.collects_of_steps (h : ReadsBy components start field) {c : Component σ}
    (hc : c ∈ components) {s s' : σ} {fs : List (Option String × Document)}
    (hs : Steps field s fs s') : Collects c.key c.read fs (c.get s) (c.get s') := by
  induction hs with
  | nil s => exact .missing rfl _
  | @cons s t s' k d fs hd hs ih =>
    by_cases hk : k = c.key
    · subst hk
      obtain ⟨hnone, a, ha, rfl⟩ := h.of_fieldTakes_known hc hd
      -- a second field of the name would find the place taken
      obtain ⟨hfurther, hlast⟩ := ih.of_some (h.get_set c hc s a)
      rw [hnone, hlast]
      refine .once ?_ ha
      rw [named_cons_self, hfurther]
    · have hget : c.get t = c.get s := by
        by_cases hk' : k ∈ components.map Component.key
        · obtain ⟨c', hc', rfl⟩ := List.mem_map.mp hk'
          obtain ⟨-, a, -, rfl⟩ := h.of_fieldTakes_known hc' hd
          exact h.get_set_ne c' hc' c hc hk s a
        · rw [hd.unique (h.fieldTakes_unknown hk' s d)]
      rw [hget] at ih
      exact ih.of_named (named_cons_ne hk d fs)

theorem ReadsBy.exists_steps (h : ReadsBy components start field)
    {fs : List (Option String × Document)} (hkeys : ∀ f ∈ fs, ∃ k, f.1 = some k) (s : σ)
    (hall : ∀ c ∈ components, ∃ new, Collects c.key c.read fs (c.get s) new) :
    ∃ s', Steps field s fs s' := by
  induction fs generalizing s with
  | nil => exact ⟨s, .nil s⟩
  | cons f fs ih =>
    obtain ⟨key, d⟩ := f
    obtain ⟨k, rfl⟩ : ∃ k, key = some k := hkeys (key, d) (by simp)
    have hkeys' : ∀ f ∈ fs, ∃ k, f.1 = some k := fun f hf => hkeys f (List.mem_cons_of_mem _ hf)
    by_cases hk : k ∈ components.map Component.key
    · obtain ⟨c, hc, rfl⟩ := List.mem_map.mp hk
      obtain ⟨new, hnew⟩ := hall c hc
      obtain ⟨hnone, hfurther, a, ha⟩ := hnew.of_cons
      obtain ⟨s', hs'⟩ := ih hkeys' (c.set s a) fun c' hc' => by
        by_cases hkey : c'.key = c.key
        · obtain rfl := h.eq_of_key hc' hc hkey
          exact ⟨_, .missing hfurther _⟩
        · obtain ⟨new', hnew'⟩ := hall c' hc'
          rw [h.get_set_ne c hc c' hc' (Ne.symm hkey)]
          exact ⟨new', hnew'.of_named (named_cons_ne (Ne.symm hkey) d fs).symm⟩
      exact ⟨s', .cons (h.fieldTakes_known hc hnone ha) hs'⟩
    · obtain ⟨s', hs'⟩ := ih hkeys' s fun c hc => by
        obtain ⟨new, hnew⟩ := hall c hc
        have hne : k ≠ c.key := by
          rintro rfl
          exact hk (List.mem_map_of_mem hc)
        exact ⟨new, hnew.of_named (named_cons_ne hne d fs).symm⟩
      exact ⟨s', .cons (h.fieldTakes_unknown hk s d) hs'⟩

/-! ### Objects that show a record -/

/-- An object with some fields, and with others of any name that is not known, in any order. -/
inductive ShowsObject (known : List String) (fields : List (Option String × Document)) :
    Document → Prop
  | mk {all extras : List (Option String × Document)} (hperm : all.Perm (fields ++ extras))
    (hextras : ∀ f ∈ extras, ∃ k, f.1 = some k ∧ k ∉ known) : ShowsObject known fields (.object all)

theorem named_eq_nil_of_extras {known : List String} {extras : List (Option String × Document)}
    (hextras : ∀ f ∈ extras, ∃ k, f.1 = some k ∧ k ∉ known) {k : String} (hk : k ∈ known) :
    named k extras = [] := by
  rw [named, List.filter_eq_nil_iff]
  intro f hf hkey
  obtain ⟨k', hk', hno⟩ := hextras f hf
  have heq : some k' = some k := hk'.symm.trans (by simpa using hkey)
  cases heq
  exact hno hk

variable {α : Type} {finish : σ → Option α} {parts : Reader α}

/-- A record is taken from an object that shows it: where its fields lead is where they would lead on
their own and in their order. -/
theorem ReadsBy.takes_of_shows (h : ReadsBy components start field)
    {fields : List (Option String × Document)} (hkeys : ∀ f ∈ fields, ∃ k, f.1 = some k) {s : σ}
    (hall : ∀ c ∈ components, Collects c.key c.read fields none (c.get s)) {a : α}
    (ha : finish s = some a) {d : Document} (hd : ShowsObject (components.map Component.key) fields d) :
    Takes (readRecord start field finish parts) d a := by
  obtain @⟨all, extras, hperm, hextras⟩ := hd
  have hcollects : ∀ c ∈ components, Collects c.key c.read all none (c.get s) := by
    intro c hc
    have hno : named c.key extras = [] := named_eq_nil_of_extras hextras (List.mem_map_of_mem hc)
    exact ((hall c hc).append hno).perm hperm
  have hallKeys : ∀ f ∈ all, ∃ k, f.1 = some k := by
    intro f hf
    obtain hf | hf := List.mem_append.mp (hperm.mem_iff.mp hf)
    · exact hkeys f hf
    · obtain ⟨k, hk, -⟩ := hextras f hf
      exact ⟨k, hk⟩
  obtain ⟨s', hs'⟩ := h.exists_steps hallKeys start fun c hc =>
    ⟨c.get s, by rw [h.empty c hc]; exact hcollects c hc⟩
  have heq : s' = s := h.ext s' s fun c hc => by
    have hend := h.collects_of_steps hc hs'
    rw [h.empty c hc] at hend
    exact hend.unique (hcollects c hc)
  subst heq
  exact takes_record h.fieldsAligned hs' ha

/-! ### Damaged objects -/

/-- An object is damaged in one place: a field that has to be there is taken out, a known field is
given for the second time, or a value is replaced. -/
inductive DamagesObject (required known : List String)
    (replaces : String → Document → Document → Prop) : Document → Document → Prop
  | delete {k : String} (hk : k ∈ required) (fs : List (Option String × Document)) :
    DamagesObject required known replaces (.object fs) (.object (fs.filter (·.1 ≠ some k)))
  | duplicate {k : String} (hk : k ∈ known) {front back : List (Option String × Document)}
    (h : some k ∈ (front ++ back).map Prod.fst) (d : Document) :
    DamagesObject required known replaces (.object (front ++ back))
      (.object (front ++ (some k, d) :: back))
  | replace {k : String} {d d' : Document} (h : replaces k d d')
    (front back : List (Option String × Document)) :
    DamagesObject required known replaces (.object (front ++ (some k, d) :: back))
      (.object (front ++ (some k, d') :: back))

theorem length_named_duplicate {k : String} {front back : List (Option String × Document)}
    (h : some k ∈ (front ++ back).map Prod.fst) (d : Document) :
    2 ≤ (named k (front ++ (some k, d) :: back)).length := by
  obtain ⟨f, hf, hkey⟩ := List.mem_map.mp h
  have hmem : f ∈ named k (front ++ back) := List.mem_filter.mpr ⟨hf, by simpa using hkey⟩
  have hpos := List.length_pos_of_mem hmem
  have hperm : (front ++ (some k, d) :: back).Perm ((some k, d) :: (front ++ back)) :=
    List.perm_middle
  have hlength := (hperm.filter fun f => f.1 = some k).length_eq
  change (named k (front ++ (some k, d) :: back)).length =
    (named k ((some k, d) :: (front ++ back))).length at hlength
  rw [hlength, named_cons_self, List.length_cons]
  omega

/-- A damaged object is refused. -/
theorem ReadsBy.refuses_of_damages (h : ReadsBy components start field) {required : List String}
    (hknown : required ⊆ components.map Component.key)
    (hrequired : ∀ c ∈ components, c.key ∈ required → ∀ s, c.get s = none → finish s = none)
    {replaces : String → Document → Document → Prop}
    (hreplaces : ∀ k d d', replaces k d d' → ∃ c ∈ components, c.key = k ∧ Refuses c.read d')
    {d d' : Document}
    (hd : DamagesObject required (components.map Component.key) replaces d d') :
    Refuses (readRecord start field finish parts) d' := by
  cases hd with
  | @delete k hk fs =>
    refine refuses_record h.fieldsAligned fun s hs => ?_
    obtain ⟨c, hc, rfl⟩ := List.mem_map.mp (hknown hk)
    refine hrequired c hc hk s ?_
    have hno : named c.key (fs.filter (·.1 ≠ some c.key)) = [] := by
      simp [named, List.filter_filter]
    have hend := h.collects_of_steps hc hs
    rw [h.empty c hc] at hend
    exact hend.unique (.missing hno none)
  | @duplicate k hk front back htwice d =>
    refine refuses_record h.fieldsAligned fun s hs => ?_
    obtain ⟨c, hc, rfl⟩ := List.mem_map.mp hk
    have hone := (h.collects_of_steps hc hs).length_le_one
    have htwo := length_named_duplicate htwice d
    omega
  | @replace k d d' hreplace front back =>
    refine refuses_record h.fieldsAligned fun s hs => ?_
    obtain ⟨c, hc, rfl, hrefuses⟩ := hreplaces k d d' hreplace
    obtain ⟨a, ha⟩ := (h.collects_of_steps hc hs).takes_of_mem (by simp : (some c.key, d') ∈ _)
    exact (ha.not_refuses hrefuses).elim

end Components

end ScriptManifest.Manifest
