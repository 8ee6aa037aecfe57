import ScriptManifest.Proofs.ParentPaths
import Mathlib.Data.List.Chain

/-!
The ancestors of a path. What a path names is the list of its components: the root or a first
segment, and the later segments that carry weight. The parent of a path is its shortest front that
names all but the last component (`parentChars_eq_some_iff`), so it is shorter than the path, and the
way up from any path ends (`lineage`). The ancestors are cut from the front of that way
(`ancestors_are_shrinking_chain`).
-/

namespace ScriptManifest.Path

/-! ### Components -/

/-- What is named by the first segment of a path with the further segments `rest`: an empty one stands
for the root if there are any. -/
def firstComponents (first : List Char) (rest : List (List Char)) : List (List Char) :=
  if first ≠ [] then [first] else if rest = [] then [] else [['/']]

def weighty (ss : List (List Char)) : List (List Char) := ss.filter (!isIdle ·)

/-- What a path names, from its start down. -/
def components (p : List Char) : List (List Char) :=
  match segments p with
  | [] => []
  | first :: rest => firstComponents first rest ++ weighty rest

theorem components_of_segments {p first : List Char} {rest : List (List Char)}
    (h : segments p = first :: rest) :
    components p = firstComponents first rest ++ weighty rest := by
  rw [components, h]

theorem weighty_append (ss ts : List (List Char)) : weighty (ss ++ ts) = weighty ss ++ weighty ts :=
  List.filter_append ..

theorem weighty_of_idle {ss : List (List Char)} (h : ∀ s ∈ ss, isIdle s = true) : weighty ss = [] := by
  rw [weighty, List.filter_eq_nil_iff]
  intro s hs
  simp [h s hs]

theorem weighty_singleton {s : List Char} (h : isIdle s = false) : weighty [s] = [s] := by
  simp [weighty, h]

theorem segments_ne_nil (p : List Char) : segments p ≠ [] := by
  rw [segments_eq_splitOn]
  exact List.splitOn_ne_nil _ _

theorem exists_segments (p : List Char) : ∃ first rest, segments p = first :: rest :=
  List.exists_cons_of_ne_nil (segments_ne_nil p)

theorem segments_first_eq_nil_iff {p first : List Char} {rest : List (List Char)}
    (h : segments p = first :: rest) (hp : p ≠ []) : first = [] ↔ p.head? = some '/' := by
  obtain ⟨c, cs, rfl⟩ := List.exists_cons_of_ne_nil hp
  rw [segments] at h
  split at h
  · next hc =>
    cases h
    simp [hc]
  · next hc =>
    split at h <;> cases h <;> simp [hc]

theorem components_eq_nil_iff (p : List Char) : components p = [] ↔ p = [] := by
  constructor
  · intro h
    obtain ⟨first, rest, hp⟩ := exists_segments p
    rw [components_of_segments hp, List.append_eq_nil_iff, firstComponents] at h
    split_ifs at h with hfirst hrest
    · cases h.1
    · rw [← ofSegments_segments p, hp, hrest, not_not.mp hfirst]
      rfl
    · cases h.1
  · rintro rfl
    rfl

theorem head?_components_eq_root_iff (p : List Char) :
    (components p).head? = some ['/'] ↔ p.head? = some '/' := by
  by_cases hp : p = []
  · simp [hp, components, firstComponents, segments, weighty]
  · obtain ⟨first, rest, hsegments⟩ := exists_segments p
    have hfirst := segments_first_eq_nil_iff hsegments hp
    rw [components_of_segments hsegments, firstComponents]
    split_ifs with hne hrest
    · have hslash : first ≠ ['/'] := by
        rintro rfl
        exact slash_not_mem (p := p) (by rw [hsegments]; simp) (by simp : '/' ∈ ['/'])
      simpa [hslash] using mt hfirst.mpr hne
    · -- a single empty segment is the empty path
      rw [← ofSegments_segments p, hsegments, hrest, not_not.mp hne] at hp
      exact (hp rfl).elim
    · simpa using hfirst.mp (not_not.mp hne)

/-! ### The weight of a front -/

def weight (p : List Char) : Nat := (components p).flatten.length

theorem segments_concat_slash (p : List Char) : segments (p ++ ['/']) = segments p ++ [[]] := by
  have hne := segments_ne_nil p
  have hslash : ∀ s ∈ segments p ++ [[]], '/' ∉ s := by
    intro s hs
    obtain hs | rfl := List.mem_append.mp hs |>.imp_right List.mem_singleton.mp
    · exact slash_not_mem hs
    · simp
  have hp := ofSegments_append hne (List.cons_ne_nil [] [])
  rw [ofSegments_segments] at hp
  have htext : p ++ ['/'] = ofSegments (segments p ++ [[]]) := by
    rw [hp]
    rfl
  rw [htext, segments_ofSegments (by simp) hslash]

theorem segments_concat {c : Char} (hc : c ≠ '/') {p last : List Char} {front : List (List Char)}
    (hp : segments p = front ++ [last]) : segments (p ++ [c]) = front ++ [last ++ [c]] := by
  have hslash : ∀ s ∈ front ++ [last ++ [c]], '/' ∉ s := by
    intro s hs
    obtain hs | rfl := List.mem_append.mp hs |>.imp_right List.mem_singleton.mp
    · exact slash_not_mem (p := p) (by rw [hp]; exact List.mem_append_left _ hs)
    · have hlast : '/' ∉ last := slash_not_mem (p := p) (by rw [hp]; simp)
      simp [hlast, Ne.symm hc]
  have htext : p ++ [c] = ofSegments (front ++ [last ++ [c]]) := by
    rw [← ofSegments_segments p, hp]
    by_cases hfront : front = []
    · simp [hfront, ofSegments]
    · rw [ofSegments_append hfront (by simp), ofSegments_append hfront (by simp)]
      simp [ofSegments]
  rw [htext, segments_ofSegments (by simp) hslash]

theorem weight_of_segments {p first : List Char} {rest : List (List Char)}
    (h : segments p = first :: rest) :
    weight p = (firstComponents first rest).flatten.length + (weighty rest).flatten.length := by
  rw [weight, components_of_segments h, List.flatten_append, List.length_append]

theorem length_firstComponents_mono (first : List Char) (rest : List (List Char)) (s : List Char) :
    (firstComponents first rest).flatten.length ≤
      (firstComponents first (rest ++ [s])).flatten.length := by
  simp only [firstComponents]
  split_ifs <;> simp_all

theorem length_weighty_concat (s : List Char) (c : Char) :
    (weighty [s]).flatten.length ≤ (weighty [s ++ [c]]).flatten.length ∧
      (isIdle (s ++ [c]) = false →
        (weighty [s]).flatten.length < (weighty [s ++ [c]]).flatten.length) := by
  have hle : (weighty [s]).flatten.length ≤ s.length := by
    cases h : isIdle s <;> simp [weighty, h]
  cases hidle : isIdle (s ++ [c]) with
  | false =>
    rw [weighty_singleton hidle, List.flatten_singleton, List.length_append, List.length_singleton]
    omega
  | true =>
    -- only the empty segment can be made longer and stay idle
    have hs : s = [] := by
      cases s with
      | nil => rfl
      | cons d ds => simp [isIdle] at hidle
    simp [hs, weighty, isIdle]

def EndsNamed (p : List Char) : Prop :=
  ∃ front last, segments p = front ++ [last] ∧ last ≠ [] ∧ (front = [] ∨ isIdle last = false)

theorem weight_concat (p : List Char) (c : Char) :
    weight p ≤ weight (p ++ [c]) ∧ (EndsNamed (p ++ [c]) → weight p < weight (p ++ [c])) := by
  obtain ⟨front, last, hp⟩ : ∃ front last, segments p = front ++ [last] :=
    ⟨_, _, (List.dropLast_append_getLast (segments_ne_nil p)).symm⟩
  by_cases hc : c = '/'
  · subst hc
    have hnext := segments_concat_slash p
    refine ⟨?_, ?_⟩
    · obtain ⟨first, rest, hfirst⟩ := exists_segments p
      rw [hfirst, List.cons_append] at hnext
      have hmono := length_firstComponents_mono first rest []
      rw [weight_of_segments hfirst, weight_of_segments hnext, weighty_append]
      simp only [List.flatten_append, List.length_append]
      omega
    · rintro ⟨front', last', hends, hne, -⟩
      rw [hnext] at hends
      exact (hne (List.append_inj_right' hends rfl |> List.singleton_inj.mp).symm).elim
  · have hnext := segments_concat hc hp
    cases front with
    | nil =>
      rw [List.nil_append] at hp hnext
      have hlt : weight p < weight (p ++ [c]) := by
        rw [weight_of_segments hp, weight_of_segments hnext]
        simp only [firstComponents]
        split_ifs <;> simp_all
      exact ⟨hlt.le, fun _ => hlt⟩
    | cons first mid =>
      rw [List.cons_append] at hp hnext
      have hlast := length_weighty_concat last c
      have hfirst : firstComponents first (mid ++ [last]) =
          firstComponents first (mid ++ [last ++ [c]]) := by simp [firstComponents]
      rw [weight_of_segments hp, weight_of_segments hnext, hfirst, weighty_append, weighty_append]
      simp only [List.flatten_append, List.length_append]
      refine ⟨by omega, ?_⟩
      rintro ⟨front', last', hends, -, hnamed⟩
      rw [hnext, ← List.cons_append] at hends
      obtain ⟨hfront, hlast'⟩ := List.append_inj' hends rfl
      have hidle : isIdle (last ++ [c]) = false := by
        rw [List.singleton_inj.mp hlast']
        exact hnamed.resolve_left (by simp [← hfront])
      have := hlast.2 hidle
      omega

theorem weight_mono {r p : List Char} (h : r <+: p) : weight r ≤ weight p := by
  obtain ⟨tail, rfl⟩ := h
  induction tail using List.reverseRecOn with
  | nil => simp
  | append_singleton tail c ih =>
    rw [← List.append_assoc]
    exact ih.trans (weight_concat (r ++ tail) c).1

theorem length_le_of_components_eq {q r : List Char} (hq : EndsNamed q) (hr : r <+: q)
    (h : components r = components q) : q.length ≤ r.length := by
  by_contra hlt
  obtain ⟨tail, rfl⟩ := hr
  obtain rfl | ⟨tail, c, rfl⟩ := List.eq_nil_or_concat' tail
  · simp at hlt
  · rw [← List.append_assoc] at hq
    have hstep := (weight_concat (r ++ tail) c).2 hq
    have hmono := weight_mono (List.prefix_append r tail)
    rw [List.append_assoc] at hstep
    have hsame : weight r = weight (r ++ (tail ++ [c])) := by rw [weight, weight, h]
    omega

/-! ### Parents -/

/-- The parent of a path: its shortest front that names all but the last component, which is not the
root. -/
structure IsParent (p q : List Char) : Prop where
  components_eq : ∃ last, last ≠ ['/'] ∧ components p = components q ++ [last]
  isPrefix : q <+: p
  shortest : ∀ r, r <+: p → components r = components q → q.length ≤ r.length

theorem endsNamed_of_segments {q first : List Char} {kept : List (List Char)}
    (hq : segments q = first :: kept) (hkept : ∀ s ∈ kept.getLast?, isIdle s = false)
    (hne : ¬ (first = [] ∧ kept = [])) : EndsNamed q := by
  obtain rfl | ⟨front, s, rfl⟩ := List.eq_nil_or_concat' kept
  · exact ⟨[], first, hq, fun hfirst => hne ⟨hfirst, rfl⟩, .inl rfl⟩
  · have hs : isIdle s = false := hkept s (by simp)
    refine ⟨first :: front, s, by simp [hq], ?_, .inr hs⟩
    rintro rfl
    cases hs

theorem isParent_of_parentChars {p q : List Char} (h : parentChars p = some q) : IsParent p q := by
  obtain ⟨r, -, htext⟩ := exists_append_of_parentChars h
  have hfront : q <+: p := ⟨r, htext.symm⟩
  have hslash : ∀ s ∈ segments p, s ≠ ['/'] := by
    rintro s hs rfl
    exact slash_not_mem hs (by simp)
  obtain ⟨first, rest, hp, hcut⟩ := exists_cut_of_parentChars h
  obtain ⟨rfl, hfirst, hidle⟩ | ⟨kept, idle, last, behind, rfl, hidle, hlast, hbehind, hkept, hq⟩ := hcut
  · refine ⟨⟨first, hslash first (by simp [hp]), ?_⟩, List.nil_prefix, by simp⟩
    rw [components_of_segments hp, weighty_of_idle hidle]
    simp [firstComponents, hfirst, components, segments, weighty]
  · have hp' : components p = firstComponents first [last] ++ weighty kept ++ [last] := by
      rw [components_of_segments hp, weighty_append, weighty_append, weighty_of_idle hidle,
        ← List.singleton_append, weighty_append, weighty_singleton hlast, weighty_of_idle hbehind]
      simp [firstComponents]
    have hlast' : last ≠ ['/'] := hslash last (by simp [hp])
    split_ifs at hq with hroot
    · -- the root alone is kept
      obtain ⟨rfl, rfl⟩ := hroot
      subst hq
      refine ⟨⟨last, hlast', hp'⟩, hfront, fun front _ hnames => ?_⟩
      have hne : front ≠ [] := by
        rintro rfl
        cases hnames
      simpa [Nat.one_le_iff_ne_zero] using hne
    · have hsegments : segments q = first :: kept := by
        rw [hq]
        refine segments_ofSegments (by simp) fun s hs => slash_not_mem (p := p) ?_
        rw [hp]
        obtain rfl | hs := List.mem_cons.mp hs
        · simp
        · simp [hs]
      have hnamed : EndsNamed q := endsNamed_of_segments hsegments hkept hroot
      have hfirst : firstComponents first [last] = firstComponents first kept := by
        rw [firstComponents, firstComponents]
        split_ifs <;> simp_all
      refine ⟨⟨last, hlast', ?_⟩, hfront, fun front hshorter hnames => ?_⟩
      · rw [hp', components_of_segments hsegments, hfirst]
      · by_contra hlt
        have hinside := List.prefix_of_prefix_length_le hshorter hfront (by omega)
        exact hlt (length_le_of_components_eq hnamed hinside hnames)

theorem parentChars_eq_none_iff (p : List Char) :
    parentChars p = none ↔ components p = [] ∨ components p = [['/']] := by
  constructor
  · intro h
    obtain ⟨first, rest, hp⟩ := exists_segments p
    rw [parentChars, hp] at h
    dsimp only at h
    split at h
    · next hidle =>
      rw [List.dropWhile_eq_nil_iff] at hidle
      have hrest := weighty_of_idle fun s hs => hidle s (List.mem_reverse.mpr hs)
      split at h
      · next hfirst =>
        rw [components_of_segments hp, hrest, firstComponents, if_neg (by simpa using hfirst)]
        split_ifs <;> simp
      · cases h
    · split at h
      · split at h <;> cases h
      · cases h
  · intro h
    rw [Option.eq_none_iff_forall_ne_some]
    intro q hq
    obtain ⟨⟨last, hlast, hp⟩, -, -⟩ := isParent_of_parentChars hq
    obtain h | h := h
    · simp [hp] at h
    · rw [hp, ← List.nil_append [['/']]] at h
      exact hlast (List.singleton_inj.mp (List.append_inj_right' h rfl))

/-- The parent of a path is the front that its components ask for. -/
theorem parentChars_eq_some_iff {p q : List Char} : parentChars p = some q ↔ IsParent p q := by
  refine ⟨isParent_of_parentChars, fun h => ?_⟩
  obtain ⟨last, hlast, hp⟩ := h.components_eq
  cases hparent : parentChars p with
  | none =>
    obtain hnone | hroot := (parentChars_eq_none_iff p).mp hparent
    · simp [hp] at hnone
    · rw [hp, ← List.nil_append [['/']]] at hroot
      exact (hlast (List.singleton_inj.mp (List.append_inj_right' hroot rfl))).elim
  | some q' =>
    have h' := isParent_of_parentChars hparent
    obtain ⟨last', -, hp'⟩ := h'.components_eq
    have hnames : components q = components q' := by
      rw [hp] at hp'
      exact List.append_inj_left' hp' rfl
    have hlength : q.length = q'.length :=
      Nat.le_antisymm (h.shortest q' h'.isPrefix hnames.symm) (h'.shortest q h.isPrefix hnames)
    have hfront := List.prefix_of_prefix_length_le h.isPrefix h'.isPrefix hlength.le
    rw [hfront.eq_of_length hlength]

theorem parent?_eq_some_iff_isParent {p q : String} :
    parent? p = some q ↔ IsParent p.toList q.toList := by
  rw [parent?_eq_some_iff, parentChars_eq_some_iff]

theorem parent?_eq_none_iff (p : String) :
    parent? p = none ↔ components p.toList = [] ∨ components p.toList = [['/']] := by
  rw [parent?, Option.map_eq_none_iff, parentChars_eq_none_iff]

theorem IsParent.head?_eq_slash_iff {p q : List Char} (h : IsParent p q) :
    q.head? = some '/' ↔ p.head? = some '/' := by
  obtain ⟨last, hlast, hp⟩ := h.components_eq
  rw [← head?_components_eq_root_iff p, ← head?_components_eq_root_iff q, hp, List.head?_append]
  cases components q with
  | nil => simpa using hlast
  | cons first rest => simp

/-! ### The way up -/

/-- A path, its parent, the parent's parent and so on, up to one that has no parent. -/
def lineage (p : String) : List String :=
  match _h : parent? p with
  | none => [p]
  | some q => p :: lineage q
termination_by p.length
decreasing_by exact length_lt_of_parent? ‹_›

theorem lineage_of_none {p : String} (h : parent? p = none) : lineage p = [p] := by
  rw [lineage]
  split
  · rfl
  · next hq => simp [h] at hq

theorem lineage_of_some {p q : String} (h : parent? p = some q) : lineage p = p :: lineage q := by
  rw [lineage]
  split
  · next hq => simp [h] at hq
  · next q' hq =>
    rw [h, Option.some.injEq] at hq
    rw [hq]

theorem head?_lineage (p : String) : (lineage p).head? = some p := by
  cases h : parent? p with
  | none => simp [lineage_of_none h]
  | some q => simp [lineage_of_some h]

theorem ancestors_eq_take (bound : Nat) (p : String) :
    ancestors bound p = (lineage p).take bound := by
  induction bound generalizing p with
  | zero => rfl
  | succ n ih =>
    rw [ancestors]
    cases h : parent? p with
    | none => simp [lineage_of_none h]
    | some q => simp [lineage_of_some h, ih]

theorem lineage_induction {motive : String → Prop} (top : ∀ p, parent? p = none → motive p)
    (step : ∀ p q, parent? p = some q → motive q → motive p) (p : String) : motive p := by
  induction hlength : p.length using Nat.strong_induction_on generalizing p with
  | _ n ih =>
    cases h : parent? p with
    | none => exact top p h
    | some q => exact step p q h (ih q.length (hlength ▸ length_lt_of_parent? h) q rfl)

theorem isChain_lineage (p : String) : (lineage p).IsChain fun p q => parent? p = some q := by
  induction p using lineage_induction with
  | top p h =>
    rw [lineage_of_none h]
    exact .singleton p
  | step p q h ih =>
    rw [lineage_of_some h, List.isChain_cons, head?_lineage]
    exact ⟨by simpa using h, ih⟩

theorem exists_getLast?_lineage (p : String) :
    ∃ last, (lineage p).getLast? = some last ∧ parent? last = none ∧
      (last.toList.head? = some '/' ↔ p.toList.head? = some '/') := by
  induction p using lineage_induction with
  | top p h => exact ⟨p, by simp [lineage_of_none h], h, Iff.rfl⟩
  | step p q h ih =>
    obtain ⟨last, hlast, hnone, hslash⟩ := ih
    have hparent := parent?_eq_some_iff_isParent.mp h
    refine ⟨last, ?_, hnone, hslash.trans hparent.head?_eq_slash_iff⟩
    rw [lineage_of_some h, List.getLast?_cons, hlast, Option.getD_some]

def IsShorterFront (p q : String) : Prop := q.toList <+: p.toList ∧ q.length < p.length

theorem isShorterFront_of_parent? {p q : String} (h : parent? p = some q) : IsShorterFront p q :=
  ⟨(parent?_eq_some_iff_isParent.mp h).isPrefix, length_lt_of_parent? h⟩

instance : Trans IsShorterFront IsShorterFront IsShorterFront where
  trans hpq hqr := ⟨hqr.1.trans hpq.1, Nat.lt_trans hqr.2 hpq.2⟩

theorem nodup_of_isChain {chain : List String} (h : chain.IsChain IsShorterFront) : chain.Nodup := by
  refine (List.isChain_iff_pairwise.mp h).imp ?_
  rintro p q ⟨-, hlt⟩ rfl
  exact Nat.lt_irrefl _ hlt

/-- A way up from a path: it starts there, every step goes to the parent, and it ends where there is
none. -/
structure IsLineage (start : String) (chain : List String) : Prop where
  head : chain.head? = some start
  steps : chain.IsChain fun p q => IsParent p.toList q.toList
  ends : ∀ last ∈ chain.getLast?, ∀ q, ¬ IsParent last.toList q

theorem isLineage_lineage (start : String) : IsLineage start (lineage start) where
  head := head?_lineage start
  steps := (isChain_lineage start).imp fun _ _ => parent?_eq_some_iff_isParent.mp
  ends := by
    intro last hlast q hq
    obtain ⟨last', hlast', hnone, -⟩ := exists_getLast?_lineage start
    obtain rfl : last' = last := by simpa [hlast'] using hlast
    rw [parent?, Option.map_eq_none_iff] at hnone
    rw [← parentChars_eq_some_iff, hnone] at hq
    cases hq

/-- The way up from a path ends, at the empty path or, from an absolute one, at a root. The ancestors
of a path are its first entries, as many as are asked for: none if none is asked for, and otherwise
the path as it is given and then always the parent, which is a shorter front of the path before it.
So no path comes twice, and a smaller bound only cuts the list off earlier. -/
theorem ancestors_are_shrinking_chain (start : String) :
    IsLineage start (lineage start) ∧
    (∃ last, (lineage start).getLast? = some last ∧
      (isAbsolute start = false → last = "") ∧
      (isAbsolute start = true → components last.toList = [['/']])) ∧
    ∀ max,
      (ancestors max start = [] ↔ max = 0) ∧
      (max ≠ 0 → (ancestors max start).head? = some start) ∧
      (ancestors max start).IsChain
        (fun p q => IsParent p.toList q.toList ∧ IsShorterFront p q) ∧
      (ancestors max start).Nodup ∧
      (ancestors max start).length = min max (lineage start).length ∧
      ∀ larger, max ≤ larger → ancestors max start <+: ancestors larger start := by
  refine ⟨isLineage_lineage start, ?_, fun max => ?_⟩
  · obtain ⟨last, hlast, hnone, hslash⟩ := exists_getLast?_lineage start
    have hnames := (parent?_eq_none_iff last).mp hnone
    have habsolute : isAbsolute start = true ↔ (components last.toList).head? = some ['/'] := by
      rw [head?_components_eq_root_iff, hslash, isAbsolute, beq_iff_eq]
    refine ⟨last, hlast, fun hstart => ?_, fun hstart => ?_⟩
    · obtain hempty | hroot := hnames
      · rwa [components_eq_nil_iff, String.toList_eq_nil_iff] at hempty
      · rw [habsolute.mpr (by simp [hroot])] at hstart
        cases hstart
    · obtain hempty | hroot := hnames
      · have hhead := habsolute.mp hstart
        simp [hempty] at hhead
      · exact hroot
  · have hsteps := (isChain_lineage start).take max
    obtain ⟨further, hlineage⟩ : ∃ further, lineage start = start :: further :=
      List.head?_eq_some_iff.mp (head?_lineage start)
    simp only [ancestors_eq_take]
    refine ⟨by simp [hlineage], ?_, ?_, ?_, List.length_take, ?_⟩
    · intro hmax
      rw [List.head?_take, if_neg hmax, head?_lineage]
    · exact hsteps.imp fun p q h => ⟨parent?_eq_some_iff_isParent.mp h, isShorterFront_of_parent? h⟩
    · exact nodup_of_isChain (hsteps.imp fun p q => isShorterFront_of_parent?)
    · exact fun larger hle => List.take_prefix_take_left hle

/-- From a path with idle segments and `..` in it up to the root, and from one that is relative. -/
theorem ancestors_are_shrinking_chain_idle :
    ancestors 9 "/a//./b/../c/." = ["/a//./b/../c/.", "/a//./b/..", "/a//./b", "/a", "/"] ∧
    (ancestors 9 "/a//./b/../c/.").Nodup ∧
    ancestors 2 "/a//./b/../c/." <+: ancestors 9 "/a//./b/../c/." ∧
    ancestors 9 "./a/" = ["./a/", ".", ""] ∧
    (ancestors 2 "./a/").head? = some "./a/" ∧
    (∃ last, (lineage "./a/").getLast? = some last ∧ last = "") ∧
    ∃ last, (lineage "//").getLast? = some last ∧ components last.toList = [['/']] := by
  obtain ⟨-, -, hdeep⟩ := ancestors_are_shrinking_chain "/a//./b/../c/."
  obtain ⟨-, ⟨last, hlast, hempty, -⟩, hrelative⟩ := ancestors_are_shrinking_chain "./a/"
  obtain ⟨-, ⟨root, hroot, -, hnames⟩, -⟩ := ancestors_are_shrinking_chain "//"
  refine ⟨by decide, (hdeep 9).2.2.2.1, (hdeep 2).2.2.2.2.2 9 (by decide), by decide,
    (hrelative 2).2.1 (by decide), ⟨last, hlast, hempty (by decide)⟩, root, hroot,
    hnames (by decide)⟩

end ScriptManifest.Path
