import ScriptManifest.Path
import Mathlib.Data.List.TakeWhile

/-!
Paths and their parents. A path is its parent and something more, so that it is longer than its
parent (`exists_append_of_parentChars`); and its segments are those of the parent and some more of which
one carries weight, unless the parent names nothing (`segments_of_parentChars`).
-/

namespace ScriptManifest.Path

/-! ### Segments and paths -/

theorem segments_eq_splitOn (p : List Char) : segments p = p.splitOn '/' := by
  induction p with
  | nil => rfl
  | cons c p ih =>
    rw [List.splitOn, List.splitOnP_cons_eq_if_modifyHead, ← List.splitOn, segments, ih]
    by_cases hc : c = '/'
    · simp [hc]
    · cases hp : p.splitOn '/' with
      | nil => exact (List.splitOn_ne_nil _ _ hp).elim
      | cons s ss => simp [hc]

theorem ofSegments_segments (p : List Char) : ofSegments (segments p) = p := by
  rw [segments_eq_splitOn, ofSegments, List.intercalate_splitOn]

theorem slash_not_mem {p s : List Char} (h : s ∈ segments p) : '/' ∉ s := by
  induction p generalizing s with
  | nil => simp_all [segments]
  | cons c p ih =>
    rw [segments] at h
    split at h
    · obtain rfl | h := List.mem_cons.mp h
      · simp
      · exact ih h
    · next hc =>
      split at h
      · obtain rfl := List.mem_singleton.mp h
        simpa using Ne.symm hc
      · next first further hp =>
        rw [hp] at ih
        obtain rfl | h := List.mem_cons.mp h
        · simpa [Ne.symm hc] using ih List.mem_cons_self
        · exact ih (List.mem_cons_of_mem first h)

theorem segments_ofSegments {ss : List (List Char)} (hne : ss ≠ []) (h : ∀ s ∈ ss, '/' ∉ s) :
    segments (ofSegments ss) = ss := by
  rw [segments_eq_splitOn, ofSegments, List.splitOn_intercalate '/' h hne]

theorem ofSegments_append {ss ts : List (List Char)} (hss : ss ≠ []) (hts : ts ≠ []) :
    ofSegments (ss ++ ts) = ofSegments ss ++ '/' :: ofSegments ts := by
  induction ss with
  | nil => exact (hss rfl).elim
  | cons s ss ih =>
    by_cases hs : ss = []
    · subst hs
      simp [ofSegments, List.intercalate_cons_of_ne_nil hts]
    · have hrest := ih hs
      rw [ofSegments, ofSegments] at hrest
      rw [List.cons_append, ofSegments, ofSegments, List.intercalate_cons_of_ne_nil (by simp [hs]),
        List.intercalate_cons_of_ne_nil hs, hrest]
      simp [ofSegments]

theorem exists_cut_of_dropWhile_reverse {α : Type} {p : α → Bool} {xs front : List α} {last : α}
    (h : xs.reverse.dropWhile p = last :: front) :
    ∃ behind, xs = front.reverse ++ last :: behind ∧ (∀ x ∈ behind, p x = true) ∧ p last = false := by
  have hsplit := List.takeWhile_append_dropWhile (p := p) (l := xs.reverse)
  rw [h] at hsplit
  refine ⟨(xs.reverse.takeWhile p).reverse, ?_, ?_, ?_⟩
  · simpa using (congrArg List.reverse hsplit).symm
  · intro x hx
    exact List.all_eq_true.mp List.all_takeWhile x (List.mem_reverse.mp hx)
  · have hhead := List.head_dropWhile_not p (l := xs.reverse) (by simp [h])
    simpa [h] using hhead

/-! ### Parents -/

theorem exists_cut_of_parentChars {p q : List Char} (h : parentChars p = some q) :
    ∃ first rest, segments p = first :: rest ∧
      ((q = [] ∧ first ≠ [] ∧ ∀ s ∈ rest, isIdle s = true) ∨
        ∃ kept idle last behind, rest = kept ++ (idle ++ last :: behind) ∧
          (∀ s ∈ idle, isIdle s = true) ∧ isIdle last = false ∧ (∀ s ∈ behind, isIdle s = true) ∧
          (∀ s ∈ kept.getLast?, isIdle s = false) ∧
          q = if first = [] ∧ kept = [] then ['/'] else ofSegments (first :: kept)) := by
  unfold parentChars at h
  split at h
  · cases h
  · next first rest hp =>
    refine ⟨first, rest, hp, ?_⟩
    split at h
    · next hidle =>
      rw [List.dropWhile_eq_nil_iff] at hidle
      split at h
      · cases h
      · next hfirst =>
        cases h
        exact .inl ⟨rfl, by simpa using hfirst, fun s hs => hidle s (List.mem_reverse.mpr hs)⟩
    · next last before hdrop =>
      obtain ⟨behind, rfl, hbehind, hlast⟩ := exists_cut_of_dropWhile_reverse hdrop
      refine .inr ?_
      split at h
      · next hidle =>
        rw [List.dropWhile_eq_nil_iff] at hidle
        refine ⟨[], before.reverse, last, behind, rfl, ?_, hlast, hbehind, by simp, ?_⟩
        · exact fun s hs => hidle s (List.mem_reverse.mp hs)
        · split at h <;> cases h <;> simp_all [ofSegments]
      · next b bs hbefore =>
        cases h
        have hcut : before.reverse.reverse.dropWhile isIdle = b :: bs := by simpa using hbefore
        obtain ⟨idle, hidle, hall, hb⟩ := exists_cut_of_dropWhile_reverse hcut
        refine ⟨bs.reverse ++ [b], idle, last, behind, by simp [hidle], hall, hlast, hbehind, ?_, ?_⟩
        · simp [hb]
        · simp

/-- A path of which `kept` are the first segments, and of whose further ones the last with a weight
is `last`. -/
def CutAt (p : List Char) (kept : List (List Char)) (last : List Char) : Prop :=
  isIdle last = false ∧ ∃ idle behind, segments p = kept ++ (idle ++ last :: behind)

theorem parentChars_cut {p q : List Char} (h : parentChars p = some q) :
    (q = [] ∧ p ≠ []) ∨ (q = ['/'] ∧ ∃ last, CutAt p [[]] last) ∨
      ∃ kept last, kept ≠ [] ∧ kept ≠ [[]] ∧ q = ofSegments kept ∧ CutAt p kept last := by
  obtain ⟨first, rest, hp, hcut⟩ := exists_cut_of_parentChars h
  obtain ⟨rfl, hfirst, -⟩ | ⟨kept, idle, last, behind, rfl, -, hlast, -, -, hq⟩ := hcut
  · refine .inl ⟨rfl, ?_⟩
    rintro rfl
    rw [segments, List.cons.injEq] at hp
    exact hfirst hp.1.symm
  · split at hq
    · next hroot =>
      obtain ⟨rfl, rfl⟩ := hroot
      exact .inr (.inl ⟨hq, last, hlast, idle, behind, hp⟩)
    · next hroot =>
      exact .inr (.inr ⟨first :: kept, last, by simp, by simpa using hroot, hq, hlast, idle, behind, hp⟩)

theorem CutAt.text {p last : List Char} {kept : List (List Char)} (h : CutAt p kept last)
    (hkept : kept ≠ []) : ∃ r, r ≠ [] ∧ p = ofSegments kept ++ '/' :: r := by
  obtain ⟨hlast, idle, behind, hp⟩ := h
  have hrest : idle ++ last :: behind ≠ [] := by simp
  refine ⟨ofSegments (idle ++ last :: behind), ?_, ?_⟩
  · intro hempty
    have hsegments := segments_ofSegments hrest fun s hs =>
      slash_not_mem (p := p) (by rw [hp]; exact List.mem_append_right kept hs)
    have hmem : last ∈ segments [] := by rw [← hempty, hsegments]; simp
    obtain rfl : last = [] := by simpa [segments] using hmem
    cases hlast
  · rw [← ofSegments_append hkept hrest, ← hp, ofSegments_segments]

theorem CutAt.segments_kept {p last : List Char} {kept : List (List Char)} (h : CutAt p kept last)
    (hkept : kept ≠ []) : segments (ofSegments kept) = kept := by
  obtain ⟨-, idle, behind, hp⟩ := h
  refine segments_ofSegments hkept fun s hs => slash_not_mem (p := p) ?_
  rw [hp]
  exact List.mem_append_left _ hs

/-- A parent that names something has its segments in front of the path's own, and starts where the
path does. -/
theorem segments_of_parentChars {p q : List Char} (h : parentChars p = some q) :
    (∀ s ∈ segments q, s = []) ∨ (q.head? = p.head? ∧ ∃ last, CutAt p (segments q) last) := by
  obtain ⟨rfl, -⟩ | ⟨rfl, -⟩ | ⟨kept, last, hne, hroot, rfl, hcut⟩ := parentChars_cut h
  · exact .inl (by simp [segments])
  · exact .inl (by simp [segments])
  · have hkept := hcut.segments_kept hne
    obtain ⟨r, -, hp⟩ := hcut.text hne
    refine .inr ⟨?_, last, by rwa [hkept]⟩
    have hq : ofSegments kept ≠ [] := by
      intro hempty
      rw [hempty] at hkept
      exact hroot hkept.symm
    obtain ⟨c, cs, hcs⟩ := List.exists_cons_of_ne_nil hq
    rw [hp, hcs]
    rfl

/-- A path is its parent and something more. -/
theorem exists_append_of_parentChars {p q : List Char} (h : parentChars p = some q) :
    ∃ r, r ≠ [] ∧ p = q ++ r := by
  obtain ⟨rfl, hne⟩ | ⟨rfl, last, hcut⟩ | ⟨kept, last, hne, -, rfl, hcut⟩ := parentChars_cut h
  · exact ⟨p, hne, rfl⟩
  · obtain ⟨r, hr, hp⟩ := hcut.text (by simp)
    exact ⟨r, hr, hp⟩
  · obtain ⟨r, -, hp⟩ := hcut.text hne
    exact ⟨'/' :: r, by simp, hp⟩

theorem parent?_eq_some_iff {p q : String} :
    parent? p = some q ↔ parentChars p.toList = some q.toList := by
  rw [parent?, Option.map_eq_some_iff]
  constructor
  · rintro ⟨cs, hcs, rfl⟩
    rwa [String.toList_ofList]
  · intro h
    exact ⟨q.toList, h, String.ofList_toList⟩

theorem length_lt_of_parent? {p q : String} (h : parent? p = some q) : q.length < p.length := by
  obtain ⟨r, hr, hp⟩ := exists_append_of_parentChars (parent?_eq_some_iff.mp h)
  have hlen := congrArg List.length hp
  have hpos := List.length_pos_iff.mpr hr
  rw [List.length_append, String.length_toList, String.length_toList] at hlen
  omega

end ScriptManifest.Path
