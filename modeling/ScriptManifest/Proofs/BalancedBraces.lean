import ScriptManifest.Proofs.ParamComment
import Mathlib.Data.List.Infix
import Mathlib.Logic.Relation

/-!
The end of a type in braces. The scan for it counts the braces that are open, and comes back when the
counter is at zero again. The counter is an integer here, so that it is a result that it is positive
whenever a brace closes (`Scan.Follows.depth_pos`). What the scan leaves is what follows the shortest
front of the text in which as many braces close as open, and nothing if there is no such front
(`skipType_drops_shortest_balanced_front`).
-/

namespace ScriptManifest.Doc

open Text

/-! ### Fronts in which the braces balance -/

def openBraces (s : List Char) : Int := (s.count '{' : Int) - s.count '}'

/-- A front of a text, not empty, in which as many braces close as open. -/
structure IsBalancedFront (front text : List Char) : Prop where
  nonempty : front ≠ []
  isPrefix : front <+: text
  balanced : front.count '}' = front.count '{'

structure IsShortestBalancedFront (front text : List Char) : Prop extends
    IsBalancedFront front text where
  shortest : ∀ other, IsBalancedFront other text → front.length ≤ other.length

theorem openBraces_append (s t : List Char) :
    openBraces (s ++ t) = openBraces s + openBraces t := by
  simp only [openBraces, List.count_append]
  omega

theorem openBraces_of_ne {c : Char} (hopen : c ≠ '{') (hclose : c ≠ '}') : openBraces [c] = 0 := by
  simp [openBraces, hopen, hclose]

theorem IsBalancedFront.openBraces_eq {front text : List Char} (h : IsBalancedFront front text) :
    openBraces front = 0 := by
  rw [openBraces, h.balanced, Int.sub_self]

/-! ### The scan -/

/-- A moment of the scan: the counter of open braces, and the text that is still to be read. -/
structure Scan where
  depth : Int
  rest : List Char

namespace Scan

/-- A turn of the scan over one character, other than the brace that brings the counter to zero. -/
inductive Turn : Scan → Scan → Prop
  | opens (depth : Int) (rest : List Char) : Turn ⟨depth, '{' :: rest⟩ ⟨depth + 1, rest⟩
  | closes {depth : Int} (h : depth - 1 ≠ 0) (rest : List Char) :
      Turn ⟨depth, '}' :: rest⟩ ⟨depth - 1, rest⟩
  | passes {c : Char} (hopen : c ≠ '{') (hclose : c ≠ '}') (depth : Int) (rest : List Char) :
      Turn ⟨depth, c :: rest⟩ ⟨depth, rest⟩

/-- The moments of the scan of a text. -/
def Reaches (text : List Char) (s : Scan) : Prop := Relation.ReflTransGen Turn ⟨0, text⟩ s

/-- What the scan gives at its end: what follows the brace that brings the counter to zero, without
the blanks in front, or nothing if the text ends before. -/
inductive Gives : Scan → List Char → Prop
  | closed {depth : Int} (h : depth - 1 = 0) (rest : List Char) :
      Gives ⟨depth, '}' :: rest⟩ (trimStart rest)
  | unclosed (depth : Int) : Gives ⟨depth, []⟩ []

/-- The counter is the number of open braces, and so far there was always one open. -/
def Follows (text : List Char) (s : Scan) : Prop :=
  ∃ read, text = read ++ s.rest ∧ s.depth = openBraces read ∧
    ∀ front, front ≠ [] → front <+: read → 0 < openBraces front

theorem follows_start (text : List Char) : Follows text ⟨0, text⟩ :=
  ⟨[], rfl, rfl, fun _ hne hprefix => (hne (List.prefix_nil.mp hprefix)).elim⟩

theorem follows_next {text read rest : List Char} {c : Char} (htext : text = read ++ c :: rest)
    (hfronts : ∀ front, front ≠ [] → front <+: read → 0 < openBraces front)
    (hpos : 0 < openBraces (read ++ [c])) : Follows text ⟨openBraces (read ++ [c]), rest⟩ := by
  refine ⟨read ++ [c], by simp [htext], rfl, ?_⟩
  intro front hne hprefix
  obtain rfl | hprefix := List.prefix_concat_iff.mp hprefix
  · exact hpos
  · exact hfronts front hne hprefix

section Braced

variable {text : List Char} (hbrace : text.head? = some '{')
include hbrace

theorem read_ne_nil {read rest : List Char} {c : Char} (htext : text = read ++ c :: rest)
    (hc : c ≠ '{') : read ≠ [] := by
  rintro rfl
  simp [htext, hc] at hbrace

/-- The counter is positive whenever a brace closes. -/
theorem Follows.depth_pos {depth : Int} {rest : List Char} (h : Follows text ⟨depth, '}' :: rest⟩) :
    1 ≤ depth := by
  obtain ⟨read, htext, hdepth, hfronts⟩ := h
  have hne := read_ne_nil hbrace htext (by decide)
  have hpos := hfronts read hne List.prefix_rfl
  simp only at hdepth
  omega

theorem Follows.turn {s s' : Scan} (h : Follows text s) (hturn : Turn s s') : Follows text s' := by
  cases hturn with
  | opens depth rest =>
    obtain ⟨read, htext, rfl, hfronts⟩ := h
    have hcount : openBraces (read ++ ['{']) = openBraces read + 1 := openBraces_append read ['{']
    have hpos : 0 < openBraces (read ++ ['{']) := by
      by_cases hread : read = []
      · subst hread
        decide
      · have := hfronts read hread List.prefix_rfl
        omega
    exact hcount ▸ follows_next htext hfronts hpos
  | @closes depth hgoes rest =>
    have hdepth := h.depth_pos hbrace
    obtain ⟨read, htext, rfl, hfronts⟩ := h
    have hcount : openBraces (read ++ ['}']) = openBraces read - 1 := openBraces_append read ['}']
    exact hcount ▸ follows_next htext hfronts (by omega)
  | @passes c hopen hclose depth rest =>
    obtain ⟨read, htext, rfl, hfronts⟩ := h
    have hcount : openBraces (read ++ [c]) = openBraces read := by
      rw [openBraces_append, openBraces_of_ne hopen hclose, Int.add_zero]
    have hpos := hfronts read (read_ne_nil hbrace htext hopen) List.prefix_rfl
    exact hcount ▸ follows_next htext hfronts (by omega)

theorem Reaches.follows {s : Scan} (h : Reaches text s) : Follows text s := by
  induction h with
  | refl => exact follows_start text
  | tail _ hturn ih => exact ih.turn hbrace hturn

end Braced

theorem exists_gives (depth : Nat) (rest : List Char) :
    ∃ s, Relation.ReflTransGen Turn ⟨depth + 1, rest⟩ s ∧ s.Gives (afterBraces depth rest) := by
  fun_induction afterBraces depth rest with
  | case1 depth => exact ⟨_, .refl, .unclosed _⟩
  | case2 depth rest ih =>
    obtain ⟨s, hrun, hgives⟩ := ih
    exact ⟨s, .head (.opens _ rest) hrun, hgives⟩
  | case3 rest => exact ⟨_, .refl, .closed rfl rest⟩
  | case4 depth rest ih =>
    obtain ⟨s, hrun, hgives⟩ := ih
    have hcount : ((depth + 1 : Nat) : Int) + 1 - 1 = (depth : Int) + 1 := by omega
    rw [← hcount] at hrun
    exact ⟨s, .head (.closes (by omega) rest) hrun, hgives⟩
  | case5 depth c rest hopen hzero hclose ih =>
    have hclose' : c ≠ '}' := by
      cases depth with
      | zero => exact hzero rfl
      | succ depth => exact hclose depth rfl
    obtain ⟨s, hrun, hgives⟩ := ih
    exact ⟨s, .head (.passes hopen hclose' _ rest) hrun, hgives⟩

end Scan

theorem exists_reaches_gives {text : List Char} (hbrace : text.head? = some '{') :
    ∃ s, Scan.Reaches text s ∧ s.Gives (skipType text) := by
  obtain ⟨rest, rfl⟩ : ∃ rest, text = '{' :: rest := List.head?_eq_some_iff.mp hbrace
  obtain ⟨s, hrun, hgives⟩ := Scan.exists_gives 0 rest
  exact ⟨s, .head (.opens 0 rest) hrun, hgives⟩

/-! ### What the scan leaves -/

theorem Scan.Follows.isShortestBalancedFront {text read rest : List Char}
    (htext : text = read ++ '}' :: rest) (hcount : openBraces read = 1)
    (hfronts : ∀ front, front ≠ [] → front <+: read → 0 < openBraces front) :
    IsShortestBalancedFront (read ++ ['}']) text where
  nonempty := by simp
  isPrefix := ⟨rest, by simp [htext]⟩
  balanced := by
    rw [openBraces] at hcount
    simp
    omega
  shortest := by
    intro other hother
    by_contra hlonger
    have hread : read <+: text := ⟨'}' :: rest, htext.symm⟩
    have hprefix := List.prefix_of_prefix_length_le hother.isPrefix hread (by simp at hlonger; omega)
    have hpos := hfronts other hother.nonempty hprefix
    rw [hother.openBraces_eq] at hpos
    exact Int.lt_irrefl 0 hpos

theorem skipType_cases {text : List Char} (hbrace : text.head? = some '{') :
    (∃ front back, IsShortestBalancedFront front text ∧ text = front ++ back ∧
      skipType text = trimStart back) ∨
    (∀ front, ¬ IsBalancedFront front text) ∧ skipType text = [] := by
  obtain ⟨⟨depth, unread⟩, hreaches, hgives⟩ := exists_reaches_gives hbrace
  obtain ⟨read, htext, hdepth, hfronts⟩ := hreaches.follows hbrace
  generalize skipType text = left at hgives ⊢
  cases hgives with
  | closed hzero rest =>
    simp only at hdepth htext
    have hshortest := Scan.Follows.isShortestBalancedFront htext (by omega) hfronts
    exact .inl ⟨_, rest, hshortest, by simp [htext], rfl⟩
  | unclosed =>
    refine .inr ⟨fun front hfront => ?_, rfl⟩
    have hprefix : front <+: read := by simpa [htext] using hfront.isPrefix
    have hpos := hfronts front hfront.nonempty hprefix
    rw [hfront.openBraces_eq] at hpos
    exact Int.lt_irrefl 0 hpos

/-- A text that starts with a brace loses its shortest front in which as many braces close as open,
and the blanks behind it; without such a front nothing is left of it. No other text is changed. What
is left is an end of the text, and the counter of the scan is at least one whenever a brace closes. -/
theorem skipType_drops_shortest_balanced_front (text : List Char) :
    (text.head? = some '{' →
      ((∃ front, IsBalancedFront front text) →
        ∃ front back, IsShortestBalancedFront front text ∧ text = front ++ back ∧
          skipType text = trimStart back) ∧
      ((∀ front, ¬ IsBalancedFront front text) → skipType text = []) ∧
      (∀ depth rest, Scan.Reaches text ⟨depth, '}' :: rest⟩ → 1 ≤ depth) ∧
      ∃ s, Scan.Reaches text s ∧ s.Gives (skipType text)) ∧
    (text.head? ≠ some '{' → skipType text = text) ∧
    skipType text <:+ text := by
  refine ⟨fun hbrace => ⟨?_, ?_, ?_, exists_reaches_gives hbrace⟩, skipType_of_head?,
    skipType_suffix text⟩
  · rintro ⟨front, hfront⟩
    obtain hcut | ⟨hnone, -⟩ := skipType_cases hbrace
    · exact hcut
    · exact (hnone front hfront).elim
  · intro hnone
    obtain ⟨front, back, hshortest, -⟩ | ⟨-, hempty⟩ := skipType_cases hbrace
    · exact (hnone front hshortest.toIsBalancedFront).elim
    · exact hempty
  · intro depth rest hreaches
    exact (hreaches.follows hbrace).depth_pos hbrace

/-- Nested braces with a stray one behind them, braces of which one is never closed, and a text that
starts with none. -/
theorem skipType_drops_shortest_balanced_front_stray :
    (∃ front back, IsShortestBalancedFront front "\x7ba\x7bb\x7d\x7d \x7d c".toList ∧
      "\x7ba\x7bb\x7d\x7d \x7d c".toList = front ++ back ∧
      skipType "\x7ba\x7bb\x7d\x7d \x7d c".toList = trimStart back) ∧
    skipType "\x7ba\x7bb\x7d c".toList = [] ∧
    (∀ depth rest, Scan.Reaches "\x7ba\x7bb\x7d c".toList ⟨depth, '}' :: rest⟩ → 1 ≤ depth) ∧
    skipType "a\x7d \x7b".toList = "a\x7d \x7b".toList := by
  have hstray := (skipType_drops_shortest_balanced_front "\x7ba\x7bb\x7d\x7d \x7d c".toList).1 rfl
  have hopen := (skipType_drops_shortest_balanced_front "\x7ba\x7bb\x7d c".toList).1 rfl
  have hfronts : ∀ front ∈ "\x7ba\x7bb\x7d c".toList.inits, front ≠ [] →
      front.count '}' ≠ front.count '{' := by decide
  refine ⟨hstray.1 ⟨"\x7ba\x7bb\x7d\x7d".toList, by decide, by decide, by decide⟩, ?_, hopen.2.2.1, ?_⟩
  · refine hopen.2.1 fun front hfront => ?_
    exact hfronts front ((List.mem_inits _ _).mpr hfront.isPrefix) hfront.nonempty hfront.balanced
  · exact (skipType_drops_shortest_balanced_front _).2.1 (by decide)

end ScriptManifest.Doc
