import ScriptManifest.Proofs.AncestorChain
import ScriptManifest.Proofs.FailedWriting
import Mathlib.Data.List.DropRight

/-!
When a file can be written. By name alone the segments in front of the last one lead through some
locations (`FileSystem.way`). The file can be written if and only if each of them is a directory or
missing, the last segment is a name with no slash behind it, and no directory is where it leads
(`canWrite_iff`). What is missing on the way is made first, outermost first.
-/

namespace ScriptManifest

open Text

namespace Path

theorem exists_kept_idle (ss : List (List Char)) :
    ∃ kept idle, ss = kept ++ idle ∧ (∀ s ∈ idle, isIdle s = true) ∧
      ∀ s ∈ kept.getLast?, isIdle s = false := by
  refine ⟨ss.rdropWhile isIdle, ss.rtakeWhile isIdle, (List.rdropWhile_append_rtakeWhile ..).symm,
    fun s hs => List.mem_rtakeWhile_imp hs, fun s hs => ?_⟩
  obtain ⟨hne, rfl⟩ := List.mem_getLast?_eq_getLast hs
  simpa using List.rdropWhile_last_not isIdle ss hne

theorem parentChars_of_segments {p first name : List Char} {kept idle : List (List Char)}
    (h : segments p = first :: (kept ++ (idle ++ [name]))) (hidle : ∀ s ∈ idle, isIdle s = true)
    (hname : isIdle name = false) (hkept : ∀ s ∈ kept.getLast?, isIdle s = false) :
    parentChars p =
      some (if first = [] ∧ kept = [] then ['/'] else ofSegments (first :: kept)) := by
  have hdrop : (idle.reverse ++ kept.reverse).dropWhile isIdle = kept.reverse := by
    rw [List.dropWhile_append_of_pos fun s hs => hidle s (List.mem_reverse.mp hs)]
    cases hr : kept.reverse with
    | nil => rfl
    | cons s ss =>
      have hlast : kept.getLast? = some s := by rw [← List.head?_reverse, hr, List.head?_cons]
      simp [hkept s hlast]
  have hreverse : (kept ++ (idle ++ [name])).reverse = name :: (idle.reverse ++ kept.reverse) := by
    simp
  rw [parentChars, h]
  simp only [hreverse, List.dropWhile_cons, hname, Bool.false_eq_true, if_false, hdrop]
  cases hr : kept.reverse with
  | nil =>
    obtain rfl : kept = [] := List.reverse_eq_nil_iff.mp hr
    by_cases hfirst : first = [] <;> simp [hfirst, ofSegments]
  | cons s ss =>
    have hne : kept ≠ [] := by
      rintro rfl
      cases hr
    simp [hne, ← hr]

end Path

namespace FileSystem

/-! ### The way of some segments -/

/-- Where a segment leads by name alone, whether or not anything is there. -/
def move (l : Location) (segment : String) : Location :=
  match segment with
  | "" | "." => l
  | ".." => l.dropLast
  | name => l ++ [name]

def way (l : Location) : List String → List Location
  | [] => [l]
  | s :: ss => l :: way (move l s) ss

/-- Every entry lies in a directory. -/
def IsTree (fs : FileSystem) : Prop :=
  ∀ l name, (fs.lookup (l ++ [name])).isSome = true → fs.lookup l = some .directory

def IsOpen (fs : FileSystem) (l : Location) : Prop :=
  fs.lookup l = none ∨ fs.lookup l = some .directory

instance (fs : FileSystem) (l : Location) : Decidable (fs.IsOpen l) :=
  inferInstanceAs (Decidable (_ ∨ _))

theorem move_name {s : String} (h : s ≠ "" ∧ s ≠ "." ∧ s ≠ "..") (l : Location) :
    move l s = l ++ [s] := by
  unfold move
  split <;> simp_all

theorem move_idle {s : String} (h : s = "" ∨ s = ".") (l : Location) : move l s = l := by
  obtain rfl | rfl := h <;> rfl

theorem eq_of_not_name {s : String} (h : ¬(s ≠ "" ∧ s ≠ "." ∧ s ≠ "..")) :
    s = "" ∨ s = "." ∨ s = ".." := by
  simpa only [ne_eq, not_and_or, not_not] using h

theorem eq_move_of_enter {fs : FileSystem} {l m : Location} {s : String}
    (h : fs.enter l s = .ok m) : m = move l s := by
  by_cases hname : s ≠ "" ∧ s ≠ "." ∧ s ≠ ".."
  · rw [enter_name fs hname] at h
    rw [move_name hname]
    split at h <;> cases h
    rfl
  · obtain rfl | rfl | rfl := eq_of_not_name hname <;> cases h <;> rfl

theorem mem_way_self (l : Location) (ss : List String) : l ∈ way l ss := by
  cases ss <;> simp [way]

theorem mem_way_append {l m : Location} {ss : List String} (h : m ∈ way l ss) (ts : List String) :
    m ∈ way l (ss ++ ts) := by
  induction ss generalizing l with
  | nil =>
    obtain rfl : m = l := by simpa [way] using h
    exact mem_way_self m ts
  | cons s ss ih =>
    obtain rfl | h := List.mem_cons.mp h
    · exact mem_way_self _ _
    · exact List.mem_cons_of_mem l (ih h)

theorem isTree_of_entries {fs : FileSystem}
    (h : ∀ x ∈ fs.entries, fs.lookup x.1.dropLast = some .directory) : fs.IsTree := by
  intro l name hsome
  rw [lookup, if_neg (by simp), List.lookup_isSome_iff] at hsome
  obtain ⟨x, hx, heq⟩ := hsome
  have hdirectory := h x hx
  rwa [← beq_iff_eq.mp heq, List.dropLast_concat] at hdirectory

theorem IsTree.dropLast {fs : FileSystem} (h : fs.IsTree) {l : Location}
    (hl : fs.lookup l = some .directory) : fs.lookup l.dropLast = some .directory := by
  obtain rfl | ⟨front, name, rfl⟩ := l.eq_nil_or_concat
  · rfl
  · rw [List.concat_eq_append, List.dropLast_concat]
    exact h front name (by simp_all)

theorem isTree_insert {fs : FileSystem} (h : fs.IsTree) {parent : Location}
    (hparent : fs.lookup parent = some .directory) (name : String) :
    (fs.insert (parent ++ [name]) .directory).IsTree := by
  have hne : parent ++ [name] ≠ [] := by simp
  have hkept : ∀ l, fs.lookup l = some .directory →
      (fs.insert (parent ++ [name]) .directory).lookup l = some .directory := by
    intro l hl
    rw [lookup_insert fs hne, hl, ite_self]
  intro l n hl
  rw [lookup_insert fs hne] at hl
  split at hl
  · next heq =>
    obtain ⟨rfl, -⟩ := List.append_inj' heq rfl
    exact hkept _ hparent
  · exact hkept l (h l n hl)

theorem foldl_mem_way (l : Location) (ss : List String) : ss.foldl move l ∈ way l ss := by
  induction ss generalizing l with
  | nil => simp [way]
  | cons s ss ih => exact List.mem_cons_of_mem l (ih (move l s))

theorem follow_concat {fs : FileSystem} {l m n : Location} {front : List String} {last : String}
    (hfollow : fs.follow l front = .ok m) (hm : fs.lookup m = some .directory)
    (henter : fs.enter m last = .ok n) : fs.follow l (front ++ [last]) = .ok n := by
  simp [follow_append, hfollow, follow, hm, henter]

theorem enter_of_isOpen {fs : FileSystem} (htree : fs.IsTree) {l : Location}
    (hl : fs.lookup l = some .directory) {s : String} (hopen : fs.IsOpen (move l s)) :
    (fs.enter l s = .ok (move l s) ∧ fs.lookup (move l s) = some .directory) ∨
      ((s ≠ "" ∧ s ≠ "." ∧ s ≠ "..") ∧ fs.lookup (l ++ [s]) = none) := by
  by_cases hname : s ≠ "" ∧ s ≠ "." ∧ s ≠ ".."
  · rw [move_name hname] at hopen ⊢
    obtain hnone | hdirectory := hopen
    · exact .inr ⟨hname, hnone⟩
    · exact .inl ⟨by simp [enter_name fs hname, hdirectory], hdirectory⟩
  · refine .inl ?_
    obtain rfl | rfl | rfl := eq_of_not_name hname
    · exact ⟨rfl, hl⟩
    · exact ⟨rfl, hl⟩
    · exact ⟨rfl, htree.dropLast hl⟩

theorem follow_or_breaksOff {fs : FileSystem} (htree : fs.IsTree) {l : Location}
    (hl : fs.lookup l = some .directory) {ss : List String} (hopen : ∀ m ∈ way l ss, fs.IsOpen m) :
    (fs.follow l ss = .ok (ss.foldl move l) ∧ fs.lookup (ss.foldl move l) = some .directory) ∨
      fs.BreaksOff l ss := by
  induction ss generalizing l with
  | nil => exact .inl ⟨rfl, hl⟩
  | cons s ss ih =>
    rw [way, List.forall_mem_cons] at hopen
    obtain ⟨henter, hmoved⟩ | ⟨hname, hmissing⟩ :=
      enter_of_isOpen htree hl (hopen.2 _ (mem_way_self _ _))
    · rw [follow, if_pos hl, henter, List.foldl_cons]
      obtain hleads | ⟨front, name, rest, parent, rfl, hfront, hrest⟩ := ih hmoved hopen.2
      · exact .inl hleads
      · refine .inr ⟨s :: front, name, rest, parent, rfl, ?_, hrest⟩
        simp only [follow, if_pos hl, henter, hfront]
    · exact .inr ⟨[], s, ss, l, rfl, rfl, hl, hname, hmissing⟩

theorem way_of_follow {fs : FileSystem} {l l' : Location} {ss : List String}
    (h : fs.follow l ss = .ok l') (hl' : fs.lookup l' = some .directory) :
    l' = ss.foldl move l ∧ ∀ m ∈ way l ss, fs.lookup m = some .directory := by
  induction ss generalizing l with
  | nil =>
    obtain rfl : l = l' := Except.ok.inj h
    exact ⟨rfl, by simpa [way] using hl'⟩
  | cons s ss ih =>
    rw [follow] at h
    split at h
    · next hl =>
      cases he : fs.enter l s with
      | error c => simp [he] at h
      | ok m =>
        obtain rfl : m = move l s := eq_move_of_enter he
        simp only [he] at h
        obtain ⟨hlast, hway⟩ := ih h
        refine ⟨hlast, ?_⟩
        rw [way, List.forall_mem_cons]
        exact ⟨hl, hway⟩
    · cases h

theorem BreaksOff.exists_last {fs : FileSystem} {l : Location} {ss : List String}
    (h : fs.BreaksOff l ss) (hlast : ∀ s ∈ ss.getLast?, ss = [s] ∨ s ≠ "" ∧ s ≠ ".") :
    ∃ front last, ss = front ++ [last] ∧ last ≠ "" ∧ last ≠ "." := by
  obtain ⟨front, name, rest, parent, hss, -, -, hname, -⟩ := h
  obtain rfl | ⟨front', last, rfl⟩ := ss.eq_nil_or_concat'
  · simp at hss
  · refine ⟨front', last, rfl, ?_⟩
    obtain hsingle | hweight := hlast last (by simp)
    · rw [hsingle] at hss
      obtain ⟨-, hcons⟩ | ⟨-, hnil⟩ := List.singleton_eq_append_iff.mp hss
      · obtain ⟨rfl, -⟩ := List.cons.inj hcons
        exact ⟨hname.1, hname.2.1⟩
      · cases hnil
    · exact hweight

theorem follow_idle {fs : FileSystem} {l : Location} (hl : fs.lookup l = some .directory)
    {ss : List String} (h : ∀ s ∈ ss, s = "" ∨ s = ".") : fs.follow l ss = .ok l := by
  induction ss with
  | nil => rfl
  | cons s ss ih =>
    rw [List.forall_mem_cons] at h
    have henter : fs.enter l s = .ok l := by obtain rfl | rfl := h.1 <;> rfl
    rw [follow, if_pos hl, henter]
    exact ih h.2

theorem BreaksOff.of_append_idle {fs : FileSystem} {l : Location} {ss idle : List String}
    (h : fs.BreaksOff l (ss ++ idle)) (hidle : ∀ s ∈ idle, s = "" ∨ s = ".") :
    fs.BreaksOff l ss := by
  obtain ⟨front, name, rest, parent, hss, hfront, hparent, hname, hmissing⟩ := h
  have hnot : name ∉ idle := fun hmem => by
    obtain rfl | rfl := hidle name hmem
    · exact hname.1 rfl
    · exact hname.2.1 rfl
  obtain ⟨more, rfl, hmore⟩ | ⟨more, rfl, hmore⟩ := List.append_eq_append_iff.mp hss
  · exact (hnot (by rw [hmore]; simp)).elim
  · cases more with
    | nil => exact (hnot (by rw [List.nil_append] at hmore; simp [← hmore])).elim
    | cons s more =>
      obtain ⟨rfl, -⟩ := List.cons.inj hmore
      exact ⟨front, name, more, parent, rfl, hfront, hparent, hname, hmissing⟩

theorem foldl_move_idle {ss : List String} (h : ∀ s ∈ ss, s = "" ∨ s = ".") (l : Location) :
    ss.foldl move l = l := by
  induction ss with
  | nil => rfl
  | cons s ss ih =>
    rw [List.forall_mem_cons] at h
    rw [List.foldl_cons, move_idle h.1, ih h.2]

end FileSystem

namespace Workspace

open FileSystem

/-! ### Parents -/

def IsTop (path : String) : Prop := path = "" ∨ path = "/"

theorem isIdle_iff (s : List Char) :
    Path.isIdle s = true ↔ String.ofList s = "" ∨ String.ofList s = "." := by
  simp [Path.isIdle, ← String.toList_inj]

theorem isIdle_eq_false_iff (s : List Char) :
    Path.isIdle s = false ↔ String.ofList s ≠ "" ∧ String.ofList s ≠ "." := by
  rw [← Bool.not_eq_true, isIdle_iff, not_or]

def leading (first : List Char) : List String := if first = [] then [] else [String.ofList first]

theorem start_of_segments (w : Workspace) {path : String} {first : List Char}
    {rest : List (List Char)} (h : Path.segments path.toList = first :: rest)
    (hpath : path.toList ≠ []) :
    w.start path =
      (if first = [] then [] else w.directory, leading first ++ rest.map String.ofList) := by
  simp only [start, h, Path.isAbsolute, beq_iff_eq, ← Path.segments_first_eq_nil_iff h hpath, leading]
  split <;> rfl

theorem start_ofSegments (w : Workspace) {first : List Char} {kept : List (List Char)}
    (hslash : ∀ s ∈ first :: kept, '/' ∉ s) (htop : ¬(first = [] ∧ kept = [])) :
    String.ofList (Path.ofSegments (first :: kept)) ≠ "" ∧
      w.start (String.ofList (Path.ofSegments (first :: kept))) =
        (if first = [] then [] else w.directory, leading first ++ kept.map String.ofList) := by
  have hsegments := Path.segments_ofSegments (by simp) hslash
  have hne : Path.ofSegments (first :: kept) ≠ [] := by
    intro hempty
    rw [hempty] at hsegments
    obtain ⟨rfl, rfl⟩ := List.cons.inj hsegments
    exact htop ⟨rfl, rfl⟩
  refine ⟨by simpa [← String.toList_inj] using hne, w.start_of_segments ?_ ?_⟩
  · rwa [String.toList_ofList]
  · rwa [String.toList_ofList]

theorem getLast?_leading {first : List Char} {kept : List (List Char)}
    (htop : ¬(first = [] ∧ kept = [])) (hkept : ∀ s ∈ kept.getLast?, Path.isIdle s = false) :
    ∀ s ∈ (leading first ++ kept.map String.ofList).getLast?,
      leading first ++ kept.map String.ofList = [s] ∨ s ≠ "" ∧ s ≠ "." := by
  intro s hs
  obtain rfl | ⟨kept', last, rfl⟩ := kept.eq_nil_or_concat'
  · have hfirst : first ≠ [] := fun h => htop ⟨h, rfl⟩
    simp only [leading, hfirst, if_false, List.map_nil, List.append_nil,
      List.getLast?_singleton, Option.mem_some_iff] at hs ⊢
    exact .inl (by rw [hs])
  · obtain rfl : String.ofList last = s := by simpa [← List.append_assoc] using hs
    exact .inr ((isIdle_eq_false_iff last).mp (hkept last (by simp)))

theorem ne_empty_of_segments {w : Workspace} {path name : String} {front : List String}
    (hsegments : (w.start path).2 = front ++ [name]) (hname : name ≠ "") : path ≠ "" := by
  rintro rfl
  have hlast := congrArg List.getLast? hsegments
  rw [List.getLast?_concat] at hlast
  exact hname (Option.some.inj hlast).symm

theorem exists_parent {w : Workspace} {path name : String} {front : List String}
    (hsegments : (w.start path).2 = front ++ [name]) (hname : name ≠ "" ∧ name ≠ ".") :
    ∃ parent kept idle, Path.parent? path = some parent ∧ front = kept ++ idle ∧
      (∀ s ∈ idle, s = "" ∨ s = ".") ∧
      (IsTop parent ∧ kept = [] ∨
        parent ≠ "" ∧ w.start parent = ((w.start path).1, kept) ∧
          ∀ s ∈ kept.getLast?, kept = [s] ∨ s ≠ "" ∧ s ≠ ".") := by
  obtain ⟨first, rest, hp⟩ := Path.exists_segments path.toList
  have hpath : path.toList ≠ [] := by
    simpa [String.toList_eq_nil_iff] using ne_empty_of_segments hsegments hname.1
  rw [w.start_of_segments hp hpath] at hsegments ⊢
  obtain rfl | ⟨rest', n, rfl⟩ := rest.eq_nil_or_concat'
  · -- a single segment, which stands in the working directory
    by_cases hfirst : first = []
    · simp [leading, hfirst] at hsegments
    · have hfront : front = [] := by
        have hlength := congrArg List.length hsegments
        simpa [leading, hfirst] using hlength
      refine ⟨"", [], [], ?_, by simp [hfront], by simp, .inl ⟨.inl rfl, rfl⟩⟩
      rw [Path.parent?_eq_some_iff, Path.parentChars, hp]
      simp [hfirst]
  · obtain ⟨kept, idle, rfl, hidle, hkept⟩ := Path.exists_kept_idle rest'
    rw [List.map_append, List.map_append, ← List.append_assoc, ← List.append_assoc] at hsegments
    obtain ⟨rfl, hlast⟩ := List.append_inj' hsegments rfl
    have hparent := Path.parentChars_of_segments (by simpa using hp) hidle
      ((isIdle_eq_false_iff n).mpr (List.singleton_inj.mp hlast ▸ hname)) hkept
    have hidle' : ∀ s ∈ idle.map String.ofList, s = "" ∨ s = "." := by
      simpa [isIdle_iff] using hidle
    by_cases htop : first = [] ∧ kept = []
    · -- only idle segments stand behind the root
      obtain ⟨rfl, rfl⟩ := htop
      refine ⟨"/", [], idle.map String.ofList, ?_, by simp [leading], hidle', .inl ⟨.inr rfl, rfl⟩⟩
      rw [Path.parent?_eq_some_iff, hparent, if_pos ⟨rfl, rfl⟩]
      rfl
    · rw [if_neg htop] at hparent
      have hslash : ∀ s ∈ first :: kept, '/' ∉ s := fun s hs =>
        Path.slash_not_mem (p := path.toList) (by rw [hp]; simp at hs ⊢; tauto)
      obtain ⟨hne, hstart⟩ := w.start_ofSegments hslash htop
      refine ⟨String.ofList (Path.ofSegments (first :: kept)), leading first ++ kept.map String.ofList,
        idle.map String.ofList, ?_, rfl, hidle', .inr ⟨hne, hstart, getLast?_leading htop hkept⟩⟩
      rw [Path.parent?_eq_some_iff, hparent, String.toList_ofList]

/-! ### Making the way -/

/-- Between two workspaces the way of some segments was opened: it leads to a directory, and whatever
was added are directories on it. -/
structure Opens (w w' : Workspace) (l : Location) (ss : List String) : Prop where
  directory : w'.directory = w.directory
  tree : w'.files.IsTree
  leads : w'.files.follow l ss = .ok (ss.foldl move l)
  isDirectory : w'.files.lookup (ss.foldl move l) = some .directory
  added : ∀ m, w'.files.lookup m ≠ w.files.lookup m →
    w.files.lookup m = none ∧ w'.files.lookup m = some .directory ∧ m ∈ way l ss

theorem Opens.lookup_eq {w w' : Workspace} {l : Location} {ss : List String} (h : w.Opens w' l ss)
    {m : Location} (hm : m ∉ way l ss) : w'.files.lookup m = w.files.lookup m := by
  by_contra hne
  exact hm (h.added m hne).2.2

theorem Opens.isOpen {w w' : Workspace} {l m : Location} {ss : List String} (h : w.Opens w' l ss)
    (hm : w.files.IsOpen m) : w'.files.IsOpen m := by
  by_cases hsame : w'.files.lookup m = w.files.lookup m
  · rwa [FileSystem.IsOpen, hsame]
  · exact .inr (h.added m hsame).2.1

theorem Opens.refl {w : Workspace} (htree : w.files.IsTree) {l : Location} {ss : List String}
    (hleads : w.files.follow l ss = .ok (ss.foldl move l))
    (hdirectory : w.files.lookup (ss.foldl move l) = some .directory) : w.Opens w l ss :=
  ⟨rfl, htree, hleads, hdirectory, fun _ h => (h rfl).elim⟩

theorem Opens.isDirectory_path {w w' : Workspace} {path : String}
    (h : w.Opens w' (w.start path).1 (w.start path).2) (hpath : path ≠ "") :
    w'.isDirectory path = true := by
  have hstart : w'.start path = w.start path := by simp [start, h.directory]
  have hlocate : w'.locate path = .ok ((w.start path).2.foldl move (w.start path).1) := by
    rw [locate, if_neg (by simpa using hpath), hstart]
    exact h.leads
  simp [Workspace.isDirectory, entry, hlocate, h.isDirectory]

theorem Opens.trans {w w' w'' : Workspace} {l : Location} {ss ts : List String}
    (h : w.Opens w' l ss) (h' : w'.Opens w'' l (ss ++ ts)) : w.Opens w'' l (ss ++ ts) := by
  refine ⟨h'.directory.trans h.directory, h'.tree, h'.leads, h'.isDirectory, fun m hm => ?_⟩
  by_cases hlater : w''.files.lookup m = w'.files.lookup m
  · rw [hlater] at hm ⊢
    obtain ⟨hnone, hdirectory, hway⟩ := h.added m hm
    exact ⟨hnone, hdirectory, mem_way_append hway ts⟩
  · obtain ⟨hnone, hdirectory, hway⟩ := h'.added m hlater
    refine ⟨?_, hdirectory, hway⟩
    by_contra hsome
    have hadded := (h.added m (by rw [hnone]; exact Ne.symm hsome)).1
    exact hsome hadded

theorem Opens.append_idle {w w' : Workspace} {l : Location} {ss idle : List String}
    (h : w.Opens w' l ss) (hidle : ∀ s ∈ idle, s = "" ∨ s = ".") : w.Opens w' l (ss ++ idle) := by
  have hat : (ss ++ idle).foldl move l = ss.foldl move l := by
    rw [List.foldl_append, foldl_move_idle hidle]
  have hleads : w'.files.follow l (ss ++ idle) = .ok ((ss ++ idle).foldl move l) := by
    simp only [follow_append, h.leads, hat]
    exact follow_idle h.isDirectory hidle
  exact h.trans (.refl h.tree hleads (by rw [hat, h.isDirectory]))

theorem Opens.lastSegment {w w' : Workspace} {path last : String} {front : List String}
    (h : w.Opens w' (w.start path).1 front) (hsegments : (w.start path).2 = front ++ [last])
    (hlast : last ≠ "") :
    w'.lastSegment path = .ok (front.foldl move (w.start path).1, last, false) := by
  have hpath := ne_empty_of_segments hsegments hlast
  have hstart : w'.start path = w.start path := by simp [start, h.directory]
  rw [Workspace.lastSegment, if_neg (by simpa using hpath), hstart]
  simp [hsegments, hlast, h.leads, h.isDirectory]

theorem Opens.makeDirectory {w w' : Workspace} {path last : String} {front : List String}
    (h : w.Opens w' (w.start path).1 front) (hsegments : (w.start path).2 = front ++ [last])
    (hlast : last ≠ "" ∧ last ≠ ".")
    (hopen : w.files.IsOpen (move (front.foldl move (w.start path).1) last)) :
    ∃ w'', w.Opens w'' (w.start path).1 (front ++ [last]) ∧
      (w'.makeDirectory path = .ok w'' ∨
        w'' = w' ∧ w'.makeDirectory path = .error .alreadyExists) := by
  have hsegment := h.lastSegment hsegments hlast.1
  have hend : (front ++ [last]).foldl move (w.start path).1 =
      move (front.foldl move (w.start path).1) last := by simp
  have hleads := h.leads
  have hparent := h.isDirectory
  generalize front.foldl move (w.start path).1 = parent at *
  obtain ⟨henter, hdirectory⟩ | ⟨hname, hmissing⟩ := enter_of_isOpen h.tree hparent (h.isOpen hopen)
  · refine ⟨w', h.trans (.refl h.tree ?_ (by rw [hend, hdirectory])), .inr ⟨rfl, ?_⟩⟩
    · rw [follow_concat hleads hparent henter, hend]
    · have htaken : (!isName last || (w'.files.lookup (parent ++ [last])).isSome) = true := by
        by_cases hname : last = ".."
        · simp [hname, isName]
        · rw [move_name ⟨hlast.1, hlast.2, hname⟩] at hdirectory
          simp [hdirectory]
      simp only [Workspace.makeDirectory, hsegment, htaken, if_true]
  · have hfree : (!isName last || (w'.files.lookup (parent ++ [last])).isSome) = false := by
      simp [(isName_iff last).mpr hname.2, hmissing]
    have hne := location_ne_nil parent last
    have hgrows := w'.files.grows_insert hne .directory (by simp [hmissing])
    have hnew := w'.files.lookup_insert hne .directory (parent ++ [last])
    rw [if_pos rfl] at hnew
    rw [move_name hname] at hend
    refine ⟨{ w' with files := w'.files.insert (parent ++ [last]) .directory },
      h.trans ⟨rfl, isTree_insert h.tree hparent last, ?_, by rw [hend, hnew], fun m hm => ?_⟩,
      .inl (by simp only [Workspace.makeDirectory, hsegment, hfree, Bool.false_eq_true, if_false])⟩
    · rw [hend]
      exact follow_concat (follow_mono hgrows hleads) (hgrows.directory _ hparent)
        (by rw [enter_name _ hname, hnew]; rfl)
    · obtain rfl := eq_of_lookup_insert_ne hne hm
      exact ⟨hmissing, hnew, hend ▸ foldl_mem_way _ _⟩

theorem opens_makeDirectories {fuel : Nat} {w : Workspace} {path last : String} {front : List String}
    (hfuel : path.length < fuel) (htree : w.files.IsTree)
    (hstart : w.files.lookup (w.start path).1 = some .directory)
    (hsegments : (w.start path).2 = front ++ [last]) (hlast : last ≠ "" ∧ last ≠ ".")
    (hopen : ∀ m ∈ way (w.start path).1 (front ++ [last]), w.files.IsOpen m) :
    ∃ w', makeDirectories fuel w path = (w', none) ∧
      w.Opens w' (w.start path).1 (front ++ [last]) := by
  induction fuel generalizing path last front with
  | zero => omega
  | succ fuel ih =>
    have hpath := ne_empty_of_segments hsegments hlast.1
    have hopenLast : w.files.IsOpen (move (front.foldl move (w.start path).1) last) :=
      hopen _ (by simpa using foldl_mem_way (w.start path).1 (front ++ [last]))
    have hisDirectory : ∀ {w' : Workspace}, w.Opens w' (w.start path).1 (front ++ [last]) →
        w'.isDirectory path = true := fun h => (hsegments ▸ h).isDirectory_path hpath
    rw [makeDirectories, if_neg (by simpa using hpath)]
    obtain ⟨hleads, hparent⟩ | hbreaks :=
      follow_or_breaksOff htree hstart fun m hm => hopen m (mem_way_append hm [last])
    · obtain ⟨w', hopens, hmake | ⟨rfl, hmake⟩⟩ :=
        (Opens.refl htree hleads hparent).makeDirectory hsegments hlast hopenLast
      · exact ⟨w', by simp only [hmake], hopens⟩
      · exact ⟨w', by simp [hmake, hisDirectory hopens], hopens⟩
    · -- a directory in front of the last one is missing, so the parent is made first
      obtain ⟨parent, kept, idle, hp, rfl, hidle, hkept⟩ := exists_parent hsegments hlast
      have hbreaks' := hbreaks.of_append_idle hidle
      obtain ⟨-, rfl⟩ | ⟨-, hstart', hend⟩ := hkept
      · obtain ⟨s, hs, -⟩ := hbreaks'.exists_ne_empty
        cases hs
      obtain ⟨front, last', rfl, hlast'⟩ := hbreaks'.exists_last hend
      have hmake : w.makeDirectory path = .error .notFound := by
        have hoff : w.BreaksOff parent := by rwa [BreaksOff, hstart']
        simp only [makeDirectory, hoff.lastSegment hp]
      have hopen' : ∀ m ∈ way (w.start parent).1 (front ++ [last']), w.files.IsOpen m := by
        rw [hstart']
        exact fun m hm => hopen m (mem_way_append (mem_way_append hm idle) [last])
      have hshorter := Path.length_lt_of_parent? hp
      obtain ⟨w', hmade, hopens⟩ := ih (by omega : parent.length < fuel) (by rwa [hstart'])
        (by rw [hstart']) hlast' hopen'
      rw [hstart'] at hopens
      simp only [hmake, hp, hmade]
      obtain ⟨w'', hopens', hmake' | ⟨rfl, hmake'⟩⟩ :=
        (hopens.append_idle hidle).makeDirectory hsegments hlast hopenLast
      · exact ⟨w'', by simp only [hmake'], hopens'⟩
      · exact ⟨w'', by simp [hmake', hisDirectory hopens'], hopens'⟩

/-! ### Files that can be written -/

structure IsSound (w : Workspace) : Prop where
  tree : w.files.IsTree
  directory : w.files.lookup w.directory = some .directory

theorem IsSound.lookup_start {w : Workspace} (h : w.IsSound) (path : String) :
    w.files.lookup (w.start path).1 = some .directory := by
  unfold start
  dsimp only
  split
  · rfl
  · exact h.directory

theorem pathExists_of_isDirectory {w : Workspace} {path : String} (h : w.isDirectory path = true) :
    w.pathExists path = true := by
  unfold isDirectory at h
  split at h
  · next hentry => simp [pathExists, hentry]
  · cases h

theorem ensureParent_of_parent? {w : Workspace} {path parent : String}
    (hp : Path.parent? path = some parent) (hne : parent ≠ "") :
    w.ensureParent path = w.ensureDirectory parent := by
  unfold ensureParent
  split
  · next hnone => simp [hp] at hnone
  · next hempty => simp [hp, hne] at hempty
  · next q _ hq => rw [Option.some.inj (hp.symm.trans hq)]

theorem opens_ensureParent {w : Workspace} {path name : String} {front : List String}
    (hw : w.IsSound) (hsegments : (w.start path).2 = front ++ [name])
    (hname : name ≠ "" ∧ name ≠ ".")
    (hopen : ∀ m ∈ way (w.start path).1 front, w.files.IsOpen m) :
    ∃ w', w.ensureParent path = (w', .ok ()) ∧ w.Opens w' (w.start path).1 front := by
  have hstart := hw.lookup_start path
  obtain ⟨parent, kept, idle, hp, rfl, hidle, ⟨htop, rfl⟩ | ⟨hne, hstart', hend⟩⟩ :=
    exists_parent hsegments hname
  · have hopens : w.Opens w (w.start path).1 [] := .refl hw.tree rfl hstart
    refine ⟨w, ?_, hopens.append_idle hidle⟩
    obtain rfl | rfl := htop
    · simp only [ensureParent, hp]
    · have hroot : w.pathExists "/" = true := rfl
      rw [ensureParent_of_parent? hp (by decide), ensureDirectory, if_pos hroot]
  · have hopen' : ∀ m ∈ way (w.start path).1 kept, w.files.IsOpen m :=
      fun m hm => hopen m (mem_way_append hm idle)
    rw [ensureParent_of_parent? hp hne, ensureDirectory]
    obtain ⟨hleads, hdirectory⟩ | hbreaks := follow_or_breaksOff hw.tree hstart hopen'
    · have hopens : w.Opens w (w.start path).1 kept := .refl hw.tree hleads hdirectory
      have hthere : w.pathExists parent = true :=
        pathExists_of_isDirectory (Opens.isDirectory_path (w := w) (by rwa [hstart']) hne)
      exact ⟨w, by rw [if_pos hthere], hopens.append_idle hidle⟩
    · have hoff : w.BreaksOff parent := by rwa [BreaksOff, hstart']
      obtain ⟨front, last, rfl, hlast⟩ := hbreaks.exists_last hend
      obtain ⟨w', hmade, hopens⟩ := opens_makeDirectories (Nat.lt_succ_self parent.length)
        hw.tree (by rwa [hstart']) (by rw [hstart']) hlast (by rwa [hstart'])
      rw [hstart'] at hopens
      refine ⟨w', ?_, hopens.append_idle hidle⟩
      rw [if_neg (by simp [hoff.pathExists]), hmade]

/-- The path ends in a name, without a slash, where no directory is, and every location on the way
there is a directory or missing, and not the file's own. -/
def HasOpenWay (w : Workspace) (path : String) : Prop :=
  ∃ front name, (w.start path).2 = front ++ [name] ∧ (name ≠ "" ∧ name ≠ "." ∧ name ≠ "..") ∧
    (∀ l ∈ way (w.start path).1 front,
      w.files.IsOpen l ∧ l ≠ front.foldl move (w.start path).1 ++ [name]) ∧
    w.files.lookup (front.foldl move (w.start path).1 ++ [name]) ≠ some .directory

theorem LeavesDirectories.isOpen {w w' : Workspace} {path : String}
    (h : w.LeavesDirectories w' path) {l : Location} (hl : w'.files.lookup l = some .directory) :
    w.files.IsOpen l := by
  cases hold : w.files.lookup l with
  | none => exact .inl hold
  | some e =>
    rw [h.kept l e hold] at hl
    exact .inr (hold.trans hl)

theorem CanWrite.hasOpenWay {w : Workspace} {path : String} (h : w.CanWrite path) :
    w.HasOpenWay path := by
  obtain ⟨content, h⟩ := h
  have hleaves := w.leavesDirectories_ensureParent path
  unfold Workspace.writeFile at h
  split at h
  · cases h
  · next w' hensure =>
    simp only [hensure] at hleaves
    have hstart : w'.start path = w.start path := by simp [start, hleaves.directory]
    split at h
    · next w'' hwrite =>
      obtain ⟨parent, name, hends, htarget, -⟩ := endsIn_of_write hwrite
      obtain ⟨front, hsegments, hfollow⟩ := hends.segments
      rw [hstart] at hsegments hfollow
      -- the file is written behind directories, each of which was there or has been made
      obtain ⟨rfl, hway⟩ := way_of_follow hfollow hends.parentDirectory
      refine ⟨front, name, hsegments, hends.named, fun l hl => ⟨hleaves.isOpen (hway l hl), ?_⟩, ?_⟩
      · rintro rfl
        exact htarget (hway _ hl)
      · exact fun hdirectory => htarget (hleaves.kept _ _ hdirectory)
    · cases h

/-- A file can be written if and only if the way to it is open. -/
theorem canWrite_iff {w : Workspace} (hw : w.IsSound) (path : String) :
    w.CanWrite path ↔ w.HasOpenWay path := by
  refine ⟨CanWrite.hasOpenWay, ?_⟩
  rintro ⟨front, name, hsegments, hname, hway, htarget⟩
  obtain ⟨w', hensure, hopens⟩ :=
    opens_ensureParent hw hsegments ⟨hname.1, hname.2.1⟩ fun l hl => (hway l hl).1
  have htarget' : w'.files.lookup (front.foldl move (w.start path).1 ++ [name]) ≠
      some .directory := by
    rwa [hopens.lookup_eq fun hmem => (hway _ hmem).2 rfl]
  refine ⟨[], ?_⟩
  simp [Workspace.writeFile, hensure, write, hopens.lastSegment hsegments hname.1,
    (isName_iff name).mpr hname.2, htarget']

end Workspace

end ScriptManifest
