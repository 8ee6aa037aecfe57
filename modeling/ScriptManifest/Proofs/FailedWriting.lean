import ScriptManifest.Proofs.Placement
import Mathlib.Data.List.TakeWhile

/-!
What is left of a file that cannot be written. Nothing that was there is touched, but the directories
on the way to the file are made before it is known whether the file can be, and they stay
(`failed_write_leaves_directories`). Nothing at all is left if and only if none of them could be made.
-/

namespace ScriptManifest

open Text

namespace FileSystem

/-- Some segments come to a name that is not there, in a directory that is. -/
def BreaksOff (fs : FileSystem) (l : Location) (ss : List String) : Prop :=
  ∃ front name rest parent, ss = front ++ name :: rest ∧ fs.follow l front = .ok parent ∧
    fs.lookup parent = some .directory ∧ (name ≠ "" ∧ name ≠ "." ∧ name ≠ "..") ∧
    fs.lookup (parent ++ [name]) = none

theorem BreaksOff.append {fs : FileSystem} {l : Location} {ss : List String}
    (h : fs.BreaksOff l ss) (ts : List String) : fs.BreaksOff l (ss ++ ts) := by
  obtain ⟨front, name, rest, parent, rfl, hmissing⟩ := h
  exact ⟨front, name, rest ++ ts, parent, by simp, hmissing⟩

theorem BreaksOff.follow {fs : FileSystem} {l : Location} {ss : List String}
    (h : fs.BreaksOff l ss) : fs.follow l ss = .error .notFound := by
  obtain ⟨front, name, rest, parent, rfl, hfront, hparent, hname, hmissing⟩ := h
  have henter : fs.enter parent name = .error .notFound := by
    simp [enter_name fs hname, hmissing]
  simp only [follow_append, hfront]
  rw [FileSystem.follow, if_pos hparent]
  simp only [henter]

theorem BreaksOff.exists_ne_empty {fs : FileSystem} {l : Location} {ss : List String}
    (h : fs.BreaksOff l ss) : ∃ s ∈ ss, s ≠ "" := by
  obtain ⟨front, name, rest, parent, rfl, -, -, hname, -⟩ := h
  exact ⟨name, by simp, hname.1⟩

end FileSystem

namespace Workspace

/-! ### Directories that can be made -/

/-- A directory that is missing in one that is there. -/
def CanMake (w : Workspace) (path : String) : Prop :=
  ∃ parent name slashes, w.EndsIn path parent name slashes ∧
    w.files.lookup (parent ++ [name]) = none

/-- The segments of a path come to a name that is not there. -/
def BreaksOff (w : Workspace) (path : String) : Prop :=
  w.files.BreaksOff (w.start path).1 (w.start path).2

theorem EndsIn.lastSegment {w : Workspace} {path name : String} {parent : Location}
    {slashes : List String} (h : w.EndsIn path parent name slashes) :
    ∃ slash, w.lastSegment path = .ok (parent, name, slash) := by
  obtain ⟨front, hsegments, hfollow⟩ := h.segments
  have hblank : ∀ s ∈ slashes.reverse, (s == "") = true := fun s hs => by
    simpa using h.blank s (List.mem_reverse.mp hs)
  have htrim : (w.start path).2.reverse.dropWhile (· == "") = name :: front.reverse := by
    rw [hsegments, List.reverse_append, List.reverse_cons, List.append_assoc,
      List.dropWhile_append_of_pos hblank]
    simp [h.named.1]
  have hpath : ¬ path.isEmpty = true := by simp [h.nonempty]
  rw [Workspace.lastSegment, if_neg hpath]
  simp only [htrim, List.reverse_reverse, hfollow, h.parentDirectory, if_true]
  exact ⟨_, rfl⟩

theorem EndsIn.makeDirectory {w : Workspace} {path name : String} {parent : Location}
    {slashes : List String} (h : w.EndsIn path parent name slashes)
    (hmissing : w.files.lookup (parent ++ [name]) = none) :
    w.makeDirectory path =
      .ok { w with files := w.files.insert (parent ++ [name]) .directory } := by
  obtain ⟨slash, hlast⟩ := h.lastSegment
  have hname : isName name = true := (isName_iff name).mpr h.named.2
  simp [Workspace.makeDirectory, hlast, hname, hmissing]

theorem canMake_of_makeDirectory {w w' : Workspace} {path : String}
    (h : w.makeDirectory path = .ok w') : w.CanMake path := by
  unfold makeDirectory at h
  split at h
  · cases h
  · next parent name slash hlast =>
    split at h
    · cases h
    · next hfree =>
      simp only [Bool.or_eq_true, Bool.not_eq_true', not_or, Bool.not_eq_false,
        Option.not_isSome_iff_eq_none] at hfree
      obtain ⟨slashes, hends, -⟩ := endsIn_of_lastSegment hlast hfree.1
      exact ⟨parent, name, slashes, hends, hfree.2⟩

theorem CanMake.breaksOff {w : Workspace} {path : String} (h : w.CanMake path) :
    w.BreaksOff path := by
  obtain ⟨parent, name, slashes, hends, hmissing⟩ := h
  obtain ⟨front, hsegments, hfollow⟩ := hends.segments
  exact ⟨front, name, slashes, parent, hsegments, hfollow, hends.parentDirectory, hends.named,
    hmissing⟩

/-! ### Paths below a missing directory -/

theorem start_of_parent? {w : Workspace} {path parent : String}
    (hp : Path.parent? path = some parent) (h : ∃ s ∈ (w.start parent).2, s ≠ "") :
    ∃ idle last behind, last ≠ "" ∧
      w.start path = ((w.start parent).1, (w.start parent).2 ++ idle ++ last :: behind) := by
  obtain hblank | ⟨hhead, last, hlast, idle, behind, hsegments⟩ :=
    Path.segments_of_parentChars (Path.parent?_eq_some_iff.mp hp)
  · -- a parent of blank segments only leads to no name
    obtain ⟨s, hs, hne⟩ := h
    have hmem : s ∈ (Path.segments parent.toList).map String.ofList := by
      unfold start at hs
      dsimp only at hs
      split at hs
      · exact List.mem_of_mem_drop hs
      · exact hs
    obtain ⟨t, ht, rfl⟩ := List.mem_map.mp hmem
    exact (hne (by rw [hblank t ht])).elim
  · refine ⟨idle.map String.ofList, String.ofList last, behind.map String.ofList, ?_, ?_⟩
    · intro hempty
      have hnil := congrArg String.toList hempty
      rw [String.toList_ofList] at hnil
      rw [hnil] at hlast
      cases hlast
    · have hne : Path.segments parent.toList ≠ [] := by
        rw [Path.segments_eq_splitOn]
        exact List.splitOn_ne_nil _ _
      obtain ⟨first, further, hfirst⟩ := List.exists_cons_of_ne_nil hne
      have habsolute : Path.isAbsolute path = Path.isAbsolute parent := by
        rw [Path.isAbsolute, Path.isAbsolute, hhead]
      unfold start
      rw [habsolute, hsegments, hfirst]
      split <;> simp

theorem BreaksOff.lastSegment {w : Workspace} {path parent : String} (h : w.BreaksOff parent)
    (hp : Path.parent? path = some parent) : w.lastSegment path = .error .notFound := by
  obtain ⟨idle, last, behind, hlast, hstart⟩ := start_of_parent? hp h.exists_ne_empty
  have hpath : ¬ path.isEmpty = true := by
    have := Path.length_lt_of_parent? hp
    rintro hempty
    rw [String.isEmpty_iff] at hempty
    simp [hempty] at this
  rw [Workspace.lastSegment, if_neg hpath, hstart]
  dsimp only
  split
  · next htrim =>
    have hall := List.dropWhile_eq_nil_iff.mp htrim last (by simp)
    exact (hlast (by simpa using hall)).elim
  · next final front htrim =>
    obtain ⟨slashes, hcut, hblank, -⟩ := split_trailing htrim
    -- the segments of the parent stand in front of the last one that is not blank
    have hfront : ∃ more, front.reverse = (w.start parent).2 ++ more := by
      obtain ⟨more, hmore, -⟩ | ⟨more, hmore, hrest⟩ := List.append_eq_append_iff.mp hcut
      · exact ⟨idle ++ more, by rw [hmore, List.append_assoc]⟩
      · cases more with
        | nil => exact ⟨idle, by simpa using hmore.symm⟩
        | cons s more =>
          rw [List.cons_append, List.cons.injEq] at hrest
          exact (hlast (hblank last (by simp [hrest.2]))).elim
    obtain ⟨more, hmore⟩ := hfront
    rw [hmore, (h.append more).follow]

theorem BreaksOff.of_parent? {w : Workspace} {path parent : String} (h : w.BreaksOff parent)
    (hp : Path.parent? path = some parent) : w.BreaksOff path := by
  obtain ⟨idle, last, behind, -, hstart⟩ := start_of_parent? hp h.exists_ne_empty
  rw [BreaksOff, hstart, List.append_assoc]
  exact FileSystem.BreaksOff.append h _

theorem mem_ancestors_succ {n : Nat} {path q : String} :
    q ∈ Path.ancestors (n + 1) path ↔
      q = path ∨ ∃ parent, Path.parent? path = some parent ∧ q ∈ Path.ancestors n parent := by
  rw [Path.ancestors, List.mem_cons]
  cases Path.parent? path <;> simp

theorem BreaksOff.of_mem_ancestors {w : Workspace} {n : Nat} {path q : String}
    (h : w.BreaksOff q) (hq : q ∈ Path.ancestors n path) : w.BreaksOff path := by
  induction n generalizing path with
  | zero => cases hq
  | succ n ih =>
    obtain rfl | ⟨parent, hp, hq⟩ := mem_ancestors_succ.mp hq
    · exact h
    · exact (ih hq).of_parent? hp

theorem BreaksOff.pathExists {w : Workspace} {path : String} (h : w.BreaksOff path) :
    w.pathExists path = false := by
  have hlocate : w.locate path = .error .notFound := by
    unfold locate
    split
    · rfl
    · exact FileSystem.BreaksOff.follow h
  simp [Workspace.pathExists, entry, hlocate]

/-! ### What is made -/

theorem isSome_lookup_makeDirectories {fuel n : Nat} {w : Workspace} {path q name : String}
    {parent : Location} {slashes : List String} (hfuel : path.length < fuel)
    (hq : q ∈ Path.ancestors n path) (hends : w.EndsIn q parent name slashes)
    (hmissing : w.files.lookup (parent ++ [name]) = none) :
    ((makeDirectories fuel w path).1.files.lookup (parent ++ [name])).isSome = true := by
  have hbreaks : w.BreaksOff q := CanMake.breaksOff ⟨parent, name, slashes, hends, hmissing⟩
  induction fuel generalizing n path with
  | zero => omega
  | succ fuel ih =>
    obtain ⟨m, rfl⟩ : ∃ m, n = m + 1 := ⟨n - 1, by cases n <;> simp_all [Path.ancestors]⟩
    rw [makeDirectories]
    obtain rfl | ⟨above, hp, hq⟩ := mem_ancestors_succ.mp hq
    · rw [if_neg (by simp [hends.nonempty])]
      simp only [hends.makeDirectory hmissing]
      rw [FileSystem.lookup_insert _ (location_ne_nil parent name), if_pos rfl]
      rfl
    · have hshorter := Path.length_lt_of_parent? hp
      have hpath : ¬ path.isEmpty = true := by
        rw [String.isEmpty_iff]
        rintro rfl
        simp at hshorter
      have hmake : w.makeDirectory path = .error .notFound := by
        simp only [makeDirectory, (hbreaks.of_mem_ancestors hq).lastSegment hp]
      have habove := ih (by omega) hq
      rw [if_neg hpath]
      simp only [hmake, hp]
      split
      · next w' c h => rwa [h] at habove
      · next w' h =>
        rw [h] at habove
        split
        · next w'' h' => exact (addsDirectories_makeDirectory h').grows.present _ habove
        · exact habove

theorem makeDirectories_fst_of_not_canMake (fuel : Nat) {w : Workspace} {path : String}
    (h : ∀ n, ∀ q ∈ Path.ancestors n path, ¬ w.CanMake q) :
    (makeDirectories fuel w path).1 = w := by
  induction fuel generalizing path with
  | zero => rfl
  | succ fuel ih =>
    have hself : ∀ w', w.makeDirectory path ≠ .ok w' := fun w' hmake =>
      h 1 path (by simp [Path.ancestors]) (canMake_of_makeDirectory hmake)
    rw [makeDirectories]
    split
    · rfl
    · split
      · next w' hmake => exact (hself w' hmake).elim
      · split
        · rfl
        · next parent hp =>
          have habove := ih fun n q hq =>
            h (n + 1) q (List.mem_of_mem_drop (mem_ancestors_parent hp hq))
          split
          · next w' c hw => rwa [hw] at habove
          · next w' hw =>
            rw [hw] at habove
            obtain rfl : w' = w := habove
            split
            · next w'' hmake => exact (hself w'' hmake).elim
            · rfl
      · rfl

theorem ensureDirectory_fst (w : Workspace) (path : String) :
    (w.ensureDirectory path).1 =
      if w.pathExists path then w else (makeDirectories (path.length + 1) w path).1 := by
  unfold ensureDirectory
  split
  · rfl
  · split <;> simp [*]

theorem exists_mem_drop_ancestors {path q : String} :
    (∃ n, q ∈ (Path.ancestors n path).drop 1) ↔
      ∃ parent, Path.parent? path = some parent ∧ ∃ n, q ∈ Path.ancestors n parent := by
  constructor
  · rintro ⟨n, hq⟩
    cases n with
    | zero => cases hq
    | succ n =>
      rw [Path.ancestors, List.drop_one, List.tail_cons] at hq
      split at hq
      · cases hq
      · next parent hp => exact ⟨parent, hp, n, hq⟩
  · rintro ⟨parent, hp, n, hq⟩
    exact ⟨n + 1, mem_ancestors_parent hp hq⟩

theorem not_canMake_empty (w : Workspace) : ¬ w.CanMake "" := by
  rintro ⟨parent, name, slashes, hends, -⟩
  cases hends.nonempty

theorem ensureDirectory_fst_eq_iff (w : Workspace) (path : String) :
    (w.ensureDirectory path).1 = w ↔ ∀ n, ∀ q ∈ Path.ancestors n path, ¬ w.CanMake q := by
  rw [ensureDirectory_fst]
  constructor
  · rintro hsame n q hq ⟨parent, name, slashes, hends, hmissing⟩
    have hbreaks : w.BreaksOff q := CanMake.breaksOff ⟨parent, name, slashes, hends, hmissing⟩
    have hmade := isSome_lookup_makeDirectories (Nat.lt_succ_self _) hq hends hmissing
    rw [(hbreaks.of_mem_ancestors hq).pathExists] at hsame
    rw [if_neg (by simp)] at hsame
    rw [hsame, hmissing] at hmade
    cases hmade
  · intro h
    split
    · rfl
    · exact makeDirectories_fst_of_not_canMake _ h

theorem ensureParent_fst_eq_iff (w : Workspace) (path : String) :
    (w.ensureParent path).1 = w ↔
      ∀ q, (∃ n, q ∈ (Path.ancestors n path).drop 1) → ¬ w.CanMake q := by
  simp only [exists_mem_drop_ancestors]
  unfold ensureParent
  split
  · next hp => simp [hp]
  · next hp =>
    have hroot : ∀ n, ∀ q ∈ Path.ancestors n "", q = "" := by
      intro n q hq
      cases n with
      | zero => cases hq
      | succ n => simpa [Path.ancestors, show Path.parent? "" = none from rfl] using hq
    refine ⟨fun _ q hq => ?_, fun _ => rfl⟩
    obtain ⟨parent, hparent, n, hq⟩ := hq
    obtain rfl : "" = parent := Option.some.inj (hp.symm.trans hparent)
    rw [hroot n q hq]
    exact w.not_canMake_empty
  · next parent hne hp =>
    rw [ensureDirectory_fst_eq_iff]
    constructor
    · rintro h q ⟨parent', hparent, n, hq⟩
      obtain rfl : parent = parent' := Option.some.inj (hp.symm.trans hparent)
      exact h n q hq
    · exact fun h n q hq => h q ⟨parent, hp, n, hq⟩

/-! ### Files that cannot be written -/

theorem writeFile_fst_of_error {w : Workspace} {path : String} {content : Bytes} {f : Failure}
    (h : (w.writeFile path content).2 = .error f) :
    (w.writeFile path content).1 = (w.ensureParent path).1 := by
  unfold writeFile at h ⊢
  split at h
  · next w' f' hensure => simp [hensure]
  · next w' hensure =>
    split at h
    · cases h
    · simp [hensure]

/-- Between two workspaces all that was there has stayed as it was, and only directories were added,
each of which a proper ancestor of the path leads to. -/
structure LeavesDirectories (w w' : Workspace) (path : String) : Prop where
  directory : w'.directory = w.directory
  kept : ∀ l e, w.files.lookup l = some e → w'.files.lookup l = some e
  added : ∀ l, w'.files.lookup l ≠ w.files.lookup l → w'.files.lookup l = some .directory ∧
    ∃ n, ∃ q ∈ (Path.ancestors n path).drop 1, w'.locate q = .ok l

theorem leavesDirectories_ensureParent (w : Workspace) (path : String) :
    w.LeavesDirectories (w.ensureParent path).1 path := by
  obtain hsame | ⟨parent, hp, hadds⟩ := w.ensureParent_cases path
  · rw [hsame]
    exact ⟨rfl, fun _ _ h => h, fun _ h => (h rfl).elim⟩
  · refine ⟨hadds.directory, fun l e hl => ?_, fun l hl => ?_⟩
    · by_contra hchanged
      have hnone := (hadds.added l (by rw [hl]; exact hchanged)).1
      rw [hl] at hnone
      cases hnone
    · obtain ⟨-, hdirectory, n, q, hq, hlocate⟩ := hadds.added l hl
      exact ⟨hdirectory, n + 1, q, mem_ancestors_parent hp hq, hlocate⟩

/-- A file that cannot be written leaves all that was there as it was. It may leave directories on
the way to the file, which are made first: it leaves none if and only if there is no proper ancestor
of the path that is missing in a directory that is there. -/
theorem failed_write_leaves_directories {w : Workspace} {path : String} {content : Bytes}
    {f : Failure} (h : (w.writeFile path content).2 = .error f) :
    w.LeavesDirectories (w.writeFile path content).1 path ∧
      ((w.writeFile path content).1 = w ↔
        ∀ q, (∃ n, q ∈ (Path.ancestors n path).drop 1) → ¬ w.CanMake q) := by
  rw [writeFile_fst_of_error h]
  exact ⟨w.leavesDirectories_ensureParent path, w.ensureParent_fst_eq_iff path⟩

/-- Where a file stands in the way, a directory beside it is made before the way comes to the file. -/
theorem failed_write_leaves_directories_around_file :
    let w : Workspace := ⟨⟨[(["f"], .file [])]⟩, []⟩
    let path := "n/../f/x"
    (w.writeFile path []).2 =
        .error (.fileSystem "Failed to create directory" "n/../f" .alreadyExists) ∧
      w.LeavesDirectories (w.writeFile path []).1 path ∧
      ((w.writeFile path []).1 = w ↔
        ∀ q, (∃ n, q ∈ (Path.ancestors n path).drop 1) → ¬ w.CanMake q) ∧
      (w.writeFile path []).1.files = ⟨[(["f"], .file []), (["n"], .directory)]⟩ := by
  intro w path
  have hfails : (w.writeFile path []).2 =
      .error (.fileSystem "Failed to create directory" "n/../f" .alreadyExists) := by decide
  obtain ⟨hleaves, hsame⟩ := failed_write_leaves_directories hfails
  exact ⟨hfails, hleaves, hsame, by decide⟩

/-- The directory around a file whose path ends in a slash is made, although the file cannot be. -/
theorem failed_write_leaves_new_directory :
    let w : Workspace := ⟨⟨[]⟩, []⟩
    (w.writeFile "new/out/" []).2 =
        .error (.fileSystem "Failed to write output file" "new/out/" .isADirectory) ∧
      (w.writeFile "new/out/" []).1.files.lookup ["new"] = some .directory ∧
      (w.writeFile "new/out/" []).1.files ≠ w.files := by
  decide

end Workspace

end ScriptManifest
