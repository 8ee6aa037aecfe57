import ScriptManifest.Output
import ScriptManifest.Proofs.ParentPaths

/-!
Where the operations on files place what they make. A step that makes directories only adds entries
(`Grows`), so a path that led somewhere still leads there; what is added along the way to a path are
directories that its ancestors lead to (`AddsDirectories`). A file that has been written is what its
path leads to, and nothing else but such directories has changed (`Writes`).
-/

namespace ScriptManifest

open Text

namespace FileSystem

/-! ### Looking up what was put -/

theorem lookup_replace (entries : List (Location × Entry)) (l l' : Location) (e : Entry) :
    (entries.map fun x => if x.1 = l then (l, e) else x).lookup l' =
      if l' = l then (entries.lookup l).map fun _ => e else entries.lookup l' := by
  induction entries with
  | nil => simp
  | cons x xs ih =>
    obtain ⟨k, v⟩ := x
    rw [List.map_cons]
    by_cases hk : k = l
    · subst hk
      by_cases hl : l' = k
      · subst hl
        simp
      · have hbeq : (l' == k) = false := by simpa using hl
        simp [List.lookup_cons, hl, hbeq, ih]
    · by_cases hl : l' = k
      · subst hl
        simp [hk]
      · have hbeq : (l' == k) = false := by simpa using hl
        by_cases hll : l' = l
        · subst hll
          simpa [List.lookup_cons, hk, hbeq] using ih
        · simpa [List.lookup_cons, hk, hbeq, hll] using ih

theorem lookup_insert (fs : FileSystem) {l : Location} (hl : l ≠ []) (e : Entry) (l' : Location) :
    (fs.insert l e).lookup l' = if l' = l then some e else fs.lookup l' := by
  by_cases hroot : l' = []
  · have hne : l' ≠ l := fun h => hl (h.symm.trans hroot)
    rw [if_neg hne]
    simp [lookup, hroot]
  · unfold insert
    cases hold : fs.entries.lookup l with
    | some old =>
      simp only [Option.isSome_some, if_true, lookup, if_neg hroot, lookup_replace, hold]
      rfl
    | none =>
      simp only [Option.isSome_none, Bool.false_eq_true, if_false, lookup, if_neg hroot,
        List.lookup_append]
      by_cases heq : l' = l
      · subst heq
        simp [hold]
      · have hbeq : (l' == l) = false := by simpa using heq
        simp [heq, List.lookup_cons, hbeq]

theorem eq_of_lookup_insert_ne {fs : FileSystem} {l l' : Location} {e : Entry} (hl : l ≠ [])
    (h : (fs.insert l e).lookup l' ≠ fs.lookup l') : l' = l := by
  rw [lookup_insert fs hl] at h
  split at h
  · assumption
  · exact (h rfl).elim

/-! ### Paths through files that grow -/

structure Grows (fs fs' : FileSystem) : Prop where
  directory : ∀ l, fs.lookup l = some .directory → fs'.lookup l = some .directory
  present : ∀ l, (fs.lookup l).isSome = true → (fs'.lookup l).isSome = true

theorem Grows.refl (fs : FileSystem) : Grows fs fs := ⟨fun _ h => h, fun _ h => h⟩

theorem Grows.trans {fs fs' fs'' : FileSystem} (h : Grows fs fs') (h' : Grows fs' fs'') :
    Grows fs fs'' :=
  ⟨fun l hl => h'.directory l (h.directory l hl), fun l hl => h'.present l (h.present l hl)⟩

theorem grows_insert (fs : FileSystem) {l : Location} (hl : l ≠ []) (e : Entry)
    (hd : fs.lookup l ≠ some .directory) : Grows fs (fs.insert l e) := by
  constructor
  · intro l' hl'
    have hne : l' ≠ l := fun heq => hd (heq ▸ hl')
    rw [lookup_insert fs hl, if_neg hne, hl']
  · intro l' hl'
    rw [lookup_insert fs hl]
    by_cases heq : l' = l <;> simp [heq, hl']

theorem enter_name (fs : FileSystem) {name : String} (h : name ≠ "" ∧ name ≠ "." ∧ name ≠ "..")
    (l : Location) :
    fs.enter l name =
      if (fs.lookup (l ++ [name])).isSome then .ok (l ++ [name]) else .error .notFound := by
  unfold enter
  split
  · exact (h.1 rfl).elim
  · exact (h.2.1 rfl).elim
  · exact (h.2.2 rfl).elim
  · rfl

theorem enter_mono {fs fs' : FileSystem} (h : Grows fs fs') {l l' : Location} {segment : String}
    (he : fs.enter l segment = .ok l') : fs'.enter l segment = .ok l' := by
  unfold enter at he ⊢
  split at he
  · exact he
  · exact he
  · exact he
  · split at he
    · next hp => rw [if_pos (h.present _ hp)]; exact he
    · cases he

theorem follow_mono {fs fs' : FileSystem} (h : Grows fs fs') {l l' : Location} {ss : List String}
    (hf : fs.follow l ss = .ok l') : fs'.follow l ss = .ok l' := by
  induction ss generalizing l with
  | nil => exact hf
  | cons s ss ih =>
    rw [follow] at hf ⊢
    split at hf
    · next hd =>
      rw [if_pos (h.directory l hd)]
      cases he : fs.enter l s with
      | error c => simp [he] at hf
      | ok m =>
        simp only [he] at hf
        simp only [enter_mono h he]
        exact ih hf
    · cases hf

theorem follow_append (fs : FileSystem) (l : Location) (ss ts : List String) :
    fs.follow l (ss ++ ts) =
      match fs.follow l ss with
      | .ok l' => fs.follow l' ts
      | .error c => .error c := by
  induction ss generalizing l with
  | nil => rfl
  | cons s ss ih =>
    rw [List.cons_append, follow, follow]
    split
    · cases fs.enter l s with
      | ok m => exact ih m
      | error c => rfl
    · rfl

theorem follow_blanks (fs : FileSystem) {l : Location} (hl : fs.lookup l = some .directory)
    {ss : List String} (hs : ∀ s ∈ ss, s = "") : fs.follow l ss = .ok l := by
  induction ss with
  | nil => rfl
  | cons s ss ih =>
    have hblank : s = "" := hs s (by simp)
    subst hblank
    rw [follow, if_pos hl]
    exact ih fun t ht => hs t (List.mem_cons_of_mem _ ht)

end FileSystem

namespace Workspace

/-! ### The last segment of a path -/

/-- A path whose last segment is `name` inside the directory at `parent`, with `slashes` behind it. -/
structure EndsIn (w : Workspace) (path : String) (parent : Location) (name : String)
    (slashes : List String) : Prop where
  nonempty : path.isEmpty = false
  segments : ∃ front, (w.start path).2 = front ++ name :: slashes ∧
    w.files.follow (w.start path).1 front = .ok parent
  parentDirectory : w.files.lookup parent = some .directory
  named : name ≠ "" ∧ name ≠ "." ∧ name ≠ ".."
  blank : ∀ s ∈ slashes, s = ""

theorem location_ne_nil (parent : Location) (name : String) : parent ++ [name] ≠ [] := by simp

theorem isName_iff (segment : String) : isName segment = true ↔ segment ≠ "." ∧ segment ≠ ".." := by
  simp [isName]

theorem split_trailing {segments front : List String} {last : String}
    (h : segments.reverse.dropWhile (· == "") = last :: front) :
    ∃ slashes, segments = front.reverse ++ last :: slashes ∧ (∀ s ∈ slashes, s = "") ∧ last ≠ "" := by
  obtain ⟨slashes, hsegments, hblank, hlast⟩ := Path.exists_cut_of_dropWhile_reverse h
  exact ⟨slashes, hsegments, fun s hs => by simpa using hblank s hs, by simpa using hlast⟩

theorem endsIn_of_lastSegment {w : Workspace} {path name : String} {parent : Location} {slash : Bool}
    (h : w.lastSegment path = .ok (parent, name, slash)) (hn : isName name = true) :
    ∃ slashes, w.EndsIn path parent name slashes ∧ (slash = false → slashes = []) := by
  unfold lastSegment at h
  split at h
  · cases h
  · next hpath =>
    simp only at h
    split at h
    · -- the whole path consists of slashes, and the root is no name
      cases h
      simp [isName] at hn
    · next last front htrim =>
      split at h
      · cases h
      · next dir hfollow =>
        split at h
        · next hdir =>
          cases h
          obtain ⟨slashes, hsegments, hblank, hname⟩ := split_trailing htrim
          refine ⟨slashes, ⟨by simpa using hpath, ⟨_, hsegments, hfollow⟩, hdir,
            ⟨hname, (isName_iff name).mp hn⟩, hblank⟩, ?_⟩
          intro hslash
          have hlen := congrArg List.length hsegments
          simp only [List.length_append, List.length_cons, List.length_reverse] at hlen
          simp only [htrim, decide_eq_false_iff_not, List.length_cons] at hslash
          exact List.length_eq_zero_iff.mp (by omega)
        · cases h

theorem EndsIn.locate {w w' : Workspace} {path name : String} {parent : Location}
    {slashes : List String} (h : w.EndsIn path parent name slashes)
    (hg : FileSystem.Grows w.files w'.files) (hd : w'.directory = w.directory)
    (hp : (w'.files.lookup (parent ++ [name])).isSome = true)
    (hs : slashes ≠ [] → w'.files.lookup (parent ++ [name]) = some .directory) :
    w'.locate path = .ok (parent ++ [name]) := by
  obtain ⟨front, hsegments, hfollow⟩ := h.segments
  have hstart : w'.start path = w.start path := by simp [start, hd]
  have henter : w'.files.enter parent name = .ok (parent ++ [name]) := by
    rw [w'.files.enter_name h.named, if_pos hp]
  have hrest : w'.files.follow (parent ++ [name]) slashes = .ok (parent ++ [name]) := by
    cases hsl : slashes with
    | nil => rfl
    | cons s ss => exact hsl ▸ w'.files.follow_blanks (hs (by simp [hsl])) h.blank
  have hpath : ¬ path.isEmpty = true := by simp [h.nonempty]
  rw [Workspace.locate, if_neg hpath, hstart]
  simp only [hsegments, FileSystem.follow_append, FileSystem.follow_mono hg hfollow]
  rw [FileSystem.follow, if_pos (hg.directory parent h.parentDirectory)]
  simp only [henter, hrest]

theorem locate_mono {w w' : Workspace} (hg : FileSystem.Grows w.files w'.files)
    (hd : w'.directory = w.directory) {path : String} {l : Location}
    (h : w.locate path = .ok l) : w'.locate path = .ok l := by
  have hstart : w'.start path = w.start path := by simp [start, hd]
  unfold locate at h ⊢
  split at h
  · cases h
  · next hpath =>
    rw [if_neg hpath, hstart]
    exact FileSystem.follow_mono hg h

/-! ### Making directories -/

/-- Between two workspaces only directories were added, each of which an ancestor of the path, or
the path itself, leads to. -/
structure AddsDirectories (w w' : Workspace) (path : String) : Prop where
  directory : w'.directory = w.directory
  grows : FileSystem.Grows w.files w'.files
  added : ∀ l, w'.files.lookup l ≠ w.files.lookup l →
    w.files.lookup l = none ∧ w'.files.lookup l = some .directory ∧
      ∃ n, ∃ q ∈ Path.ancestors n path, w'.locate q = .ok l

theorem AddsDirectories.refl (w : Workspace) (path : String) : w.AddsDirectories w path :=
  ⟨rfl, .refl w.files, fun _ h => (h rfl).elim⟩

theorem mem_ancestors_parent {path parent q : String} (hp : Path.parent? path = some parent)
    {n : Nat} (h : q ∈ Path.ancestors n parent) : q ∈ (Path.ancestors (n + 1) path).drop 1 := by
  simpa [Path.ancestors, hp] using h

theorem AddsDirectories.trans {w w' w'' : Workspace} {path : String} (h : w.AddsDirectories w' path)
    (h' : w'.AddsDirectories w'' path) : w.AddsDirectories w'' path := by
  refine ⟨h'.directory.trans h.directory, h.grows.trans h'.grows, fun l hl => ?_⟩
  by_cases hfirst : w'.files.lookup l = w.files.lookup l
  · rw [← hfirst] at hl ⊢
    exact h'.added l hl
  · obtain ⟨hnone, hdir, n, q, hq, hlocate⟩ := h.added l hfirst
    exact ⟨hnone, h'.grows.directory l hdir, n, q, hq, locate_mono h'.grows h'.directory hlocate⟩

theorem AddsDirectories.ofParent {w w' : Workspace} {path parent : String}
    (hp : Path.parent? path = some parent) (h : w.AddsDirectories w' parent) :
    w.AddsDirectories w' path := by
  refine ⟨h.directory, h.grows, fun l hl => ?_⟩
  obtain ⟨hnone, hdir, n, q, hq, hlocate⟩ := h.added l hl
  exact ⟨hnone, hdir, n + 1, q, List.mem_of_mem_drop (mem_ancestors_parent hp hq), hlocate⟩

theorem addsDirectories_makeDirectory {w w' : Workspace} {path : String}
    (h : w.makeDirectory path = .ok w') : w.AddsDirectories w' path := by
  unfold makeDirectory at h
  split at h
  · cases h
  · next parent name slash hlast =>
    split at h
    · cases h
    · next hfree =>
      cases h
      simp only [Bool.or_eq_true, Bool.not_eq_true', not_or, Bool.not_eq_false,
        Option.not_isSome_iff_eq_none] at hfree
      obtain ⟨slashes, hends, -⟩ := endsIn_of_lastSegment hlast hfree.1
      have hnil := location_ne_nil parent name
      have hgrows := w.files.grows_insert hnil .directory (by simp [hfree.2])
      have hnew := w.files.lookup_insert hnil .directory (parent ++ [name])
      rw [if_pos rfl] at hnew
      refine ⟨rfl, hgrows, fun l hl => ?_⟩
      have heq : l = parent ++ [name] := FileSystem.eq_of_lookup_insert_ne hnil hl
      subst heq
      refine ⟨hfree.2, hnew, 1, path, by simp [Path.ancestors], ?_⟩
      exact hends.locate hgrows rfl (by simp [hnew]) fun _ => hnew

theorem addsDirectories_makeDirectories (fuel : Nat) (w : Workspace) (path : String) :
    w.AddsDirectories (makeDirectories fuel w path).1 path := by
  induction fuel generalizing w path with
  | zero => exact .refl w path
  | succ fuel ih =>
    rw [makeDirectories]
    split
    · exact .refl w path
    · split
      · next w' h => exact addsDirectories_makeDirectory h
      · split
        · exact .refl w path
        · next parent hp =>
          have hparent := AddsDirectories.ofParent hp (ih w parent)
          split
          · next w' c h => rw [h] at hparent; exact hparent
          · next w' h =>
            rw [h] at hparent
            split
            · next w'' hmake => exact hparent.trans (addsDirectories_makeDirectory hmake)
            · exact hparent
      · exact .refl w path

theorem addsDirectories_ensureDirectory (w : Workspace) (path : String) :
    w.AddsDirectories (w.ensureDirectory path).1 path := by
  have hmake := addsDirectories_makeDirectories (path.length + 1) w path
  unfold ensureDirectory
  split
  · exact .refl w path
  · split
    · next w' h => rw [h] at hmake; exact hmake
    · next w' c h => rw [h] at hmake; exact hmake

/-! ### Writing a file -/

/-- Between two workspaces a file was written at a path, and besides it only directories were added,
each of which a proper ancestor of the path leads to. -/
structure Writes (w w' : Workspace) (path : String) (content : Bytes) : Prop where
  directory : w'.directory = w.directory
  content : w'.read path = .ok content
  changes : ∃ target, w'.locate path = .ok target ∧
    ∀ l, w'.files.lookup l ≠ w.files.lookup l → l = target ∨
      (w.files.lookup l = none ∧ w'.files.lookup l = some .directory ∧
        ∃ n, ∃ q ∈ (Path.ancestors n path).drop 1, w'.locate q = .ok l)

theorem endsIn_of_write {w w' : Workspace} {path : String} {content : Bytes}
    (h : w.write path content = .ok w') :
    ∃ parent name, w.EndsIn path parent name [] ∧
      w.files.lookup (parent ++ [name]) ≠ some .directory ∧
      w' = { w with files := w.files.insert (parent ++ [name]) (.file content) } := by
  unfold write at h
  split at h
  · cases h
  · next parent name slash hlast =>
    split at h
    · cases h
    · next hname =>
      split at h
      · cases h
      · next hfile =>
        cases h
        simp only [Bool.or_eq_true, Bool.not_eq_true', not_or, Bool.not_eq_false,
          Bool.not_eq_true] at hname
        obtain ⟨slashes, hends, hslashes⟩ := endsIn_of_lastSegment hlast hname.1
        obtain rfl := hslashes hname.2
        exact ⟨parent, name, hends, hfile, rfl⟩

theorem write_cases {w w' : Workspace} {path : String} {content : Bytes}
    (h : w.write path content = .ok w') :
    ∃ target, w'.directory = w.directory ∧ FileSystem.Grows w.files w'.files ∧
      w'.locate path = .ok target ∧ w'.files.lookup target = some (.file content) ∧
      ∀ l, w'.files.lookup l ≠ w.files.lookup l → l = target := by
  obtain ⟨parent, name, hends, hfile, rfl⟩ := endsIn_of_write h
  have hnil := location_ne_nil parent name
  have hgrows := w.files.grows_insert hnil (.file content) hfile
  have hnew := w.files.lookup_insert hnil (.file content) (parent ++ [name])
  rw [if_pos rfl] at hnew
  refine ⟨parent ++ [name], rfl, hgrows, ?_, hnew, ?_⟩
  · exact hends.locate hgrows rfl (by simp [hnew]) (by simp)
  · exact fun l hl => FileSystem.eq_of_lookup_insert_ne hnil hl

theorem read_of_locate {w : Workspace} {path : String} {l : Location} {content : Bytes}
    (hl : w.locate path = .ok l) (hc : w.files.lookup l = some (.file content)) :
    w.read path = .ok content := by
  simp [read, entry, hl, hc]

theorem ensureParent_cases (w : Workspace) (path : String) :
    (w.ensureParent path).1 = w ∨
      ∃ parent, Path.parent? path = some parent ∧
        w.AddsDirectories (w.ensureParent path).1 parent := by
  unfold ensureParent
  split
  · exact .inl rfl
  · exact .inl rfl
  · next parent _ hp => exact .inr ⟨parent, hp, addsDirectories_ensureDirectory w parent⟩

theorem writes_of_write {w w' w'' : Workspace} {path : String} {content : Bytes}
    (hparent : w' = w ∨
      ∃ parent, Path.parent? path = some parent ∧ w.AddsDirectories w' parent)
    (h : w'.write path content = .ok w'') : w.Writes w'' path content := by
  obtain ⟨target, hdir, hgrows, hlocate, hnew, honly⟩ := write_cases h
  refine ⟨?_, read_of_locate hlocate hnew, target, hlocate, fun l hl => ?_⟩
  · obtain rfl | ⟨parent, -, hadds⟩ := hparent
    · exact hdir
    · exact hdir.trans hadds.directory
  · by_cases hlast : w''.files.lookup l = w'.files.lookup l
    · obtain rfl | ⟨parent, hp, hadds⟩ := hparent
      · exact (hl hlast).elim
      · rw [hlast] at hl ⊢
        obtain ⟨hnone, hd, n, q, hq, hql⟩ := hadds.added l hl
        exact .inr ⟨hnone, hd, n + 1, q, mem_ancestors_parent hp hq, locate_mono hgrows hdir hql⟩
    · exact .inl (honly l hlast)

theorem writes_of_writeFile {w : Workspace} {path : String} {content : Bytes}
    (h : (w.writeFile path content).2 = .ok ()) :
    w.Writes (w.writeFile path content).1 path content := by
  have hparent := w.ensureParent_cases path
  unfold writeFile at h ⊢
  split at h
  · cases h
  · next w' hensure =>
    rw [hensure] at hparent
    split at h
    · next w'' hwrite => exact writes_of_write hparent hwrite
    · cases h

/-- A path that a file can be written to, whatever its content. -/
def CanWrite (w : Workspace) (path : String) : Prop :=
  ∃ content, (w.writeFile path content).2 = .ok ()

theorem write_isOk {w : Workspace} {path : String} {content : Bytes} (content' : Bytes)
    (h : ∃ w', w.write path content = .ok w') : ∃ w', w.write path content' = .ok w' := by
  obtain ⟨w', hw⟩ := h
  unfold write at hw ⊢
  split at hw
  · cases hw
  · split at hw
    · cases hw
    · split at hw
      · cases hw
      · next hname hfile => exact ⟨_, by rw [if_neg hname, if_neg hfile]⟩

theorem CanWrite.writeFile {w : Workspace} {path : String} (h : w.CanWrite path) (content : Bytes) :
    (w.writeFile path content).2 = .ok () := by
  obtain ⟨content', hc⟩ := h
  unfold Workspace.writeFile at hc ⊢
  split at hc
  · cases hc
  · next w' hensure =>
    split at hc
    · next w'' hwrite =>
      obtain ⟨v, hv⟩ := write_isOk content ⟨w'', hwrite⟩
      simp only [hv]
    · cases hc

end Workspace

end ScriptManifest
