import ScriptManifest.Config.Search
import ScriptManifest.Proofs.Placement
import ScriptManifest.Proofs.Utf8Text
import Mathlib.Data.List.Basic

/-!
Which configuration a search finds. It is that of the nearest directory that holds one, as it is,
and nothing but the files of the first ten directories counts (`nearest_config_counts`). A file that
is no configuration is warned of and passed over, as if the directory held none
(`malformed_config_is_passed_over`).
-/

namespace ScriptManifest

open Text

/-! ### Reading beside a file that was written -/

namespace FileSystem

theorem follow_of_file {fs : FileSystem} {l l' : Location} {content : Bytes} {ss : List String}
    (hl : fs.lookup l = some (.file content)) (h : fs.follow l ss = .ok l') : l' = l := by
  cases ss with
  | nil => exact (Except.ok.inj h).symm
  | cons s ss => simp [follow, hl] at h

theorem enter_of_lookup_eq {fs fs' : FileSystem} {l m : Location} {segment : String}
    (hm : fs'.lookup m = fs.lookup m) (h : fs'.enter l segment = .ok m) :
    fs.enter l segment = .ok m := by
  unfold enter at h ⊢
  split at h
  · exact h
  · exact h
  · exact h
  · split at h
    · next hp =>
      cases h
      rw [hm] at hp
      rw [if_pos hp]
    · cases h

theorem follow_of_put {fs fs' : FileSystem} {target : Location} {content : Bytes}
    (hfile : fs'.lookup target = some (.file content))
    (hsame : ∀ l, l ≠ target → fs'.lookup l = fs.lookup l) {l l' : Location} {ss : List String}
    (h : fs'.follow l ss = .ok l') (hne : l' ≠ target) : fs.follow l ss = .ok l' := by
  induction ss generalizing l with
  | nil => exact h
  | cons s ss ih =>
    rw [follow] at h ⊢
    split at h
    · next hdir =>
      have hl : l ≠ target := by
        rintro rfl
        rw [hfile] at hdir
        cases hdir
      rw [hsame l hl] at hdir
      rw [if_pos hdir]
      cases he : fs'.enter l s with
      | error c => simp [he] at h
      | ok m =>
        simp only [he] at h
        -- no segment leads on from a file, so the path has not come to one yet
        have hm : m ≠ target := by
          rintro rfl
          exact hne (follow_of_file hfile h)
        simp only [enter_of_lookup_eq (hsame m hm) he]
        exact ih h
    · cases h

end FileSystem

namespace Workspace

theorem read_eq_ok_iff {w : Workspace} {path : String} {content : Bytes} :
    w.read path = .ok content ↔
      ∃ l, w.locate path = .ok l ∧ w.files.lookup l = some (.file content) := by
  constructor
  · intro h
    unfold read entry at h
    cases hlocate : w.locate path with
    | error c => simp [hlocate] at h
    | ok l =>
      cases hlookup : w.files.lookup l with
      | none => simp [hlocate, hlookup] at h
      | some e =>
        cases e with
        | directory => simp [hlocate, hlookup] at h
        | file bytes =>
          simp only [hlocate, hlookup, Except.ok.injEq] at h
          exact ⟨l, rfl, h ▸ hlookup⟩
  · rintro ⟨l, hlocate, hlookup⟩
    exact read_of_locate hlocate hlookup

theorem read_write_iff {w w' : Workspace} {path other : String} {content : Bytes}
    (h : w.write path content = .ok w') (hother : w'.locate other ≠ w'.locate path)
    (bytes : Bytes) : w'.read other = .ok bytes ↔ w.read other = .ok bytes := by
  obtain ⟨target, hdirectory, hgrows, hpath, hfile, honly⟩ := write_cases h
  have hsame : ∀ l, l ≠ target → w'.files.lookup l = w.files.lookup l := by
    intro l hl
    by_contra hlookup
    exact hl (honly l hlookup)
  have hstart : w'.start other = w.start other := by simp [start, hdirectory]
  rw [hpath] at hother
  rw [read_eq_ok_iff, read_eq_ok_iff]
  constructor
  · rintro ⟨l, hlocate, hlookup⟩
    have hl : l ≠ target := by
      rintro rfl
      exact hother hlocate
    refine ⟨l, ?_, hsame l hl ▸ hlookup⟩
    unfold locate at hlocate ⊢
    split at hlocate
    · cases hlocate
    · next hempty =>
      rw [if_neg hempty, ← hstart]
      exact FileSystem.follow_of_put hfile hsame hlocate hl
  · rintro ⟨l, hlocate, hlookup⟩
    have hlocate' := locate_mono hgrows hdirectory hlocate
    have hl : l ≠ target := by
      rintro rfl
      exact hother hlocate'
    exact ⟨l, hlocate', hsame l hl ▸ hlookup⟩

end Workspace

namespace Config

/-! ### What a directory holds -/

def Holds (w : Workspace) (dir : String) (content : Bytes) : Prop :=
  w.read (Path.join dir fileName) = .ok content

def Says (content : Bytes) (config : Config) : Prop :=
  ∃ text, ofUtf8? content = some text ∧ ofText text = .ok config

def IsMalformed (content : Bytes) : Prop :=
  ∃ text fault, ofUtf8? content = some text ∧ ofText text = .error fault

def HoldsConfig (w : Workspace) (dir : String) (config : Config) : Prop :=
  ∃ content, Holds w dir content ∧ Says content config

/-- The configuration of the first of some directories that holds one. -/
def IsNearest (w : Workspace) (dirs : List String) (config : Config) : Prop :=
  ∃ before dir after, dirs = before ++ dir :: after ∧ HoldsConfig w dir config ∧
    ∀ d ∈ before, ∀ c, ¬ HoldsConfig w d c

theorem readText_of_holds {w : Workspace} {dir text : String} {content : Bytes}
    (h : Holds w dir content) (htext : ofUtf8? content = some text) :
    w.readText (Path.join dir fileName) = .ok text := by
  rw [Holds] at h
  simp [Workspace.readText, h, htext]

theorem holds_of_readText {w : Workspace} {dir text : String}
    (h : w.readText (Path.join dir fileName) = .ok text) :
    ∃ content, Holds w dir content ∧ ofUtf8? content = some text := by
  unfold Workspace.readText at h
  split at h
  · cases h
  · next bytes hread =>
    split at h
    · next s hs => exact ⟨bytes, hread, hs.trans (congrArg some (Except.ok.inj h))⟩
    · cases h

def foundIn? (w : Workspace) (dir : String) : Option Config :=
  (tryLoad w (Path.join dir fileName)).1

theorem foundIn?_eq_some_iff {w : Workspace} {dir : String} {config : Config} :
    foundIn? w dir = some config ↔ HoldsConfig w dir config := by
  constructor
  · intro h
    unfold foundIn? tryLoad at h
    split at h
    · cases h
    · cases h
    · next text hread =>
      split at h
      · cases h
      · next c hconfig =>
        obtain ⟨content, hheld, htext⟩ := holds_of_readText hread
        exact ⟨content, hheld, text, htext, hconfig.trans (congrArg _ (Option.some.inj h))⟩
  · rintro ⟨content, hheld, text, htext, hconfig⟩
    simp [foundIn?, tryLoad, readText_of_holds hheld htext, hconfig]

theorem foundIn?_eq_none_iff {w : Workspace} {dir : String} :
    foundIn? w dir = none ↔ ∀ config, ¬ HoldsConfig w dir config := by
  rw [Option.eq_none_iff_forall_ne_some]
  exact forall_congr' fun config => not_congr foundIn?_eq_some_iff

theorem not_holds_of_notFound {w : Workspace} {dir : String}
    (h : w.read (Path.join dir fileName) = .error .notFound) (content : Bytes) :
    ¬ Holds w dir content := by
  rw [Holds, h]
  intro heq
  cases heq

theorem not_holdsConfig_of_not_holds {w : Workspace} {dir : String}
    (h : ∀ content, ¬ Holds w dir content) (config : Config) : ¬ HoldsConfig w dir config := by
  rintro ⟨content, hheld, -⟩
  exact h content hheld

theorem tryLoad_of_fault {w : Workspace} {dir text : String} {content : Bytes} {fault : Fault}
    (hheld : Holds w dir content) (htext : ofUtf8? content = some text)
    (hfault : ofText text = .error fault) :
    tryLoad w (Path.join dir fileName) = (none, [malformedEntry fault]) := by
  simp only [tryLoad, readText_of_holds hheld htext, hfault]

theorem text_malformedEntry (fault : Fault) :
    (malformedEntry fault).text =
      "Failed to parse .cfmeta.toml:" ++ fault.details ++ ". Using defaults." :=
  String.append_assoc.symm

/-! ### The search -/

theorem firstOf_fst (w : Workspace) (paths : List String) :
    (firstOf w paths).1 = (paths.findSome? fun path => (tryLoad w path).1).getD {} := by
  induction paths with
  | nil => rfl
  | cons path paths ih =>
    rw [firstOf, List.findSome?_cons]
    split
    · next config log h => simp [h]
    · next log h => simp [h, ih]

theorem search_fst (w : Workspace) (start : String) :
    (search w start).1 = ((Path.ancestors 10 start).findSome? (foundIn? w)).getD {} := by
  rw [search, firstOf_fst, searchPaths, List.findSome?_map]
  rfl

theorem isNearest_iff {w : Workspace} {dirs : List String} {config : Config} :
    IsNearest w dirs config ↔ dirs.findSome? (foundIn? w) = some config := by
  rw [List.findSome?_eq_some_iff]
  simp only [foundIn?_eq_some_iff, foundIn?_eq_none_iff]
  rfl

theorem not_exists_holdsConfig_iff {w : Workspace} {dirs : List String} :
    (∀ d ∈ dirs, ∀ c, ¬ HoldsConfig w d c) ↔ dirs.findSome? (foundIn? w) = none := by
  rw [List.findSome?_eq_none_iff]
  simp only [foundIn?_eq_none_iff]

theorem findSome?_getD_eq_iff {w : Workspace} {dirs : List String} {config : Config} :
    (dirs.findSome? (foundIn? w)).getD {} = config ↔
      IsNearest w dirs config ∨ (∀ d ∈ dirs, ∀ c, ¬ HoldsConfig w d c) ∧ config = {} := by
  rw [isNearest_iff, not_exists_holdsConfig_iff]
  cases dirs.findSome? (foundIn? w) with
  | none => simp [eq_comm]
  | some found => simp

theorem findSome?_append_of_none {w : Workspace} {before : List String}
    (hbefore : ∀ d ∈ before, ∀ c, ¬ HoldsConfig w d c) (dirs : List String) :
    (before ++ dirs).findSome? (foundIn? w) = dirs.findSome? (foundIn? w) := by
  rw [List.findSome?_append, not_exists_holdsConfig_iff.mp hbefore, Option.none_or]

theorem mem_firstOf_snd {w : Workspace} {before after : List String} {path : String}
    {entry : Log.Entry} (hbefore : ∀ p ∈ before, (tryLoad w p).1 = none)
    (hpath : (tryLoad w path).1 = none) (hentry : entry ∈ (tryLoad w path).2) :
    entry ∈ (firstOf w (before ++ path :: after)).2 := by
  induction before with
  | nil =>
    rw [List.nil_append, firstOf]
    split
    · next h => simp [h] at hpath
    · next log h =>
      rw [h] at hentry
      exact List.mem_append_left _ hentry
  | cons first before ih =>
    rw [List.forall_mem_cons] at hbefore
    rw [List.cons_append, firstOf]
    split
    · next h => simp [h] at hbefore
    · exact List.mem_append_right _ (ih hbefore.2)

theorem search_eq_of_holds_iff {w w' : Workspace} {start : String}
    (h : ∀ d ∈ Path.ancestors 10 start, ∀ content, Holds w' d content ↔ Holds w d content) :
    (search w' start).1 = (search w start).1 := by
  have hfound : ∀ d ∈ Path.ancestors 10 start, foundIn? w' d = foundIn? w d := by
    intro d hd
    refine Option.ext fun config => ?_
    rw [foundIn?_eq_some_iff, foundIn?_eq_some_iff]
    exact exists_congr fun content => and_congr_left' (h d hd content)
  rw [search_fst, search_fst, ← List.head?_filterMap, ← List.head?_filterMap,
    List.filterMap_congr hfound]

/-- What a search finds is the configuration of the nearest directory with a configuration file, if
that file is in order, and nothing is taken from a farther one. Without such a file it is the
default. Only the files of the first ten directories count, so that a file which none of their paths
leads to may be written as one likes. -/
theorem nearest_config_counts (w : Workspace) (start : String) :
    (∀ before dir after content config, Path.ancestors 10 start = before ++ dir :: after →
      (∀ d ∈ before, ∀ c, ¬ Holds w d c) → Holds w dir content → Says content config →
      (search w start).1 = config) ∧
    ((∀ d ∈ Path.ancestors 10 start, ∀ c, ¬ Holds w d c) → (search w start).1 = ⟨none, none⟩) ∧
    (∀ w' : Workspace,
      (∀ d ∈ Path.ancestors 10 start, ∀ content, Holds w' d content ↔ Holds w d content) →
      (search w' start).1 = (search w start).1) ∧
    ∀ (w' : Workspace) (path : String) (content : Bytes), w.write path content = .ok w' →
      (∀ d ∈ Path.ancestors 10 start, w'.locate (Path.join d fileName) ≠ w'.locate path) →
      (search w' start).1 = (search w start).1 := by
  refine ⟨?_, ?_, fun w' => search_eq_of_holds_iff, ?_⟩
  · intro before dir after content config hchain hbefore hheld hsays
    rw [search_fst, findSome?_getD_eq_iff]
    exact .inl ⟨before, dir, after, hchain, ⟨content, hheld, hsays⟩,
      fun d hd => not_holdsConfig_of_not_holds (hbefore d hd)⟩
  · intro hnone
    rw [search_fst, findSome?_getD_eq_iff]
    exact .inr ⟨fun d hd => not_holdsConfig_of_not_holds (hnone d hd), rfl⟩
  · intro w' path content hwrite hapart
    exact search_eq_of_holds_iff fun d hd => Workspace.read_write_iff hwrite (hapart d hd)

def twoConfigs (inner outer : String) : Workspace where
  files := ⟨[(["a"], .directory), (["a", ".cfmeta.toml"], .file (encode inner)),
    ([".cfmeta.toml"], .file (encode outer))]⟩
  directory := []

/-- The inner one of two configurations counts, and one in the eleventh directory does not. -/
theorem nearest_config_counts_inner :
    let w := twoConfigs "pretty = true" "output = 'x.json'"
    let deep := "1/2/3/4/5/6/7/8/9/10"
    let eleventh : Workspace := ⟨⟨[([".cfmeta.toml"], .file (encode "pretty = true"))]⟩, []⟩
    (search w "a/b").1 = ⟨none, some true⟩ ∧
    (search ⟨⟨[]⟩, []⟩ deep).1 = ⟨none, none⟩ ∧
    (Path.ancestors 11 deep).getLast? = some "" ∧
    (search eleventh deep).1 = (search ⟨⟨[]⟩, []⟩ deep).1 := by
  intro w deep eleventh
  have hheld : Holds w "a" (encode "pretty = true") := by
    rw [Holds]
    decide
  have hsays : Says (encode "pretty = true") ⟨none, some true⟩ :=
    ⟨_, ofUtf8?_encode _, by decide⟩
  have hmissing : ∀ d ∈ Path.ancestors 10 deep,
      Workspace.read ⟨⟨[]⟩, []⟩ (Path.join d fileName) = .error .notFound := by decide
  have hnear : w.read (Path.join "a/b" fileName) = .error .notFound := by decide
  refine ⟨?_, ?_, ?_, ?_⟩
  · refine (nearest_config_counts w "a/b").1 ["a/b"] "a" [""] _ _ (by decide) ?_ hheld hsays
    simpa using not_holds_of_notFound hnear
  · exact (nearest_config_counts _ deep).2.1 fun d hd => not_holds_of_notFound (hmissing d hd)
  · decide
  · exact (nearest_config_counts _ deep).2.2.2 eleventh ".cfmeta.toml" (encode "pretty = true")
      rfl (by decide)

/-- If the nearest configuration file is no configuration, there is a warning, and the search goes
on behind it: the default is found only if no directory farther up has something else to say. -/
theorem malformed_config_is_passed_over {w : Workspace} {start dir : String}
    {before after : List String} {content : Bytes}
    (hchain : Path.ancestors 10 start = before ++ dir :: after)
    (hbefore : ∀ d ∈ before, ∀ c, ¬ Holds w d c) (hheld : Holds w dir content)
    (hmalformed : IsMalformed content) :
    (∀ config, (search w start).1 = config ↔
      IsNearest w after config ∨ (∀ d ∈ after, ∀ c, ¬ HoldsConfig w d c) ∧ config = {}) ∧
    ((search w start).1 = {} ↔ ∀ config, IsNearest w after config → config = {}) ∧
    ∃ text fault, ofUtf8? content = some text ∧ ofText text = .error fault ∧
      ∃ entry ∈ (search w start).2, entry.level = .warn ∧
        entry.text = "Failed to parse .cfmeta.toml:" ++ fault.details ++ ". Using defaults." := by
  obtain ⟨text, fault, htext, hfault⟩ := hmalformed
  have hload := tryLoad_of_fault hheld htext hfault
  have hdir : foundIn? w dir = none := by rw [foundIn?, hload]
  have hpassed : ∀ d ∈ before, ∀ c, ¬ HoldsConfig w d c :=
    fun d hd => not_holdsConfig_of_not_holds (hbefore d hd)
  have hsearch : (search w start).1 = (after.findSome? (foundIn? w)).getD {} := by
    rw [search_fst, hchain, findSome?_append_of_none hpassed, List.findSome?_cons, hdir]
  refine ⟨fun config => ?_, ?_, ?_⟩
  · rw [hsearch, findSome?_getD_eq_iff]
  · simp only [hsearch, isNearest_iff]
    cases after.findSome? (foundIn? w) with
    | none => simp
    | some found => simp
  · refine ⟨text, fault, htext, hfault, malformedEntry fault, ?_, rfl, text_malformedEntry fault⟩
    rw [search, searchPaths, searchDepth, hchain, List.map_append, List.map_cons]
    refine mem_firstOf_snd ?_ (by rw [hload]) (by simp [hload])
    intro path hpath
    obtain ⟨d, hd, rfl⟩ := List.mem_map.mp hpath
    exact foundIn?_eq_none_iff.mpr (hpassed d hd)

theorem holds_bogus : Holds (twoConfigs "bogus" "pretty = true") "a" (encode "bogus") := by
  rw [Holds]
  decide

theorem isMalformed_bogus : IsMalformed (encode "bogus") :=
  ⟨_, .malformed, ofUtf8?_encode _, by decide⟩

/-- What is found is the configuration behind the file that is none. -/
theorem malformed_config_is_passed_over_outer :
    let w := twoConfigs "bogus" "pretty = true"
    Holds w "a" (encode "bogus") ∧ IsMalformed (encode "bogus") ∧
      (search w "a").1 = ⟨none, some true⟩ ∧
      ∃ fault : Fault, ∃ entry ∈ (search w "a").2, entry.level = .warn ∧
        entry.text = "Failed to parse .cfmeta.toml:" ++ fault.details ++ ". Using defaults." := by
  intro w
  have hchain : Path.ancestors 10 "a" = [] ++ "a" :: [""] := by decide
  have houter : HoldsConfig w "" ⟨none, some true⟩ :=
    ⟨encode "pretty = true", by rw [Holds]; decide, _, ofUtf8?_encode _, by decide⟩
  have hnearest : IsNearest w [""] ⟨none, some true⟩ := ⟨[], "", [], rfl, houter, by simp⟩
  obtain ⟨hfound, -, _, fault, -, -, hwarned⟩ :=
    malformed_config_is_passed_over hchain (by simp) holds_bogus isMalformed_bogus
  exact ⟨holds_bogus, isMalformed_bogus, (hfound _).mpr (.inl hnearest), fault, hwarned⟩

/-- The nearest file is no configuration, and what is found is not the default. -/
theorem malformed_config_does_not_end_search :
    let w := twoConfigs "bogus" "pretty = true"
    Path.ancestors 10 "a" = ["a", ""] ∧ Holds w "a" (encode "bogus") ∧
      IsMalformed (encode "bogus") ∧ (search w "a").1 = ⟨none, some true⟩ ∧
      (search w "a").1 ≠ ⟨none, none⟩ := by
  refine ⟨by decide, holds_bogus, isMalformed_bogus, ?_, ?_⟩
  · decide
  · decide

end Config

end ScriptManifest
