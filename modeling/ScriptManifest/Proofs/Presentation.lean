import ScriptManifest.Proofs.AllOrNothing
import ScriptManifest.Proofs.CommandLineFlags
import ScriptManifest.Proofs.ManifestRoundTrip
import ScriptManifest.Proofs.Utf8Text
import Mathlib.Data.Set.Basic

/-!
How the result is shown does not change the result. Two lines that differ in their flags of
presentation make the program end alike: what is written to a path decides neither whether it can be
written nor what happens elsewhere (`writeFile_cases`), and both ways to render a manifest are read
as that manifest.
-/

namespace ScriptManifest

open Text

namespace Workspace

def DiffersAt (path : String) (content content' : Bytes) (w w' : Workspace) : Prop :=
  ∃ target, w.locate path = .ok target ∧ w'.locate path = .ok target ∧
    w.files.lookup target = some (.file content) ∧ w'.files.lookup target = some (.file content') ∧
    ∀ l, l ≠ target → w'.files.lookup l = w.files.lookup l

theorem write_target {w w' : Workspace} {path : String} {content : Bytes}
    (h : w.write path content = .ok w') :
    ∃ target, ∀ content', ∃ w'', w.write path content' = .ok w'' ∧
      w''.locate path = .ok target ∧
      ∀ l, w''.files.lookup l = if l = target then some (.file content') else w.files.lookup l := by
  unfold write at h
  split at h
  · cases h
  · next parent name slash hlast =>
    split at h
    · cases h
    · next hname =>
      split at h
      · cases h
      · next hfile =>
        have hvalid := hname
        simp only [Bool.or_eq_true, Bool.not_eq_true', not_or, Bool.not_eq_false,
          Bool.not_eq_true] at hvalid
        obtain ⟨slashes, hends, hslashes⟩ := endsIn_of_lastSegment hlast hvalid.1
        have hnil := location_ne_nil parent name
        refine ⟨parent ++ [name], fun content' =>
          ⟨{ w with files := w.files.insert (parent ++ [name]) (.file content') }, ?_, ?_, ?_⟩⟩
        · unfold write
          simp only [hlast]
          rw [if_neg hname, if_neg hfile]
        · have hgrows := w.files.grows_insert hnil (.file content') hfile
          have hnew := w.files.lookup_insert hnil (.file content') (parent ++ [name])
          rw [if_pos rfl] at hnew
          exact hends.locate hgrows rfl (by simp [hnew]) fun hs => (hs (hslashes hvalid.2)).elim
        · exact w.files.lookup_insert hnil (.file content')

theorem write_error {w : Workspace} {path : String} {content : Bytes} {c : Cause}
    (h : w.write path content = .error c) (content' : Bytes) : w.write path content' = .error c := by
  unfold write at h ⊢
  split at h
  · exact h
  · split at h
    · next hname =>
      rw [if_pos hname]
      exact h
    · next hname =>
      rw [if_neg hname]
      split at h
      · next hfile =>
        rw [if_pos hfile]
        exact h
      · cases h

/-- What is written decides neither whether it can be written nor what happens elsewhere. -/
theorem writeFile_cases (w : Workspace) (path : String) (content content' : Bytes) :
    (∃ f, (w.writeFile path content).2 = .error f ∧
      w.writeFile path content' = w.writeFile path content) ∨
    ((w.writeFile path content).2 = .ok () ∧ (w.writeFile path content').2 = .ok () ∧
      DiffersAt path content content' (w.writeFile path content).1 (w.writeFile path content').1) := by
  unfold writeFile
  cases hparent : w.ensureParent path with
  | mk base done =>
    cases done with
    | error f => exact .inl ⟨f, rfl, rfl⟩
    | ok _ =>
      dsimp only
      cases hwrite : base.write path content with
      | error c =>
        rw [write_error hwrite content']
        exact .inl ⟨_, rfl, rfl⟩
      | ok w' =>
        obtain ⟨target, htarget⟩ := write_target hwrite
        obtain ⟨u, hu, hlocate, hlookup⟩ := htarget content
        obtain ⟨u', hu', hlocate', hlookup'⟩ := htarget content'
        rw [hwrite] at hu
        cases hu
        rw [hu']
        refine .inr ⟨rfl, rfl, target, hlocate, hlocate', ?_, ?_, fun l hl => ?_⟩
        · rw [hlookup, if_pos rfl]
        · rw [hlookup', if_pos rfl]
        · rw [hlookup, hlookup', if_neg hl, if_neg hl]

theorem readText_of_locate {w : Workspace} {path text : String} {l : Location}
    (hl : w.locate path = .ok l) (hc : w.files.lookup l = some (.file (encode text))) :
    w.readText path = .ok text := by
  simp [readText, read_of_locate hl hc, ofUtf8?_encode]

end Workspace

/-! ### Two runs that show their result differently -/

/-- Two runs that end alike: with the same result and the same console, and with the same files but
for the output, which holds renderings of one manifest. -/
structure RunResult.Alike (o o' : RunResult) : Prop where
  result : o'.result = o.result
  console : o'.console = o.console
  files : (∀ output, o.result ≠ .ok (.written output)) → o'.workspace = o.workspace
  output : ∀ output, o.result = .ok (.written output) → ∃ (m : Manifest) (p p' : Bool),
    Workspace.DiffersAt output (encode (m.render p)) (encode (m.render p')) o.workspace o'.workspace

theorem finish_alike (w : Workspace) (s : Settings) (pretty : Bool) (r : Report) :
    (finish w s r).Alike (finish w { s with pretty := pretty } r) := by
  cases hm : r.manifest? with
  | none =>
    simp only [finish, hm]
    exact ⟨rfl, rfl, fun _ => rfl, fun _ h => by cases h⟩
  | some m =>
    simp only [finish, hm]
    obtain ⟨f, hf, heq⟩ | ⟨hok, hok', hdiffers⟩ := w.writeFile_cases s.output
      (encode (m.render s.pretty)) (encode (m.render pretty))
    · rw [heq]
      generalize w.writeFile s.output (encode (m.render s.pretty)) = written at hf
      obtain ⟨w', done⟩ := written
      cases hf
      exact ⟨rfl, rfl, fun _ => rfl, fun _ h => by cases h⟩
    · generalize w.writeFile s.output (encode (m.render s.pretty)) = written at hok hdiffers
      generalize w.writeFile s.output (encode (m.render pretty)) = written' at hok' hdiffers
      obtain ⟨w', done⟩ := written
      obtain ⟨w'', done'⟩ := written'
      cases hok
      cases hok'
      refine ⟨rfl, rfl, fun h => (h s.output rfl).elim, fun output h => ?_⟩
      cases h
      exact ⟨m, s.pretty, pretty, hdiffers⟩

theorem run_alike (w : Workspace) (s : Settings) (pretty : Bool) :
    (run w s).Alike (run w { s with pretty := pretty }) := by
  cases hread : w.read s.input with
  | error c =>
    rw [run_of_unreadable hread, run_of_unreadable (by exact hread)]
    exact ⟨rfl, rfl, fun _ => rfl, fun _ h => by cases h⟩
  | ok bytes =>
    obtain ⟨hw, hr, hc⟩ := run_eq_finish hread
    obtain ⟨hw', hr', hc'⟩ := run_eq_finish (s := { s with pretty := pretty }) hread
    have halike := finish_alike w s pretty (reportOf bytes s.input)
    constructor
    · rw [hr, hr']
      exact halike.result
    · rw [hc, hc']
      exact halike.console
    · rw [hw, hw', hr]
      exact halike.files
    · rw [hw, hw', hr]
      exact halike.output

/-! ### Two runs of the program -/

open CommandLine

/-- The path that the program writes its output to, if it comes to that. -/
def outputOf (w : Workspace) (directory : String) (env : Environment) (args : List String) :
    Option String :=
  match parse env.output args with
  | .error _ => none
  | .ok a =>
    match (configFor w directory a).1 with
    | .error _ => none
    | .ok config =>
      match (run w (a.settings config)).result with
      | .ok (.written output) => some output
      | _ => none

/-- The locations that the program writes or creates: where its output is put, and those where
nothing was before. -/
def touched (w : Workspace) (directory : String) (env : Environment) (args : List String) :
    Set Location :=
  let after := (program w directory env args).workspace
  { l | (∃ path, outputOf w directory env args = some path ∧ after.locate path = .ok l) ∨
    (w.files.lookup l = none ∧ after.files.lookup l ≠ none) }

/-- Two command lines with which the program does the same but for the form of its output. -/
structure SameContent (w : Workspace) (directory : String) (env : Environment)
    (args args' : List String) : Prop where
  exitCode : (program w directory env args').exitCode = (program w directory env args).exitCode
  console : (program w directory env args').console = (program w directory env args).console
  error : (program w directory env args').error = (program w directory env args).error
  output : outputOf w directory env args' = outputOf w directory env args
  touched : touched w directory env args' = touched w directory env args
  /-- Only what was written can differ. -/
  elsewhere : ∀ l, (∀ path, outputOf w directory env args = some path →
      (program w directory env args).workspace.locate path ≠ .ok l) →
    (program w directory env args').workspace.files.lookup l =
      (program w directory env args).workspace.files.lookup l
  /-- What was written is read as one manifest. -/
  manifest : ∀ path, outputOf w directory env args = some path → ∃ text text' m,
    (program w directory env args).workspace.readText path = .ok text ∧
      (program w directory env args').workspace.readText path = .ok text' ∧
      Manifest.ofText text = .ok m ∧ Manifest.ofText text' = .ok m

theorem parse_of_restyled {environment : Option String} {args args' : List String} {a : Arguments}
    (ha : parse environment args = .ok a) (h : Relation.ReflTransGen Restyles args args') :
    ∃ p n, parse environment args' = .ok (a.dressed p n) := by
  induction h with
  | refl => exact ⟨a.pretty, a.verbosity, ha⟩
  | tail _ hstep ih =>
    obtain ⟨p, n, hb⟩ := ih
    obtain ⟨p', n', hc⟩ := parse_of_restyles hstep hb
    exact ⟨p', n', hc⟩

theorem parse_of_louder {environment : Option String} {args args' : List String} {a : Arguments}
    (ha : parse environment args = .ok a) (h : Relation.ReflTransGen MoreVerbose args args') :
    ∃ n, parse environment args' = .ok (a.dressed a.pretty n) := by
  induction h with
  | refl => exact ⟨a.verbosity, ha⟩
  | tail _ hstep ih =>
    obtain ⟨n, hb⟩ := ih
    obtain ⟨n', hc⟩ := parse_of_moreVerbose hstep hb
    exact ⟨n', hc⟩

theorem settings_dressed (a : Arguments) (p : Bool) (n : Nat) (config : Config) :
    (a.dressed p n).settings config =
      { a.settings config with pretty := p || config.pretty.getD false } :=
  rfl

section Runs

variable {w : Workspace} {directory : String} {env : Environment} {args args' : List String}
  {a : Arguments} {config : Config}

theorem program_error_of_config (ha : parse env.output args = .ok a)
    (hc : (configFor w directory a).1 = .ok config) :
    (program w directory env args).error =
      match (run w (a.settings config)).result with
      | .ok _ => none
      | .error f => some ("Error: Failed to process " ++ a.input ++ ": " ++ f.fullText) := by
  obtain ⟨log, hlog⟩ : ∃ log, configFor w directory a = (.ok config, log) := ⟨_, by rw [← hc]⟩
  simp only [program, ha, perform, hlog]
  cases (run w (a.settings config)).result with
  | ok status => rfl
  | error f => rfl

theorem outputOf_of_config (ha : parse env.output args = .ok a)
    (hc : (configFor w directory a).1 = .ok config) :
    outputOf w directory env args =
      match (run w (a.settings config)).result with
      | .ok (.written output) => some output
      | _ => none := by
  simp only [outputOf, ha, hc]

theorem result_of_outputOf (ha : parse env.output args = .ok a)
    (hc : (configFor w directory a).1 = .ok config) (path : String) :
    outputOf w directory env args = some path ↔
      (run w (a.settings config)).result = .ok (.written path) := by
  rw [outputOf_of_config ha hc]
  split
  · next output h => simp [h]
  · next hno =>
    constructor
    · intro h
      cases h
    · exact fun h => (hno path h).elim

theorem touched_of_eq
    (ho : outputOf w directory env args' = outputOf w directory env args)
    (hw : (program w directory env args').workspace = (program w directory env args).workspace) :
    touched w directory env args' = touched w directory env args := by
  simp only [touched, ho, hw]

theorem sameContent_of_badConfig {p : Bool} {n : Nat} (ha : parse env.output args = .ok a)
    (ha' : parse env.output args' = .ok (a.dressed p n)) {f : Failure}
    (hf : (configFor w directory a).1 = .error f) : SameContent w directory env args args' := by
  obtain ⟨log, hlog⟩ : ∃ log, configFor w directory a = (.error f, log) := ⟨_, by rw [← hf]⟩
  have hlog' : configFor w directory (a.dressed p n) = (.error f, log) := hlog
  have ho : outputOf w directory env args = none := by simp only [outputOf, ha, hf]
  have ho' : outputOf w directory env args' = none := by simp only [outputOf, ha', hlog']
  have hw : (program w directory env args').workspace = (program w directory env args).workspace := by
    simp only [program, ha, ha', perform, hlog, hlog']
  constructor
  · simp only [program, ha, ha', perform, hlog, hlog']
  · simp only [program, ha, ha', perform, hlog, hlog']
  · simp only [program, ha, ha', perform, hlog, hlog']
  · rw [ho, ho']
  · exact touched_of_eq (ho'.trans ho.symm) hw
  · exact fun l _ => by rw [hw]
  · intro path hpath
    rw [ho] at hpath
    cases hpath

theorem touched_of_differsAt {path : String} {content content' : Bytes}
    (ho : outputOf w directory env args = some path)
    (ho' : outputOf w directory env args' = some path)
    (hd : Workspace.DiffersAt path content content' (program w directory env args).workspace
      (program w directory env args').workspace) :
    touched w directory env args' = touched w directory env args := by
  obtain ⟨target, hlocate, hlocate', hnew, hnew', helse⟩ := hd
  ext l
  simp only [touched, ho, ho', Set.mem_ofPred_eq, Option.some.injEq, exists_eq_left', hlocate,
    hlocate', Except.ok.injEq]
  by_cases hl : target = l
  · simp [hl]
  · rw [helse l (Ne.symm hl)]

theorem sameContent_of_dressed {p : Bool} {n : Nat} (ha : parse env.output args = .ok a)
    (ha' : parse env.output args' = .ok (a.dressed p n)) : SameContent w directory env args args' := by
  cases hc : (configFor w directory a).1 with
  | error f => exact sameContent_of_badConfig ha ha' hc
  | ok config =>
    have hc' : (configFor w directory (a.dressed p n)).1 = .ok config := hc
    obtain ⟨hw, he, hs⟩ := program_of_config ha hc
    obtain ⟨hw', he', hs'⟩ := program_of_config ha' hc'
    have halike := run_alike w (a.settings config) (p || config.pretty.getD false)
    rw [← settings_dressed a p n config] at halike
    have ho : outputOf w directory env args' = outputOf w directory env args := by
      rw [outputOf_of_config ha hc, outputOf_of_config ha' hc', halike.result]
    have hcases : ((program w directory env args').workspace =
          (program w directory env args).workspace ∧ outputOf w directory env args = none) ∨
        ∃ path, outputOf w directory env args = some path ∧ ∃ (m : Manifest) (q q' : Bool),
          Workspace.DiffersAt path (encode (m.render q)) (encode (m.render q'))
            (program w directory env args).workspace
            (program w directory env args').workspace := by
      rw [hw, hw']
      cases hpath : outputOf w directory env args with
      | none =>
        refine .inl ⟨halike.files fun output hwritten => ?_, rfl⟩
        rw [← result_of_outputOf ha hc] at hwritten
        simp [hpath] at hwritten
      | some path =>
        exact .inr ⟨path, rfl, halike.output path ((result_of_outputOf ha hc path).mp hpath)⟩
    refine ⟨?_, ?_, ?_, ho, ?_, ?_, ?_⟩
    · rw [he, he', RunResult.exitCode, RunResult.exitCode, halike.result]
    · rw [hs, hs', halike.console]
    · rw [program_error_of_config ha hc, program_error_of_config ha' hc', halike.result]
      rfl
    · obtain ⟨hsame, -⟩ | ⟨path, hpath, m, q, q', hd⟩ := hcases
      · exact touched_of_eq ho hsame
      · exact touched_of_differsAt hpath (ho.trans hpath) hd
    · intro l hl
      obtain ⟨hsame, -⟩ | ⟨path, hpath, m, q, q', target, hlocate, -, -, -, helse⟩ := hcases
      · rw [hsame]
      · apply helse l
        rintro rfl
        exact hl path hpath hlocate
    · intro path hpath
      obtain ⟨-, hnone⟩ | ⟨path', hpath', m, q, q', target, hlocate, hlocate', hnew, hnew', -⟩ := hcases
      · rw [hnone] at hpath
        cases hpath
      · rw [hpath'] at hpath
        cases hpath
        exact ⟨m.render q, m.render q', m, Workspace.readText_of_locate hlocate hnew,
          Workspace.readText_of_locate hlocate' hnew', Manifest.ofText_render m q,
          Manifest.ofText_render m q'⟩

end Runs

/-- Flags of presentation do not change what the program does: whatever the files are and whatever a
line asks for, `--pretty` may come or go and more messages may be asked for, in any number of places;
with more messages only, nothing but the log can change. -/
theorem presentation_keeps_content (w : Workspace) (directory : String) (env : Environment)
    {args : List String} {a : Arguments} (ha : parse env.output args = .ok a) :
    (∀ args', Relation.ReflTransGen Restyles args args' →
      (∃ a', parse env.output args' = .ok a') ∧ SameContent w directory env args args') ∧
    ∀ args', Relation.ReflTransGen MoreVerbose args args' →
      ∃ log, program w directory env args' = { program w directory env args with log := log } := by
  constructor
  · intro args' h
    obtain ⟨p, n, ha'⟩ := parse_of_restyled ha h
    exact ⟨⟨_, ha'⟩, sameContent_of_dressed ha ha'⟩
  · intro args' h
    obtain ⟨n, ha'⟩ := parse_of_louder ha h
    have hperform : perform w directory (a.dressed a.pretty n) = perform w directory a := rfl
    refine ⟨(program w directory env args').log, ?_⟩
    simp only [program, ha, ha', hperform]

theorem readText_program_twiceFiles {args : List String} {pretty : Bool} {verbosity : Nat}
    (ha : parse none args = .ok ⟨"f.ts", some "out/functions.json", pretty, none, verbosity⟩) :
    outputOf twiceFiles "/" {} args = some "out/functions.json" ∧
      (program twiceFiles "/" {} args).workspace.readText "out/functions.json" =
        .ok (Manifest.render ⟨[twiceRecord]⟩ pretty) := by
  let a : Arguments := ⟨"f.ts", some "out/functions.json", pretty, none, verbosity⟩
  have hc : (configFor twiceFiles "/" a).1 = .ok {} := by
    have hsearch : (Config.search twiceFiles "/").1 = {} := by decide +kernel
    exact congrArg Except.ok hsearch
  have hsettings : a.settings {} = ⟨"f.ts", "out/functions.json", pretty⟩ := by
    simp [a, Arguments.settings, Settings.resolve]
  obtain ⟨hresult, -, hwrites, -⟩ := (allOrNothing_run twiceFiles
    ⟨"f.ts", "out/functions.json", pretty⟩).written _ read_twiceFiles
    (by rw [reportOf_twiceScript]) canWrite_twiceFiles
  rw [reportOf_twiceScript] at hwrites
  refine ⟨(result_of_outputOf ha hc _).mpr (hsettings ▸ hresult), ?_⟩
  rw [(program_of_config ha hc).1, hsettings, Workspace.readText, hwrites.content]
  simp only [ofUtf8?_encode]

/-- The manifest of a marked function is written with and without the flags, in two forms. -/
theorem presentation_keeps_content_of_twiceScript :
    let args := ["-o", "out/functions.json", "f.ts"]
    let args' := ["-vo", "out/functions.json", "--pretty", "f.ts", "--verbose"]
    outputOf twiceFiles "/" {} args = some "out/functions.json" ∧
      (program twiceFiles "/" {} args).workspace.readText "out/functions.json" =
        .ok (Manifest.render ⟨[twiceRecord]⟩ false) ∧
      (program twiceFiles "/" {} args').workspace.readText "out/functions.json" =
        .ok (Manifest.render ⟨[twiceRecord]⟩ true) ∧
      SameContent twiceFiles "/" {} args args' ∧
      ∃ log, program twiceFiles "/" {} ["-vvv", "-o", "out/functions.json", "f.ts"] =
        { program twiceFiles "/" {} args with log := log } := by
  intro args args'
  have ha : parse none args = .ok ⟨"f.ts", some "out/functions.json", false, none, 0⟩ := by
    decide +kernel
  have ha' : parse none args' = .ok ⟨"f.ts", some "out/functions.json", true, none, 2⟩ := by
    decide +kernel
  have h := presentation_keeps_content twiceFiles "/" {} ha
  obtain ⟨houtput, htext⟩ := readText_program_twiceFiles ha
  refine ⟨houtput, htext, (readText_program_twiceFiles ha').2, (h.1 args' ?_).2, h.2 _ ?_⟩
  · have hletter : MoreVerbose args ["-vo", "out/functions.json", "f.ts"] :=
      @MoreVerbose.letter 'o' [] [] ["out/functions.json", "f.ts"] (by decide) (by decide)
    have hpretty : Restyles ["-vo", "out/functions.json", "f.ts"]
        ["-vo", "out/functions.json", "--pretty", "f.ts"] :=
      @Restyles.addPretty ["-vo", "out/functions.json"] ["f.ts"]
        ⟨by decide, fun last h => by cases h; decide⟩ (by decide)
    have hflag : MoreVerbose ["-vo", "out/functions.json", "--pretty", "f.ts"] args' :=
      @MoreVerbose.flag "--verbose" ["-vo", "out/functions.json", "--pretty", "f.ts"] [] (.inl rfl)
        ⟨by decide, fun last h => by cases h; decide⟩
    exact ((Relation.ReflTransGen.single (.verbose hletter)).tail hpretty).tail (.verbose hflag)
  · apply Relation.ReflTransGen.single
    exact @MoreVerbose.flag "-vvv" [] args (.inr ⟨2, rfl⟩) ⟨by decide, fun last h => by cases h⟩

end ScriptManifest
