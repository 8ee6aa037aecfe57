import ScriptManifest.Proofs.Writability
import ScriptManifest.Session

/-!
A run is all or nothing. Unless the report is without errors no file is touched; if it is, and the
output can be written (`Workspace.canWrite_iff` says when), the output holds the manifest and the only
other changes are directories on the way to it. The status, the exit code and the console go with
what happened to the files.
-/

namespace ScriptManifest

open Text

def RunResult.exitCode (o : RunResult) : Nat :=
  match o.result with
  | .ok status => status.exitCode
  | .error _ => fatalExitCode

/-- The lines that the console shows, each with its line feed. -/
def consoleText (lines : List String) : String := String.join (lines.map (· ++ "\n"))

/-- What the script at a path is reported as, once it has been read. -/
def reportOf (bytes : Bytes) (path : String) : Report := extract (ofUtf8Lenient bytes) path

/-- What a run leaves behind is decided by its report. -/
structure AllOrNothing (w : Workspace) (s : Settings) (o : RunResult) : Prop where
  /-- An input that cannot be read leaves everything as it was. -/
  unreadable : ∀ c, w.read s.input = .error c →
    o.workspace = w ∧ o.exitCode = 2 ∧ o.console = "" ∧
      o.result = .error (.fileSystem "Failed to read source file" s.input c)
  /-- A report with an error leaves everything as it was and is shown in full. -/
  failed : ∀ bytes, w.read s.input = .ok bytes → (reportOf bytes s.input).errors ≠ [] →
    o.workspace = w ∧ o.result = .ok .failed ∧ o.exitCode = 1 ∧
      o.console = consoleText
        (("There was one of more errors. We couldn't parse your file: " ++ s.input) ::
          (reportOf bytes s.input).errors)
  /-- A report without errors is written, if the output can be. -/
  written : ∀ bytes, w.read s.input = .ok bytes → (reportOf bytes s.input).errors = [] →
    w.CanWrite s.output →
    o.result = .ok (.written s.output) ∧ o.exitCode = 0 ∧
      w.Writes o.workspace s.output
        (encode (Manifest.render ⟨(reportOf bytes s.input).functions⟩ s.pretty)) ∧
      o.console = consoleText
        (("functions.json created for file: " ++ s.input) ::
          if (reportOf bytes s.input).skipped = [] then []
          else "The following functions were skipped." :: (reportOf bytes s.input).skipped)

/-! ### The branches of a run -/

theorem run_of_unreadable {w : Workspace} {s : Settings} {c : Cause}
    (h : w.read s.input = .error c) :
    run w s =
      { workspace := w
        result := .error (.fileSystem "Failed to read source file" s.input c)
        console := ""
        log := [] } := by
  simp [run, extractFile, h]

theorem run_eq_finish {w : Workspace} {s : Settings} {bytes : Bytes}
    (h : w.read s.input = .ok bytes) :
    (run w s).workspace = (finish w s (reportOf bytes s.input)).workspace ∧
      (run w s).result = (finish w s (reportOf bytes s.input)).result ∧
      (run w s).console = (finish w s (reportOf bytes s.input)).console := by
  simp [run, extractFile, h, reportOf]

theorem exitCode_of_result {o : RunResult} {status : Status} (h : o.result = .ok status) :
    o.exitCode = status.exitCode := by
  simp [RunResult.exitCode, h]

theorem manifest?_of_errors {r : Report} (h : r.errors ≠ []) : r.manifest? = none := by
  simp [Report.manifest?, Report.isSuccess, h]

theorem manifest?_of_success {r : Report} (h : r.errors = []) : r.manifest? = some ⟨r.functions⟩ := by
  simp [Report.manifest?, Report.isSuccess, h]

theorem console_of_errors {r : Report} (h : r.errors ≠ []) (path : String) :
    r.console path = consoleText
      (("There was one of more errors. We couldn't parse your file: " ++ path) :: r.errors) := by
  simp [Report.console, Report.consoleLines, Report.isSuccess, h, consoleText]

theorem console_of_success {r : Report} (h : r.errors = []) (path : String) :
    r.console path = consoleText
      (("functions.json created for file: " ++ path) ::
        if r.skipped = [] then [] else "The following functions were skipped." :: r.skipped) := by
  simp [Report.console, Report.consoleLines, Report.isSuccess, h, consoleText]

theorem finish_of_errors (w : Workspace) (s : Settings) {r : Report} (h : r.errors ≠ []) :
    (finish w s r).workspace = w ∧ (finish w s r).result = .ok .failed ∧
      (finish w s r).console = r.console s.input := by
  simp [finish, manifest?_of_errors h]

theorem finish_of_success {w : Workspace} {s : Settings} {r : Report} (h : r.errors = [])
    (hw : w.CanWrite s.output) :
    (finish w s r).workspace =
        (w.writeFile s.output (encode (Manifest.render ⟨r.functions⟩ s.pretty))).1 ∧
      (finish w s r).result = .ok (.written s.output) ∧
      (finish w s r).console = r.console s.input := by
  have hok := hw.writeFile (encode (Manifest.render ⟨r.functions⟩ s.pretty))
  simp only [finish, manifest?_of_success h]
  split
  · next w' f heq => simp [heq] at hok
  · next w' heq => simp [heq]

theorem allOrNothing_run (w : Workspace) (s : Settings) : AllOrNothing w s (run w s) where
  unreadable c hc := by
    rw [run_of_unreadable hc]
    exact ⟨rfl, rfl, rfl, rfl⟩
  failed bytes hb he := by
    obtain ⟨hw, hr, hc⟩ := run_eq_finish hb
    obtain ⟨hw', hr', hc'⟩ := finish_of_errors w s he
    have hresult := hr.trans hr'
    exact ⟨hw.trans hw', hresult, exitCode_of_result hresult,
      (hc.trans hc').trans (console_of_errors he s.input)⟩
  written bytes hb he hcan := by
    obtain ⟨hw, hr, hc⟩ := run_eq_finish hb
    obtain ⟨hw', hr', hc'⟩ := finish_of_success he hcan
    have hresult := hr.trans hr'
    refine ⟨hresult, exitCode_of_result hresult, ?_,
      (hc.trans hc').trans (console_of_success he s.input)⟩
    rw [hw, hw']
    exact Workspace.writes_of_writeFile (hcan.writeFile _)

/-! ### The program -/

/-- A configuration file that cannot be read, or whose text is no configuration. -/
def BadConfig (w : Workspace) (path : String) : Prop :=
  (∃ c, w.readText path = .error c) ∨
    ∃ text fault, w.readText path = .ok text ∧ Config.ofText text = .error fault

theorem load_of_badConfig {w : Workspace} {path : String} (h : BadConfig w path) :
    ∃ f log, Config.load w path = (.error f, log) := by
  obtain ⟨c, hc⟩ | ⟨text, fault, ht, hf⟩ := h
  · exact ⟨.fileSystem "Failed to read config file" path c, [], by simp [Config.load, hc]⟩
  · exact ⟨.configuration path fault.message, [], by simp [Config.load, ht, hf]⟩

theorem program_of_badConfig {w : Workspace} (directory : String) {env : Environment}
    {args : List String} {a : CommandLine.Arguments} {path : String}
    (ha : CommandLine.parse env.output args = .ok a) (hp : a.config = some path)
    (hbad : BadConfig w path) :
    (program w directory env args).workspace = w ∧
      (program w directory env args).exitCode = 2 ∧
      (program w directory env args).console = "" := by
  obtain ⟨f, log, hload⟩ := load_of_badConfig hbad
  simp [program, ha, perform, configFor, hp, hload, fatalExitCode]

theorem program_of_config {w : Workspace} {directory : String} {env : Environment}
    {args : List String} {a : CommandLine.Arguments} {config : Config}
    (ha : CommandLine.parse env.output args = .ok a)
    (hc : (configFor w directory a).1 = .ok config) :
    (program w directory env args).workspace = (run w (a.settings config)).workspace ∧
      (program w directory env args).exitCode = (run w (a.settings config)).exitCode ∧
      (program w directory env args).console = (run w (a.settings config)).console := by
  obtain ⟨log, hlog⟩ : ∃ log, configFor w directory a = (.ok config, log) := ⟨_, by rw [← hc]⟩
  simp only [program, ha, perform, hlog, RunResult.exitCode]
  cases (run w (a.settings config)).result with
  | ok status => exact ⟨rfl, rfl, rfl⟩
  | error f => exact ⟨rfl, rfl, rfl⟩

/-- Whatever the files are, a run either leaves them as they were or writes the whole manifest; the
program carries out that run, unless the configuration it was asked to use is no good, which changes
nothing. -/
theorem run_is_all_or_nothing (w : Workspace) :
    (∀ s, AllOrNothing w s (run w s)) ∧
      ∀ directory env args a, CommandLine.parse env.output args = .ok a →
        (∀ path, a.config = some path → BadConfig w path →
          (program w directory env args).workspace = w ∧
            (program w directory env args).exitCode = 2 ∧
            (program w directory env args).console = "") ∧
        ∀ config, (configFor w directory a).1 = .ok config →
          (program w directory env args).workspace = (run w (a.settings config)).workspace ∧
            (program w directory env args).exitCode = (run w (a.settings config)).exitCode ∧
            (program w directory env args).console = (run w (a.settings config)).console := by
  refine ⟨allOrNothing_run w, fun directory env args a ha => ⟨?_, ?_⟩⟩
  · exact fun path hp hbad => program_of_badConfig directory ha hp hbad
  · exact fun config hc => program_of_config ha hc

def twiceScript : String :=
  "/** Doubles.\n@customfunction */\nfunction twice(n: number): number \x7b\x7d"

def twiceRecord : Manifest.FunctionRecord where
  name := "twice"
  id := "twice"
  helpUrl := ""
  description := some "Doubles."
  parameters := [⟨"n", none, ⟨.number, .scalar⟩⟩]
  result := ⟨.number, .scalar⟩
  options := {}

theorem reportOf_twiceScript :
    reportOf (encode twiceScript) "f.ts" = ⟨[twiceRecord], [], []⟩ := by
  decide +kernel

def twiceFiles : Workspace := ⟨⟨[(["f.ts"], .file (encode twiceScript))]⟩, []⟩

theorem read_twiceFiles : twiceFiles.read "f.ts" = .ok (encode twiceScript) :=
  Workspace.read_of_locate (l := ["f.ts"]) (by decide) rfl

theorem isSound_twiceFiles : twiceFiles.IsSound :=
  ⟨FileSystem.isTree_of_entries (by decide), rfl⟩

theorem canWrite_twiceFiles : twiceFiles.CanWrite "out/functions.json" := by
  refine (Workspace.canWrite_iff isSound_twiceFiles _).mpr
    ⟨["out"], "functions.json", by decide, by decide, by decide, by decide⟩

/-- The manifest of the script is written into a directory that is made for it. -/
theorem run_is_all_or_nothing_twiceScript :
    let s : Settings := ⟨"f.ts", "out/functions.json", false⟩
    twiceFiles.files.lookup ["out"] = none ∧ twiceFiles.CanWrite s.output ∧
      (run twiceFiles s).result = .ok (.written "out/functions.json") ∧
      (run twiceFiles s).exitCode = 0 ∧
      (run twiceFiles s).console = "functions.json created for file: f.ts\n" ∧
      (run twiceFiles s).workspace.read s.output =
        .ok (encode (Manifest.render ⟨[twiceRecord]⟩ false)) := by
  intro s
  have hrun := (run_is_all_or_nothing twiceFiles).1 s
  obtain ⟨hresult, hcode, hwrites, hconsole⟩ :=
    hrun.written _ read_twiceFiles (by rw [reportOf_twiceScript]) canWrite_twiceFiles
  rw [reportOf_twiceScript] at hwrites hconsole
  refine ⟨by decide, canWrite_twiceFiles, hresult, hcode, ?_, hwrites.content⟩
  rw [hconsole]
  decide

end ScriptManifest
