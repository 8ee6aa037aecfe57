import ScriptManifest.Session

/-!
The command line program: it takes a picture of the files that a run can look at, lets the run
happen on that picture, and carries out what has changed in it.
-/

namespace ScriptManifest.Main

open Text

def pathOf (l : Location) : String := "/" ++ "/".intercalate l

def look (fs : FileSystem) (l : Location) : IO FileSystem := do
  let path := System.mkFilePath [pathOf l]
  if l.isEmpty then return fs
  else if ← path.isDir then return fs.insert l .directory
  else if ← path.pathExists then return fs.insert l (.file (← IO.FS.readBinFile path).toList)
  else return fs

def lookAlong (fs : FileSystem) (l : Location) : List String → IO FileSystem
  | [] => return fs
  | s :: ss => do
    let next := match s with
      | "" | "." => l
      | ".." => l.dropLast
      | name => l ++ [name]
    lookAlong (← look fs next) next ss

def pathsOf (directory : String) (args : CommandLine.Arguments) : List String :=
  [args.input] ++ args.config.toList ++ Config.searchPaths directory

def lookAtPaths (w : Workspace) (paths : List String) : IO Workspace :=
  paths.foldlM (fun w path => do
    let (l, segments) := w.start path
    return { w with files := ← lookAlong w.files l segments }) w

/-- Carries out what has changed between two pictures. -/
def apply (before after : FileSystem) : IO Unit :=
  after.entries.forM fun (l, e) => do
    if before.lookup l != some e then
      match e with
      | .directory => IO.FS.createDirAll (pathOf l)
      | .file content => IO.FS.writeBinFile (pathOf l) ⟨content.toArray⟩

end ScriptManifest.Main

open ScriptManifest in
def main (args : List String) : IO UInt32 := do
  let directory := (← IO.currentDir).toString
  let env : Environment :=
    { output := ← IO.getEnv "CFMETA_OUTPUT", logFilter := ← IO.getEnv "RUST_LOG" }
  let here : Workspace := ⟨{}, ((Path.segments directory.toList).map String.ofList).drop 1⟩
  let w ← match CommandLine.parse env.output args with
    | .error _ => pure here
    | .ok a =>
      let w ← Main.lookAtPaths here ("." :: Main.pathsOf directory a)
      let config := ((configFor w directory a).1.toOption).getD {}
      Main.lookAtPaths w [(a.settings config).output]
  let e := program w directory env args
  Main.apply w.files e.workspace.files
  for entry in e.log do
    IO.eprintln entry.line
  IO.print e.console
  match e.error with
  | some line => IO.eprintln line
  | none => pure ()
  return e.exitCode.toUInt32
