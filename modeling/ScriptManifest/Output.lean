import ScriptManifest.Failure

/-!
Writing the output file. The directories on the way to it are made first, and they stay if the file
itself cannot be written.
-/

namespace ScriptManifest.Workspace

open Text

def ensureDirectory (w : Workspace) (path : String) : Workspace × Except Failure Unit :=
  if w.pathExists path then (w, .ok ())
  else match makeDirectories (path.length + 1) w path with
    | (w', none) => (w', .ok ())
    | (w', some c) => (w', .error (.fileSystem "Failed to create directory" path c))

def ensureParent (w : Workspace) (path : String) : Workspace × Except Failure Unit :=
  match Path.parent? path with
  | none | some "" => (w, .ok ())
  | some parent => w.ensureDirectory parent

def writeFile (w : Workspace) (path : String) (content : Bytes) : Workspace × Except Failure Unit :=
  match w.ensureParent path with
  | (w', .error f) => (w', .error f)
  | (w', .ok ()) =>
    match w'.write path content with
    | .ok w'' => (w'', .ok ())
    | .error c => (w', .error (.fileSystem "Failed to write output file" path c))

end ScriptManifest.Workspace
