import ScriptManifest.Path
import ScriptManifest.Text.Utf8

/-!
Files as a value: a store of entries by location, and what reading and writing do to it. A location
is the list of names from the root down; a path is text that is followed from a working directory,
segment by segment, through directories that exist.
-/

namespace ScriptManifest

open Text

/-- The names from the root down to an entry. -/
abbrev Location := List String

inductive Entry
  | file (content : Bytes)
  | directory
deriving DecidableEq, Repr

/-- The files and directories below the root, which is always there. -/
structure FileSystem where
  entries : List (Location × Entry) := []
deriving DecidableEq, Repr

inductive Cause
  | notFound
  | alreadyExists
  | notADirectory
  | isADirectory
  | invalidData
deriving DecidableEq, Repr

def Cause.text : Cause → String
  | notFound => "No such file or directory (os error 2)"
  | alreadyExists => "File exists (os error 17)"
  | notADirectory => "Not a directory (os error 20)"
  | isADirectory => "Is a directory (os error 21)"
  | invalidData => "stream did not contain valid UTF-8"

namespace FileSystem

def lookup (fs : FileSystem) (l : Location) : Option Entry :=
  if l = [] then some .directory else fs.entries.lookup l

def insert (fs : FileSystem) (l : Location) (e : Entry) : FileSystem :=
  if (fs.entries.lookup l).isSome then
    ⟨fs.entries.map fun x => if x.1 = l then (l, e) else x⟩
  else ⟨fs.entries ++ [(l, e)]⟩

/-- Where a segment leads from a directory. -/
def enter (fs : FileSystem) (l : Location) (segment : String) : Except Cause Location :=
  match segment with
  | "" | "." => .ok l
  | ".." => .ok l.dropLast
  | name => if (fs.lookup (l ++ [name])).isSome then .ok (l ++ [name]) else .error .notFound

/-- Where a list of segments leads; every one but the last has to lead to a directory. -/
def follow (fs : FileSystem) : Location → List String → Except Cause Location
  | l, [] => .ok l
  | l, s :: ss =>
    if fs.lookup l = some .directory then
      match fs.enter l s with
      | .ok l' => fs.follow l' ss
      | .error c => .error c
    else .error .notADirectory

end FileSystem

structure Workspace where
  files : FileSystem
  directory : Location

namespace Workspace

def start (w : Workspace) (path : String) : Location × List String :=
  let segments := (Path.segments path.toList).map String.ofList
  if Path.isAbsolute path then ([], segments.drop 1) else (w.directory, segments)

def locate (w : Workspace) (path : String) : Except Cause Location :=
  if path.isEmpty then .error .notFound
  else let (l, segments) := w.start path; w.files.follow l segments

def entry (w : Workspace) (path : String) : Except Cause Entry :=
  match w.locate path with
  | .error c => .error c
  | .ok l =>
    match w.files.lookup l with
    | some e => .ok e
    | none => .error .notFound

def pathExists (w : Workspace) (path : String) : Bool :=
  match w.entry path with
  | .ok _ => true
  | .error _ => false

def isDirectory (w : Workspace) (path : String) : Bool :=
  match w.entry path with
  | .ok .directory => true
  | _ => false

def read (w : Workspace) (path : String) : Except Cause Bytes :=
  match w.entry path with
  | .error c => .error c
  | .ok .directory => .error .isADirectory
  | .ok (.file content) => .ok content

def readText (w : Workspace) (path : String) : Except Cause String :=
  match w.read path with
  | .error c => .error c
  | .ok bytes =>
    match ofUtf8? bytes with
    | some s => .ok s
    | none => .error .invalidData

/-- The last segment of a path, slashes behind it aside: the location of the directory that it is
looked up in, the segment, and whether a slash follows it. -/
def lastSegment (w : Workspace) (path : String) : Except Cause (Location × String × Bool) :=
  if path.isEmpty then .error .notFound
  else
    let (l, segments) := w.start path
    let trimmed := segments.reverse.dropWhile (· == "")
    match trimmed with
    | [] => .ok (l, ".", true)
    | last :: front =>
      match w.files.follow l front.reverse with
      | .error c => .error c
      | .ok parent =>
        if w.files.lookup parent = some .directory then
          .ok (parent, last, decide (trimmed.length < segments.length))
        else .error .notADirectory

def isName (segment : String) : Bool := segment != "." && segment != ".."

def makeDirectory (w : Workspace) (path : String) : Except Cause Workspace :=
  match w.lastSegment path with
  | .error c => .error c
  | .ok (parent, name, _) =>
    if !isName name || (w.files.lookup (parent ++ [name])).isSome then .error .alreadyExists
    else .ok { w with files := w.files.insert (parent ++ [name]) .directory }

/-- Makes a directory and those of its ancestors that are missing. Directories that were made before
something fails stay. -/
def makeDirectories : (fuel : Nat) → Workspace → (path : String) → Workspace × Option Cause
  | 0, w, _ => (w, some .notFound)
  | fuel + 1, w, path =>
    if path.isEmpty then (w, none)
    else match w.makeDirectory path with
      | .ok w' => (w', none)
      | .error .notFound =>
        match Path.parent? path with
        | none => (w, some .notFound)
        | some parent =>
          match makeDirectories fuel w parent with
          | (w', some c) => (w', some c)
          | (w', none) =>
            match w'.makeDirectory path with
            | .ok w'' => (w'', none)
            | .error c => (w', if w'.isDirectory path then none else some c)
      | .error c => (w, if w.isDirectory path then none else some c)

/-- Writes a file whose directory is there, in place of what the file held. -/
def write (w : Workspace) (path : String) (content : Bytes) : Except Cause Workspace :=
  match w.lastSegment path with
  | .error c => .error c
  | .ok (parent, name, slash) =>
    if !isName name || slash then .error .isADirectory
    else if w.files.lookup (parent ++ [name]) = some .directory then .error .isADirectory
    else .ok { w with files := w.files.insert (parent ++ [name]) (.file content) }

end Workspace

end ScriptManifest
