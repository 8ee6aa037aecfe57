/-!
Paths as they are written: segments between slashes. A path is never normalised; asking for its
parent cuts the text after the segment before the last one. Empty segments and later `.` segments
carry no weight, `..` is a segment like any other.
-/

namespace ScriptManifest.Path

/-- The pieces between slashes; a path without a slash is a single segment. -/
def segments : List Char → List (List Char)
  | [] => [[]]
  | c :: cs =>
    if c = '/' then [] :: segments cs
    else match segments cs with
      | [] => [[c]]
      | s :: ss => (c :: s) :: ss

def ofSegments (ss : List (List Char)) : List Char := ['/'].intercalate ss

/-- A segment after the first one that names nothing: an empty one or `.`. -/
def isIdle (s : List Char) : Bool := s == [] || s == ['.']

/-- The path up to the segment before the last one; a root and the empty path have no parent. -/
def parentChars (p : List Char) : Option (List Char) :=
  match segments p with
  | [] => none
  | first :: rest =>
    match rest.reverse.dropWhile isIdle with
    | [] => if first == [] then none else some []
    | _ :: before =>
      match before.dropWhile isIdle with
      | [] => if first == [] then some ['/'] else some first
      | b :: bs => some (ofSegments (first :: (b :: bs).reverse))

def parent? (p : String) : Option String := (parentChars p.toList).map String.ofList

/-- The last segment that carries weight, if it names a file: neither `.` nor `..`. -/
def fileName? (p : String) : Option (List Char) :=
  match segments p.toList with
  | [] => none
  | first :: rest =>
    let last := ((rest.reverse.dropWhile isIdle).head?).getD first
    if isIdle last || last == ['.', '.'] then none else some last

/-- What follows the last dot of the file name, unless that dot is its first character. -/
def extension? (p : String) : Option String :=
  (fileName? p).bind fun name =>
    let tail := name.reverse.takeWhile (· != '.')
    if tail.length + 1 < name.length then some (String.ofList tail.reverse) else none

def join (dir name : String) : String :=
  match dir.toList.getLast? with
  | none | some '/' => dir ++ name
  | some _ => dir ++ "/" ++ name

def isAbsolute (p : String) : Bool := p.toList.head? == some '/'

/-- The path itself, its parent, the parent's parent and so on, at most `bound` of them. -/
def ancestors : (bound : Nat) → (start : String) → List String
  | 0, _ => []
  | n + 1, p => p :: match parent? p with
    | none => []
    | some q => ancestors n q

end ScriptManifest.Path
