import ScriptManifest.Text.Blank
import ScriptManifest.Text.Word

/-!
Documentation blocks: comments from `/**` to `*/`, read as a leading comment and a list of tags. A
tag starts on a line of its own with `@` and its name; the lines up to the next tag are its text.
`Block.render` writes a block in the conventional layout, with a gutter of stars.
-/

namespace ScriptManifest.Doc

open Text

/-- A tag of a documentation block: its name as written, without the `@`, and its trimmed text. -/
structure Tag where
  name : String
  text : String
deriving DecidableEq, Repr

/-- A documentation block: the text in front of the first tag, if there is any, and the tags. -/
structure Block where
  comment : Option String
  tags : List Tag
deriving DecidableEq, Repr

/-- Lower case for the letters of ASCII; other characters stand for themselves. -/
def foldCase (s : String) : List Char := s.toList.map Char.toLower

/-- Whether a tag has the given name, whatever the case of its ASCII letters. -/
def Tag.is (t : Tag) (name : String) : Bool := foldCase t.name == foldCase name

def Tag.comment? (t : Tag) : Option String := nonempty? t.text.toList

/-- What stands between the delimiters of a documentation comment: it starts with `/**`, but not
with `/**/`, and ends with `*/`. -/
def body? (raw : List Char) : Option (List Char) :=
  match raw with
  | '/' :: '*' :: '*' :: rest => if rest.head? = some '/' then none else stripEnd? ['*', '/'] rest
  | _ => none

def isDoc (raw : String) : Bool := (body? raw.toList).isSome

/-- A line without the blanks around it, one star of the gutter and one blank behind the star. -/
def cleanLine (line : List Char) : List Char :=
  trimEnd <| match trimStart line with
    | '*' :: ' ' :: rest => rest
    | '*' :: rest => rest
    | rest => rest

def isTagStart (c : Char) : Bool := c.isAlpha || c == '_'

def isTagChar (c : Char) : Bool := isWord c || c == '-'

/-- Name and remainder of a line that starts with a tag. -/
def tagLine? (line : List Char) : Option (List Char × List Char) :=
  match line with
  | '@' :: c :: rest =>
    if isTagStart c then some (c :: rest.takeWhile isTagChar, rest.dropWhile isTagChar) else none
  | _ => none

/-- Cleaned lines put in sections: the lines in front of the first tag, and for every tag its name
and its lines. -/
def sections : List (List Char) → List (List Char) × List (List Char × List (List Char))
  | [] => ([], [])
  | line :: rest =>
    let (free, tags) := sections rest
    match tagLine? line with
    | some (name, text) => ([], (name, text :: free) :: tags)
    | none => (line :: free, tags)

def sectionText (ls : List (List Char)) : List Char := trim (joinLines ls)

def Block.ofLines (ls : List (List Char)) : Block :=
  let (free, tags) := sections ls
  { comment := nonempty? (sectionText free)
    tags := tags.map fun t => ⟨String.ofList t.1, String.ofList (sectionText t.2)⟩ }

/-- Reads a comment with its delimiters; a comment that is no documentation block is refused. -/
def Block.parse? (raw : String) : Option Block :=
  (body? raw.toList).map fun body => Block.ofLines ((lines body).map cleanLine)

/-! ### The conventional layout -/

def Tag.renderLines (t : Tag) : List (List Char) :=
  match lines t.text.toList with
  | [] => ['@' :: t.name.toList]
  | first :: rest => ('@' :: t.name.toList ++ ' ' :: first) :: rest

def Block.renderLines (b : Block) : List (List Char) :=
  (b.comment.map fun c => lines c.toList).getD [] ++ b.tags.flatMap Tag.renderLines

/-- A block in the conventional layout: every line behind a gutter of ` * `. -/
def Block.render (b : Block) : String :=
  String.ofList <| '/' :: '*' :: '*' :: '\n' ::
    (b.renderLines.flatMap fun l => ' ' :: '*' :: ' ' :: l ++ ['\n']) ++ [' ', '*', '/']

end ScriptManifest.Doc
