import ScriptManifest.Doc.Block
import ScriptManifest.Doc.ParamTag

/-!
What the documentation blocks of a declaration say about it: whether it is a custom function, its
help address, its description and those of its parameters. Of tags that say the same thing twice
the last one counts.
-/

namespace ScriptManifest.Doc

open Text

def markerName : String := "customfunction"

def helpUrlName : String := "helpurl"

/-- The tags that document a parameter; unlike the others they are case-sensitive. -/
def paramTagNames : List String := ["param", "arg", "argument"]

structure Summary where
  isCustomFunction : Bool := false
  /-- Empty if no help address is given. -/
  helpUrl : String := ""
  /-- The names of documented parameters with their descriptions, in the order of the tags. -/
  parameters : List (String × String) := []
  description : Option String := none
deriving DecidableEq, Repr

/-- A comment without one leading separator and without blanks around it. -/
def cleanDescription (comment : String) : String :=
  String.ofList <| trim <| match comment.toList with
    | '-' :: rest => rest
    | cs => cs

def ParamTag.described (p : ParamTag) : String × String :=
  (p.name, (p.comment.map cleanDescription).getD "")

/-- Reads the documentation blocks of a declaration, in the order of the text. Without a marker they
say nothing. -/
def Summary.ofBlocks (blocks : List Block) : Summary :=
  let tags := blocks.flatMap Block.tags
  if tags.any (·.is markerName) then
    { isCustomFunction := true
      helpUrl := ((tags.filter (·.is helpUrlName)).filterMap Tag.comment?).getLast?.getD ""
      parameters :=
        ((tags.filter (·.name ∈ paramTagNames)).filterMap fun t => ParamTag.parse? t.text).map
          ParamTag.described
      description := blocks.head?.bind Block.comment }
  else {}

/-- The description of a parameter: that of the last tag with its name. -/
def Summary.paramDescription? (s : Summary) (name : String) : Option String :=
  (s.parameters.findRev? (·.1 == name)).map Prod.snd

/-- The documented parameters sorted by name, each with its description. -/
def Summary.paramTable (s : Summary) : List (String × String) :=
  ((s.parameters.map Prod.fst).eraseDups.mergeSort (fun a b => decide (a ≤ b))).filterMap fun n =>
    (s.paramDescription? n).map (n, ·)

end ScriptManifest.Doc
