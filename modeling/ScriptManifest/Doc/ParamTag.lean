import ScriptManifest.Text.Blank

/-!
The text of a tag that documents a parameter: `{type} name comment`, `name {type} comment`, and the
optional forms `[name]` and `[name=default]` of the name.
-/

namespace ScriptManifest.Doc

open Text

structure ParamTag where
  name : String
  comment : Option String
deriving DecidableEq, Repr

/-- What follows the brace that closes `depth` open braces and one more; nothing if none does. -/
def afterBraces : (depth : Nat) → List Char → List Char
  | _, [] => []
  | depth, '{' :: cs => afterBraces (depth + 1) cs
  | 0, '}' :: cs => trimStart cs
  | depth + 1, '}' :: cs => afterBraces depth cs
  | depth, _ :: cs => afterBraces depth cs

/-- What follows a type expression in braces, if one comes first. One that is never closed takes
all the text. -/
def skipType (cs : List Char) : List Char :=
  match cs with
  | '{' :: rest => afterBraces 0 rest
  | _ => cs

def splitAtFirst (p : Char → Bool) (cs : List Char) : List Char × List Char :=
  (cs.takeWhile (!p ·), cs.dropWhile (!p ·))

/-- The name at the front of a text and what follows it. A name in square brackets ends at the first
closing one, and its default is left out. -/
def nameAndRest? (cs : List Char) : Option (List Char × List Char) :=
  match cs with
  | '[' :: rest =>
    match splitAtFirst (· == ']') rest with
    | (_, []) => none
    | (inner, _ :: after) => some (trim (splitAtFirst (· == '=') inner).1, after)
  | _ => some (splitAtFirst isBlank cs)

/-- Reads the text of a parameter tag; a text without a name is refused. -/
def ParamTag.parse? (text : String) : Option ParamTag :=
  match nameAndRest? (skipType (trimStart text.toList)) with
  | none | some ([], _) => none
  | some (name, rest) =>
    some ⟨String.ofList name, nonempty? (trim (skipType (trimStart rest)))⟩

end ScriptManifest.Doc
