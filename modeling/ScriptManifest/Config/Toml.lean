import ScriptManifest.Config
import ScriptManifest.Text.Hex

/-!
Reading a configuration from TOML text. Only the keys `output` and `pretty` are known and no key
may be repeated, so lines of the form `key = value` with a string or a truth value are all that a
configuration can consist of, apart from blank lines and comments.
-/

namespace ScriptManifest.Config

open Text

def isLineBlank (c : Char) : Bool := c == ' ' || c == '\t'

/-- The characters that may stand in a comment: no control character but the tab. -/
def isCommentChar (c : Char) : Bool := c == '\t' || (0x20 ≤ c.toNat && c.toNat != 0x7F)

def skipBlanks (cs : List Char) : List Char := cs.dropWhile isLineBlank

def lineEnd? : List Char → Option (List Char)
  | [] => some []
  | '\n' :: cs => some cs
  | '\r' :: '\n' :: cs => some cs
  | _ => none

def restOfLine? (cs : List Char) : Option (List Char) :=
  match skipBlanks cs with
  | '#' :: rest => lineEnd? (rest.dropWhile isCommentChar)
  | rest => lineEnd? rest

/-! ### Strings -/

def simpleEscape? : Char → Option Char
  | 'b' => some '\x08'
  | 't' => some '\t'
  | 'n' => some '\n'
  | 'f' => some '\x0c'
  | 'r' => some '\r'
  | 'e' => some '\x1b'
  | '"' => some '"'
  | '\\' => some '\\'
  | _ => none

def hexEscape? (count : Nat) (cs : List Char) : Option (Char × List Char) :=
  if (cs.take count).length < count then none
  else match hexNumber? (cs.take count) with
    | some n => if n.isValidChar then some (Char.ofNat n, cs.drop count) else none
    | none => none

def escape? : List Char → Option (Char × List Char)
  | [] => none
  | 'u' :: cs => hexEscape? 4 cs
  | 'U' :: cs => hexEscape? 8 cs
  | 'x' :: cs => hexEscape? 2 cs
  | c :: cs => (simpleEscape? c).map (·, cs)

def consChar (c : Char) (r : Option (List Char × List Char)) : Option (List Char × List Char) :=
  r.map fun (s, rest) => (c :: s, rest)

def basicString? : (fuel : Nat) → List Char → Option (List Char × List Char)
  | 0, _ | _, [] => none
  | fuel + 1, c :: cs =>
    if c = '"' then some ([], cs)
    else if c = '\\' then
      match escape? cs with
      | some (e, rest) => consChar e (basicString? fuel rest)
      | none => none
    else if isCommentChar c then consChar c (basicString? fuel cs)
    else none

def literalString? : List Char → Option (List Char × List Char)
  | [] => none
  | c :: cs =>
    if c = '\x27' then some ([], cs)
    else if isCommentChar c then consChar c (literalString? cs)
    else none

def skipLineEnd : List Char → List Char
  | '\n' :: cs => cs
  | '\r' :: '\n' :: cs => cs
  | cs => cs

def skipBlankLines : List Char → List Char
  | [] => []
  | '\r' :: '\n' :: cs => skipBlankLines cs
  | c :: cs => if isLineBlank c || c == '\n' then skipBlankLines cs else c :: cs

/-- What follows a line end that a backslash takes away together with all blanks up to the next
text. -/
def joinedLine? (cs : List Char) : Option (List Char) :=
  match skipBlanks cs with
  | '\n' :: rest => some (skipBlankLines rest)
  | '\r' :: '\n' :: rest => some (skipBlankLines rest)
  | _ => none

/-- The end of a string of several lines behind three quotes: up to two quotes more belong to the
string. -/
def extraQuotes (quote : Char) (cs : List Char) : List Char × List Char :=
  let n := min 2 (cs.takeWhile (· == quote)).length
  (List.replicate n quote, cs.drop n)

def startsTriple (quote : Char) (cs : List Char) : Bool := [quote, quote, quote].isPrefixOf cs

/-- A basic string of several lines behind its opening quotes, and what follows the closing ones. -/
def longBasicString? : (fuel : Nat) → List Char → Option (List Char × List Char)
  | 0, _ | _, [] => none
  | fuel + 1, c :: cs =>
    if startsTriple '"' (c :: cs) then some (extraQuotes '"' (cs.drop 2))
    else if c = '\\' then
      match joinedLine? cs with
      | some rest => longBasicString? fuel rest
      | none =>
        match escape? cs with
        | some (e, rest) => consChar e (longBasicString? fuel rest)
        | none => none
    else if c = '\n' || isCommentChar c || (c = '\r' && cs.head? = some '\n') then
      consChar c (longBasicString? fuel cs)
    else none

def longLiteralString? : List Char → Option (List Char × List Char)
  | [] => none
  | c :: cs =>
    if startsTriple '\x27' (c :: cs) then some (extraQuotes '\x27' (cs.drop 2))
    else if c = '\n' || isCommentChar c || (c = '\r' && cs.head? = some '\n') then
      consChar c (longLiteralString? cs)
    else none

def string? (cs : List Char) : Option (List Char × List Char) :=
  if startsTriple '"' cs then longBasicString? cs.length (skipLineEnd (cs.drop 3))
  else if startsTriple '\x27' cs then longLiteralString? (skipLineEnd (cs.drop 3))
  else match cs with
    | c :: rest =>
      if c = '"' then basicString? cs.length rest
      else if c = '\x27' then literalString? rest
      else none
    | [] => none

/-! ### Lines -/

def isKeyChar (c : Char) : Bool := c.isAlphanum || c == '_' || c == '-'

def key? (cs : List Char) : Option (List Char × List Char) :=
  match cs with
  | [] => none
  | c :: rest =>
    if c = '"' then basicString? cs.length rest
    else if c = '\x27' then literalString? rest
    else if isKeyChar c then some (cs.takeWhile isKeyChar, cs.dropWhile isKeyChar)
    else none

def afterEquals? (cs : List Char) : Option (List Char) :=
  match skipBlanks cs with
  | '=' :: rest => some (skipBlanks rest)
  | _ => none

def truth? (cs : List Char) : Option (Bool × List Char) :=
  if "true".toList.isPrefixOf cs then some (true, cs.drop 4)
  else if "false".toList.isPrefixOf cs then some (false, cs.drop 5)
  else none

def assign (config : Config) (key : String) (cs : List Char) :
    Except Fault (Config × List Char) :=
  match key with
  | "output" =>
    if config.output.isSome then .error (.repeatedKey key)
    else match string? cs with
      | some (s, rest) => .ok ({ config with output := some (String.ofList s) }, rest)
      | none => .error (.wrongValue key)
  | "pretty" =>
    if config.pretty.isSome then .error (.repeatedKey key)
    else match truth? cs with
      | some (b, rest) => .ok ({ config with pretty := some b }, rest)
      | none => .error (.wrongValue key)
  | _ => .error (.unknownKey key)

/-- Reads the lines of a text into a configuration; `fuel` bounds their number. -/
def ofLines : (fuel : Nat) → Config → List Char → Except Fault Config
  | 0, config, _ => .ok config
  | fuel + 1, config, cs =>
    match restOfLine? cs with
    | some [] => .ok config
    | some rest => ofLines fuel config rest
    | none =>
      match key? (skipBlanks cs) with
      | none => .error .malformed
      | some (key, rest) =>
        match afterEquals? rest with
        | none => .error .malformed
        | some value =>
          match assign config (String.ofList key) value with
          | .error f => .error f
          | .ok (config', rest') =>
            match restOfLine? rest' with
            | none => .error .malformed
            | some rest'' => ofLines fuel config' rest''

/-- The configuration that a text holds. A byte order mark in front is passed over. -/
def ofText (text : String) : Except Fault Config :=
  let cs := text.toList
  let cs := if cs.head? = some '\uFEFF' then cs.drop 1 else cs
  ofLines (cs.length + 1) {} cs

end ScriptManifest.Config
