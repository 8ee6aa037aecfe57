import ScriptManifest.Text.Hex

/-!
JSON text cut into tokens. What cannot be a token ends the list with the fault it is, so that a
reader meets the fault only if it comes that far.
-/

namespace ScriptManifest.Manifest

inductive Fault
  | syntactic
  | ended
  /-- A value is of the wrong kind, a field is missing or repeated, or a word is unknown. -/
  | data
deriving DecidableEq, Repr

inductive JsonToken
  | openBrace
  | closeBrace
  | openBracket
  | closeBracket
  | colon
  | comma
  | null
  | bool (value : Bool)
  | number
  /-- A quoted text; `none` if its escapes do not spell one. -/
  | text (value : Option String)
  /-- A quoted text that is broken off. -/
  | brokenText (fault : Fault)
  /-- Anything else that is no token. -/
  | broken (fault : Fault)
deriving DecidableEq, Repr

def isJsonBlank (c : Char) : Bool := c == ' ' || c == '\n' || c == '\r' || c == '\t'

/-- A unit of a quoted text: a character, or the number of an escape with four digits. -/
inductive TextUnit
  | char (c : Char)
  | code (n : Nat)
deriving DecidableEq, Repr

def simpleEscape? : Char → Option Char
  | '"' => some '"'
  | '\\' => some '\\'
  | '/' => some '/'
  | 'b' => some '\x08'
  | 'f' => some '\x0c'
  | 'n' => some '\n'
  | 'r' => some '\r'
  | 't' => some '\t'
  | _ => none

def consUnit (u : TextUnit) :
    Except Fault (List TextUnit × List Char) → Except Fault (List TextUnit × List Char)
  | .ok (us, rest) => .ok (u :: us, rest)
  | .error f => .error f

/-- The units of a quoted text behind its opening quote, and what follows the closing one. -/
def scanUnits : List Char → Except Fault (List TextUnit × List Char)
  | [] => .error .ended
  | '"' :: rest => .ok ([], rest)
  | ['\\'] => .error .ended
  | '\\' :: 'u' :: a :: b :: c :: d :: rest =>
    match Text.hexNumber? [a, b, c, d] with
    | some n => consUnit (.code n) (scanUnits rest)
    | none => .error .syntactic
  | '\\' :: 'u' :: _ => .error .ended
  | '\\' :: e :: rest =>
    match simpleEscape? e with
    | some c => consUnit (.char c) (scanUnits rest)
    | none => .error .syntactic
  | c :: rest => if c.toNat < 0x20 then .error .syntactic else consUnit (.char c) (scanUnits rest)

def isLeadSurrogate (n : Nat) : Bool := 0xD800 ≤ n && n ≤ 0xDBFF

def isTrailSurrogate (n : Nat) : Bool := 0xDC00 ≤ n && n ≤ 0xDFFF

/-- The characters of a list of units: a surrogate counts only as half of a pair. -/
def decodeUnits : List TextUnit → Option (List Char)
  | [] => some []
  | .char c :: us => (decodeUnits us).map (c :: ·)
  | .code n :: .code m :: us =>
    if isLeadSurrogate n then
      if isTrailSurrogate m then
        (decodeUnits us).map (Char.ofNat (0x10000 + (n - 0xD800) * 0x400 + (m - 0xDC00)) :: ·)
      else none
    else if isTrailSurrogate n then none
    else (decodeUnits (.code m :: us)).map (Char.ofNat n :: ·)
  | .code n :: us =>
    if isLeadSurrogate n || isTrailSurrogate n then none
    else (decodeUnits us).map (Char.ofNat n :: ·)

def scanDigits : List Char → Except Fault (List Char)
  | [] => .error .ended
  | c :: cs => if c.isDigit then .ok (cs.dropWhile Char.isDigit) else .error .syntactic

def scanExponent (cs : List Char) : Except Fault (List Char) :=
  match cs with
  | e :: rest =>
    if e = 'e' || e = 'E' then
      match rest with
      | s :: digits => if s = '+' || s = '-' then scanDigits digits else scanDigits rest
      | [] => .error .ended
    else .ok cs
  | [] => .ok []

def scanFraction (cs : List Char) : Except Fault (List Char) :=
  match cs with
  | '.' :: rest =>
    match scanDigits rest with
    | .ok rest' => scanExponent rest'
    | .error f => .error f
  | _ => scanExponent cs

/-- What follows a number: no digit comes after a leading zero. -/
def scanNumber (cs : List Char) : Except Fault (List Char) :=
  let digits := match cs with
    | '-' :: rest => rest
    | _ => cs
  match digits with
  | '0' :: rest => if rest.head?.any Char.isDigit then .error .syntactic else scanFraction rest
  | _ =>
    match scanDigits digits with
    | .ok rest => scanFraction rest
    | .error f => .error f

def scanWord : (word : List Char) → List Char → Except Fault (List Char)
  | [], cs => .ok cs
  | _ :: _, [] => .error .ended
  | w :: ws, c :: cs => if w = c then scanWord ws cs else .error .syntactic

/-- The first token of a text that starts with no blank, and what follows it; nothing follows a
fault. -/
def scanToken (c : Char) (cs : List Char) : JsonToken × List Char :=
  let after (t : JsonToken) (r : Except Fault (List Char)) : JsonToken × List Char :=
    match r with
    | .ok rest => (t, rest)
    | .error f => (.broken f, [])
  match c with
  | '{' => (.openBrace, cs)
  | '}' => (.closeBrace, cs)
  | '[' => (.openBracket, cs)
  | ']' => (.closeBracket, cs)
  | ':' => (.colon, cs)
  | ',' => (.comma, cs)
  | '"' =>
    match scanUnits cs with
    | .ok (us, rest) => (.text ((decodeUnits us).map String.ofList), rest)
    | .error f => (.brokenText f, [])
  | 'n' => after .null (scanWord "ull".toList cs)
  | 't' => after (.bool true) (scanWord "rue".toList cs)
  | 'f' => after (.bool false) (scanWord "alse".toList cs)
  | _ =>
    if c = '-' || c.isDigit then after .number (scanNumber (c :: cs)) else (.broken .syntactic, [])

/-- The tokens of a text; `fuel` bounds their number. -/
def jsonTokensFrom : (fuel : Nat) → List Char → List JsonToken
  | 0, _ => []
  | fuel + 1, cs =>
    match cs.dropWhile isJsonBlank with
    | [] => []
    | c :: rest =>
      let (t, rest') := scanToken c rest
      t :: jsonTokensFrom fuel rest'

def jsonTokens (s : String) : List JsonToken := jsonTokensFrom (s.toList.length + 1) s.toList

end ScriptManifest.Manifest
