/-!
Classes of characters in script text.
-/

namespace ScriptManifest.Source

/-- The characters that end a line for the purpose of an omitted semicolon. -/
def isLineBreak (c : Char) : Bool :=
  c == '\n' || c == '\u2028' || c == '\u2029'

/-- The characters that may stand between two lexemes and mean nothing. -/
def isSpace (c : Char) : Bool :=
  let n := c.toNat
  (9 ≤ n && n ≤ 13) || n == 0x20 || n == 0xA0 || n == 0x1680 || (0x2000 ≤ n && n ≤ 0x200B) ||
    n == 0x2028 || n == 0x2029 || n == 0x202F || n == 0x205F || n == 0x2060 || n == 0x3000 ||
    n == 0xFEFF

/-- The printable ASCII characters that stand for themselves and never belong to a name. -/
def isPunctuation (c : Char) : Bool :=
  c ∈ [':', ';', '\x60', '"', '\x27', '@', '#', '.', ',', '|', '^', '&', '<', '=', '>', '+', '-', '*',
    '/', '\\', '%', '?', '!', '~', '(', ')', '[', ']', '{', '}']

/-- The characters a name is made of: everything but control characters, space and punctuation. -/
def isNameChar (c : Char) : Bool :=
  0x20 < c.toNat && !isSpace c && !isPunctuation c

def isNameStart (c : Char) : Bool := isNameChar c && !c.isDigit

def isHexDigit (c : Char) : Bool :=
  c.isDigit || ('a' ≤ c && c ≤ 'f') || ('A' ≤ c && c ≤ 'F')

end ScriptManifest.Source
