/-!
Blank characters and the operations that lean on them: trimming a text at either end, cutting it
into lines and joining lines again. Texts are lists of characters here, so that every operation is
a plain recursion on the text.
-/

namespace ScriptManifest.Text

/-- The characters with the Unicode property `White_Space`. -/
def isBlank (c : Char) : Bool :=
  let n := c.toNat
  (9 ≤ n && n ≤ 13) || n == 0x20 || n == 0x85 || n == 0xA0 || n == 0x1680 ||
    (0x2000 ≤ n && n ≤ 0x200A) || n == 0x2028 || n == 0x2029 || n == 0x202F || n == 0x205F ||
    n == 0x3000

def trimStart (s : List Char) : List Char := s.dropWhile isBlank

def trimEnd (s : List Char) : List Char := (s.reverse.dropWhile isBlank).reverse

def trim (s : List Char) : List Char := trimEnd (trimStart s)

/-- The pieces between line feeds; a text without one is a single line. -/
def lines : List Char → List (List Char)
  | [] => [[]]
  | c :: cs =>
    if c = '\n' then [] :: lines cs
    else match lines cs with
      | [] => [[c]]
      | l :: ls => (c :: l) :: ls

def joinLines (ls : List (List Char)) : List Char := ['\n'].intercalate ls

def nonempty? (s : List Char) : Option String :=
  if s.isEmpty then none else some (String.ofList s)

def stripStart? : (start s : List Char) → Option (List Char)
  | [], s => some s
  | _ :: _, [] => none
  | a :: as, c :: cs => if a = c then stripStart? as cs else none

def stripEnd? (stop s : List Char) : Option (List Char) :=
  (stripStart? stop.reverse s.reverse).map List.reverse

end ScriptManifest.Text
