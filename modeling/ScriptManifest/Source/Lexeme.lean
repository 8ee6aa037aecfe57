import ScriptManifest.Source.Character
import ScriptManifest.Source.Dialect

/-!
Script text cut into lexemes. Every character of the source belongs to exactly one lexeme, comments
and space included, so the lexemes of a source put one after another are the source.

What a character means depends on where it stands: a slash starts a pattern where an operand may
start and divides elsewhere, a brace may end a substitution inside a template, and markup elements
have a text of their own. `Place` is what has to be remembered of the lexemes before: whether an
operand may start, and the brackets that are open.
-/

namespace ScriptManifest.Source

inductive LexemeKind
  | space
  /-- A comment to the end of the line, or between `/*` and `*/`. -/
  | comment
  /-- A `#!` line or a comment in the style of HTML: skipped, but no documentation passes it. -/
  | aside
  | word
  | number
  | text
  | pattern
  /-- Characters of a template, or of markup. -/
  | piece
  | mark
  /-- The start of a bracketed stretch: a bracket, a template or a markup element. -/
  | opener
  | closer
deriving DecidableEq, Repr

structure Lexeme where
  kind : LexemeKind
  text : String
deriving DecidableEq, Repr

def LexemeKind.isTrivia : LexemeKind → Bool
  | space | comment | aside => true
  | _ => false

inductive Frame
  /-- Parentheses, and whether they are the header of `if`, `while`, `for` or `with`. -/
  | paren (header : Bool)
  | bracket
  /-- Braces, and whether they hold statements rather than the fields of a value. -/
  | brace (block : Bool)
  | template
  | substitution
  | tag (closing : Bool)
  | content
  | embedded
deriving DecidableEq, Repr

/-- What the lexemes before decide about the next one. -/
structure Place where
  /-- An operand may start here. -/
  operand : Bool := true
  lineBreak : Bool := false
  /-- The text of the last token and of the one before it. -/
  last : String := ""
  previous : String := ""
  /-- A `case` or `default` waits for its colon. -/
  inCase : Bool := false
  frames : List Frame := []
deriving DecidableEq, Repr

/-! ### How far a lexeme reaches -/

/-- The length of a name at the front; `inEscape` is set inside an escape in braces. -/
def nameLength : (inEscape : Bool) → List Char → Nat
  | _, [] => 0
  | true, c :: cs =>
    if c = '}' then 1 + nameLength false cs
    else if isHexDigit c then 1 + nameLength true cs
    else 0
  | false, '\\' :: 'u' :: '{' :: cs => 3 + nameLength true cs
  | false, '\\' :: 'u' :: cs => 2 + nameLength false cs
  | false, c :: cs => if isNameChar c then 1 + nameLength false cs else 0

/-- The length of a number at the front: letters, digits, dots and underscores, and the sign of a
decimal exponent; `exponent` is set after an `e` that may be followed by a sign. -/
def numberLength (decimal : Bool) : (exponent : Bool) → List Char → Nat
  | _, [] => 0
  | exponent, c :: cs =>
    if c.isAlphanum || c == '_' || c == '.' then
      1 + numberLength decimal (decimal && (c == 'e' || c == 'E')) cs
    else if exponent && (c == '+' || c == '-') then 1 + numberLength decimal false cs
    else 0

def quotedLength (quote : Char) : List Char → Nat
  | [] => 0
  | '\\' :: _ :: cs => 2 + quotedLength quote cs
  | c :: cs =>
    if c = quote then 1
    else if c = '\n' then 0
    else 1 + quotedLength quote cs

/-- The length of a template's characters up to its end or its next substitution. -/
def templateLength : List Char → Nat
  | [] => 0
  | '\\' :: _ :: cs => 2 + templateLength cs
  | '$' :: '{' :: _ => 0
  | c :: cs => if c = '\x60' then 0 else 1 + templateLength cs

/-- The length of a regular expression after its first slash, flags included; `inClass` is set
between square brackets. -/
def patternLength : (inClass : Bool) → List Char → Nat
  | _, [] => 0
  | inClass, '\\' :: _ :: cs => 2 + patternLength inClass cs
  | inClass, c :: cs =>
    if isLineBreak c then 0
    else if inClass then 1 + patternLength (c != ']') cs
    else if c = '/' then 1 + (cs.takeWhile isNameChar).length
    else 1 + patternLength (c == '[') cs

def commentLength : List Char → Nat
  | [] => 0
  | '*' :: '/' :: _ => 2
  | _ :: cs => 1 + commentLength cs

def staysInLine (c : Char) : Bool := !(isLineBreak c || c == '\r')

def occurs (word : List Char) : List Char → Bool
  | [] => word.isEmpty
  | c :: cs => word.isPrefixOf (c :: cs) || occurs word cs

/-- Whether markup starts after a `<` that stands where an operand may start. With type parameters
in the language, `<T, …`, `<T extends …` and `<T = …` open a list of them, and so does `<T>(`
unless `</T` follows somewhere. -/
def startsMarkup (typed : Bool) (afterAngle : List Char) : Bool :=
  match afterAngle.dropWhile isSpace with
  | [] => false
  | c :: cs =>
    if c = '>' then true
    else if !isNameStart c then false
    else if !typed then true
    else
      let name := (c :: cs).takeWhile isNameChar
      match ((c :: cs).dropWhile isNameChar).dropWhile isSpace with
      | ',' :: _ | '=' :: _ => false
      | '>' :: rest =>
        match rest.dropWhile isSpace with
        | '(' :: _ => occurs ('<' :: '/' :: name) rest
        | _ => true
      | rest =>
        let next := rest.takeWhile isNameChar
        if name = "const".toList && !next.isEmpty then false
        else if next = "extends".toList then
          match (rest.dropWhile isNameChar).dropWhile isSpace with
          | '=' :: _ | '>' :: _ | '/' :: _ => true
          | _ => false
        else true

/-- Marks of more than one character, longest first where one starts another. Angle brackets are
always marks of their own. -/
def longMarks : List (List Char) :=
  ["...".toList, "=>".toList, "?.".toList, "??".toList, "++".toList, "--".toList, "&&".toList,
    "||".toList, "==".toList, "!=".toList, "**".toList]

/-- The length of a mark at the front. A dot after a question mark belongs to a number that
follows. -/
def markLength (cs : List Char) : Nat :=
  match cs with
  | '?' :: '.' :: c :: _ => if c.isDigit then 1 else 2
  | _ => ((longMarks.find? (·.isPrefixOf cs)).map List.length).getD 1

def Frame.closing? : Frame → Option Char
  | paren _ => some ')'
  | bracket => some ']'
  | brace _ | substitution | embedded => some '}'
  | template | tag _ | content => none

def Place.nextInCode (d : Dialect) (p : Place) (cs : List Char) : LexemeKind × Nat :=
  match cs with
  | [] => (.mark, 0)
  | '/' :: '/' :: rest => (.comment, 2 + (rest.takeWhile staysInLine).length)
  | '/' :: '*' :: rest => (.comment, 2 + commentLength rest)
  | c :: rest =>
    if isSpace c then (.space, (cs.takeWhile isSpace).length)
    else if p.operand && "<!--".toList.isPrefixOf cs then
      (.aside, (cs.takeWhile staysInLine).length)
    else if (p.operand || p.lineBreak) && "-->".toList.isPrefixOf cs then
      (.aside, (cs.takeWhile staysInLine).length)
    else if isNameStart c || (c = '\\' && rest.head? = some 'u') then (.word, nameLength false cs)
    else if c.isDigit || (c = '.' && rest.head?.any Char.isDigit) then
      (.number, numberLength (rest.head? != some 'x' && rest.head? != some 'X') false cs)
    else if c = '"' || c = '\x27' then (.text, 1 + quotedLength c rest)
    else if c = '\x60' || c = '(' || c = '[' || c = '{' then (.opener, 1)
    else if c = '/' && p.operand then (.pattern, 1 + patternLength false rest)
    else if c = '<' && p.operand && p.last != "<" && d.hasMarkup && startsMarkup d.isTyped rest then
      (.opener, 1)
    else if p.frames.head?.bind Frame.closing? = some c then (.closer, 1)
    else (.mark, markLength cs)

def nextInTemplate : List Char → LexemeKind × Nat
  | '$' :: '{' :: _ => (.opener, 2)
  | cs => if cs.head? = some '\x60' then (.closer, 1) else (.piece, templateLength cs)

/-- The length of type arguments after `depth` opening angle brackets, up to the last closing
one. -/
def angleLength : (depth : Nat) → List Char → Nat
  | 0, _ | _, [] => 0
  | depth + 1, c :: cs =>
    1 + angleLength (if c = '<' then depth + 2 else if c = '>' then depth else depth + 1) cs

def nextInTag (closing : Bool) (cs : List Char) : LexemeKind × Nat :=
  match cs with
  | [] => (.mark, 0)
  | '/' :: '/' :: rest => (.comment, 2 + (rest.takeWhile staysInLine).length)
  | '/' :: '*' :: rest => (.comment, 2 + commentLength rest)
  | '/' :: '>' :: _ => (.closer, 2)
  | '{' :: _ => (.opener, 1)
  | '>' :: _ => (if closing then .closer else .piece, 1)
  | '<' :: rest => (.piece, 1 + angleLength 1 rest)
  | c :: rest =>
    if isSpace c then (.space, (cs.takeWhile isSpace).length)
    else if c = '"' || c = '\x27' then (.text, 2 + (rest.takeWhile (· != c)).length)
    else (.piece, (cs.takeWhile fun c => isNameChar c || c == '-' || c == ':' || c == '.').length)

def nextInContent : List Char → LexemeKind × Nat
  | '{' :: _ => (.opener, 1)
  | '<' :: '/' :: _ => (.piece, 2)
  | '<' :: _ => (.opener, 1)
  | cs => (.piece, (cs.takeWhile fun c => c != '{' && c != '<').length)

def Place.next (d : Dialect) (p : Place) (cs : List Char) : LexemeKind × Nat :=
  match p.frames with
  | .template :: _ => nextInTemplate cs
  | .tag closing :: _ =>
    if cs.head? = some '<' && p.last = "=" then (.opener, 1) else nextInTag closing cs
  | .content :: _ => nextInContent cs
  | _ => p.nextInCode d cs

/-! ### What a lexeme leaves behind -/

def operatorWords : List String :=
  ["return", "typeof", "instanceof", "in", "new", "delete", "void", "throw", "case", "do", "else",
    "await", "yield", "extends", "default"]

/-- Words that join two operands when they follow one. -/
def joiningWords : List String := ["of", "as", "satisfies", "is"]

def headerWords : List String := ["if", "while", "for", "with"]

def memberMarks : List String := [".", "?."]

def Place.operandAfterWord (p : Place) (w : String) : Bool :=
  if p.last ∈ memberMarks then false
  else if w ∈ operatorWords then true
  else w ∈ joiningWords && !p.operand

def Place.opensHeader (p : Place) : Bool :=
  (p.last ∈ headerWords && p.previous ∉ memberMarks) || (p.last = "await" && p.previous = "for")

/-- Whether a `{` opens statements rather than the fields of a value. -/
def Place.opensBlock (p : Place) : Bool :=
  if !p.operand then true
  else p.last ∈ ["", ";", "\x7b", "\x7d", "=>", "else", "do", ")", ">", "void"]

def Place.opened (p : Place) (opener : String) : Frame :=
  match opener with
  | "(" => .paren p.opensHeader
  | "[" => .bracket
  | "\x7b" =>
    match p.frames with
    | .tag _ :: _ | .content :: _ => .embedded
    | _ => .brace p.opensBlock
  | "$\x7b" => .substitution
  | "<" => .tag false
  | _ => .template

def Frame.operandAfter : Frame → Bool
  | .paren header => header
  | .brace block => block
  | _ => false

/-- The frames after a closer: a closing tag also ends the content before it. -/
def closeFrames : List Frame → List Frame
  | .tag true :: .content :: fs => fs
  | _ :: fs => fs
  | [] => []

def Place.afterToken (p : Place) (kind : LexemeKind) (text : String) : Place :=
  let q := { p with lineBreak := false, last := text, previous := p.last }
  match kind with
  | .word =>
    { q with
      operand := p.operandAfterWord text
      inCase := p.inCase || ((text = "case" || text = "default") && p.last ∉ memberMarks) }
  | .opener => { q with operand := true, frames := p.opened text :: p.frames }
  | .closer =>
    { q with operand := p.frames.head?.any Frame.operandAfter, frames := closeFrames p.frames }
  | .piece =>
    match p.frames, text with
    | .tag false :: fs, ">" => { q with frames := .content :: fs }
    | .content :: _, "</" => { q with frames := .tag true :: p.frames }
    | _, _ => q
  | .mark =>
    match text with
    | "++" | "--" | "!" => { q with operand := p.operand || p.lineBreak }
    | ":" =>
      -- after the colon of a case a statement starts, as after a semicolon
      if p.inCase then { q with operand := true, last := ";", inCase := false }
      else { q with operand := true }
    | _ => { q with operand := true }
  | _ => { q with operand := false }

def Place.after (p : Place) (x : Lexeme) : Place :=
  if x.kind.isTrivia then
    { p with lineBreak := p.lineBreak || x.text.toList.any isLineBreak }
  else p.afterToken x.kind x.text

/-- The lexemes of a text, from a place on; `fuel` bounds their number. -/
def lexemesFrom (d : Dialect) : (fuel : Nat) → Place → List Char → List Lexeme
  | 0, _, _ => []
  | _ + 1, _, [] => []
  | fuel + 1, p, cs@(_ :: _) =>
    let (kind, n) := p.next d cs
    let x : Lexeme := ⟨kind, String.ofList (cs.take (max n 1))⟩
    x :: lexemesFrom d fuel (p.after x) (cs.drop (max n 1))

/-- The lexemes of a source text. A first line that starts with `#!` is no code. -/
def lexemes (d : Dialect) (source : String) : List Lexeme :=
  let cs := source.toList
  if "#!".toList.isPrefixOf cs then
    ⟨.aside, String.ofList (cs.takeWhile staysInLine)⟩ ::
      lexemesFrom d cs.length {} (cs.dropWhile staysInLine)
  else lexemesFrom d cs.length {} cs

/-! ### Nothing is lost -/

def charactersOf (xs : List Lexeme) : List Char := xs.flatMap fun x => x.text.toList

theorem charactersOf_cons (x : Lexeme) (xs : List Lexeme) :
    charactersOf (x :: xs) = x.text.toList ++ charactersOf xs :=
  List.flatMap_cons

theorem charactersOf_lexemesFrom (d : Dialect) (fuel : Nat) (p : Place) (cs : List Char)
    (h : cs.length ≤ fuel) : charactersOf (lexemesFrom d fuel p cs) = cs := by
  induction fuel generalizing p cs with
  | zero =>
    have hcs : cs = [] := List.length_eq_zero_iff.mp (by omega)
    subst hcs
    rfl
  | succ fuel ih =>
    cases cs with
    | nil => rfl
    | cons c cs =>
      have hdrop : ∀ n, ((c :: cs).drop (max n 1)).length ≤ fuel := by
        intro n
        simp only [List.length_drop, List.length_cons] at h ⊢
        omega
      rw [lexemesFrom, charactersOf_cons, ih _ _ (hdrop _), String.toList_ofList,
        List.take_append_drop]

/-- The lexemes of a source put one after another are the source. -/
theorem charactersOf_lexemes (d : Dialect) (source : String) :
    charactersOf (lexemes d source) = source.toList := by
  rw [lexemes]
  split
  · have hle := (List.dropWhile_sublist staysInLine (l := source.toList)).length_le
    rw [charactersOf_cons, charactersOf_lexemesFrom d _ _ _ hle, String.toList_ofList,
      List.takeWhile_append_dropWhile]
  · exact charactersOf_lexemesFrom d _ _ _ (Nat.le_refl _)

end ScriptManifest.Source
