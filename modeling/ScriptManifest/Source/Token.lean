import ScriptManifest.Source.Lexeme

/-!
Tokens: the lexemes that are code, each with the comments and the space in front of it. Readers of
signatures look at tokens only, so that layout cannot change what they find; the texts they quote
are spelled with the layout between the tokens.
-/

namespace ScriptManifest.Source

def Lexeme.endsLine (x : Lexeme) : Bool := x.kind == .space && x.text.toList.contains '\n'

/-- A lexeme of code and what stands between it and the token before. -/
structure Token where
  lead : List Lexeme
  kind : LexemeKind
  text : String
deriving DecidableEq, Repr

namespace Token

/-- The tokens of a list of lexemes, `lead` standing in front of the first one. What follows the
last token is dropped. -/
def ofLexemesAfter (lead : List Lexeme) : List Lexeme → List Token
  | [] => []
  | x :: xs =>
    if x.kind.isTrivia then ofLexemesAfter (lead ++ [x]) xs
    else ⟨lead, x.kind, x.text⟩ :: ofLexemesAfter [] xs

def ofLexemes (xs : List Lexeme) : List Token := ofLexemesAfter [] xs

/-- Whether a line ends between a token and the one before it. -/
def startsLine (t : Token) : Bool := t.lead.any fun x => x.text.toList.any isLineBreak

/-- Whether a line ends outside of comments between a token and the one before it. -/
def followsLineEnd (t : Token) : Bool := t.lead.any Lexeme.endsLine

def spelling (t : Token) : String := String.join (t.lead.map Lexeme.text) ++ t.text

def isMark (text : String) (t : Token) : Bool := t.kind == .mark && t.text == text

def isWord (text : String) (t : Token) : Bool := t.kind == .word && t.text == text

def opens (bracket : String) (t : Token) : Bool := t.kind == .opener && t.text == bracket

end Token

/-- The source text of a run of tokens, from the first one's first character to the last one's
last. -/
def spell : List Token → String
  | [] => ""
  | t :: ts => t.text ++ String.join (ts.map Token.spelling)

/-- Cuts a list of tokens behind the closer that ends `depth` open stretches and one more. -/
def splitGroup : (depth : Nat) → List Token → List Token × List Token
  | _, [] => ([], [])
  | depth, t :: ts =>
    match t.kind, depth with
    | .closer, 0 => ([t], ts)
    | .closer, depth + 1 => let r := splitGroup depth ts; (t :: r.1, r.2)
    | .opener, depth => let r := splitGroup (depth + 1) ts; (t :: r.1, r.2)
    | _, depth => let r := splitGroup depth ts; (t :: r.1, r.2)

/-- Cuts the first token off, with the whole stretch if it is an opener. -/
def splitPiece : List Token → List Token × List Token
  | [] => ([], [])
  | t :: ts =>
    if t.kind == .opener then let r := splitGroup 0 ts; (t :: r.1, r.2) else ([t], ts)

def inside (group : List Token) : List Token :=
  match group with
  | [] => []
  | _ :: ts =>
    match ts.getLast? with
    | some t => if t.kind == .closer then ts.dropLast else ts
    | none => []

end ScriptManifest.Source
