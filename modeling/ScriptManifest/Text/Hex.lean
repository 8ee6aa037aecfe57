/-!
Hexadecimal digits.
-/

namespace ScriptManifest.Text

def hexValue? (c : Char) : Option Nat :=
  if '0' ≤ c && c ≤ '9' then some (c.toNat - '0'.toNat)
  else if 'a' ≤ c && c ≤ 'f' then some (c.toNat - 'a'.toNat + 10)
  else if 'A' ≤ c && c ≤ 'F' then some (c.toNat - 'A'.toNat + 10)
  else none

/-- The value of a list of hexadecimal digits, behind digits of the value `start`. -/
def hexNumberFrom? : (start : Nat) → List Char → Option Nat
  | start, [] => some start
  | start, c :: cs =>
    match hexValue? c with
    | some n => hexNumberFrom? (16 * start + n) cs
    | none => none

def hexNumber? (cs : List Char) : Option Nat := hexNumberFrom? 0 cs

end ScriptManifest.Text
