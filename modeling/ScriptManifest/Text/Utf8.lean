/-!
UTF-8. Bytes are cut into units: the encoding of a character, or the longest stretch of bytes that
starts one and cannot be completed. A lenient reading replaces every such stretch by U+FFFD, a
strict one refuses the bytes.
-/

namespace ScriptManifest.Text

abbrev Bytes := List UInt8

def encodeChar (c : Char) : Bytes :=
  let n := c.toNat
  if n < 0x80 then [UInt8.ofNat n]
  else if n < 0x800 then [UInt8.ofNat (0xC0 + n / 0x40), UInt8.ofNat (0x80 + n % 0x40)]
  else if n < 0x10000 then
    [UInt8.ofNat (0xE0 + n / 0x1000), UInt8.ofNat (0x80 + n / 0x40 % 0x40),
      UInt8.ofNat (0x80 + n % 0x40)]
  else
    [UInt8.ofNat (0xF0 + n / 0x40000), UInt8.ofNat (0x80 + n / 0x1000 % 0x40),
      UInt8.ofNat (0x80 + n / 0x40 % 0x40), UInt8.ofNat (0x80 + n % 0x40)]

def encode (s : String) : Bytes := s.toList.flatMap encodeChar

/-- The number of bytes that the encoding has if it starts with `b`; none starts with any other
byte. -/
def width? (b : UInt8) : Option Nat :=
  let n := b.toNat
  if n < 0x80 then some 1
  else if 0xC2 ≤ n && n ≤ 0xDF then some 2
  else if 0xE0 ≤ n && n ≤ 0xEF then some 3
  else if 0xF0 ≤ n && n ≤ 0xF4 then some 4
  else none

/-- Whether a byte may follow in any place but the first and, behind some first bytes, the
second. -/
def isTail (b : UInt8) : Bool := 0x80 ≤ b.toNat && b.toNat ≤ 0xBF

/-- Whether `b` may follow the first byte `lead`: no character has a longer encoding than it needs,
and none is a surrogate or above U+10FFFF. -/
def isSecond (lead b : UInt8) : Bool :=
  let n := b.toNat
  match lead.toNat with
  | 0xE0 => 0xA0 ≤ n && n ≤ 0xBF
  | 0xED => 0x80 ≤ n && n ≤ 0x9F
  | 0xF0 => 0x90 ≤ n && n ≤ 0xBF
  | 0xF4 => 0x80 ≤ n && n ≤ 0x8F
  | _ => isTail b

def codePoint : Bytes → Nat
  | [a] => a.toNat
  | [a, b] => a.toNat % 0x20 * 0x40 + b.toNat % 0x40
  | [a, b, c] => a.toNat % 0x10 * 0x1000 + b.toNat % 0x40 * 0x40 + c.toNat % 0x40
  | [a, b, c, d] =>
    a.toNat % 0x08 * 0x40000 + b.toNat % 0x40 * 0x1000 + c.toNat % 0x40 * 0x40 + d.toNat % 0x40
  | _ => 0

/-- The units of a sequence of bytes: characters, and `none` for every stretch that is none. -/
def units : Bytes → List (Option Char)
  | [] => []
  | a :: as =>
    match width? a with
    | none => none :: units as
    | some 1 => some (Char.ofNat (codePoint [a])) :: units as
    | some w =>
      match as with
      | [] => [none]
      | b :: bs =>
        if !isSecond a b then none :: units (b :: bs)
        else if w = 2 then some (Char.ofNat (codePoint [a, b])) :: units bs
        else match bs with
          | [] => [none]
          | c :: cs =>
            if !isTail c then none :: units (c :: cs)
            else if w = 3 then some (Char.ofNat (codePoint [a, b, c])) :: units cs
            else match cs with
              | [] => [none]
              | d :: ds =>
                if !isTail d then none :: units (d :: ds)
                else some (Char.ofNat (codePoint [a, b, c, d])) :: units ds

def isUtf8 (bytes : Bytes) : Bool := (units bytes).all Option.isSome

/-- The characters of a sequence of bytes, U+FFFD standing for what is none. -/
def decodeLenient (bytes : Bytes) : List Char := (units bytes).map (·.getD '\uFFFD')

def ofUtf8Lenient (bytes : Bytes) : String := String.ofList (decodeLenient bytes)

def ofUtf8? (bytes : Bytes) : Option String :=
  if isUtf8 bytes then some (ofUtf8Lenient bytes) else none

end ScriptManifest.Text
