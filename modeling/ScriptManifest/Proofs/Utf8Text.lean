import ScriptManifest.Text.Utf8

/-!
Text as bytes and back. The encoding of a character is one unit, whatever follows it
(`units_encodeChar`), so that the bytes of a text are read as that text (`ofUtf8?_encode`).
-/

namespace ScriptManifest.Text

theorem toNat_ofNat_byte {n : Nat} (h : n < 256) : (UInt8.ofNat n).toNat = n := by
  simp only [UInt8.toNat_ofNat']
  omega

/-! ### Units of two, three and four bytes -/

theorem units_two {a b : UInt8} (hw : width? a = some 2) (hs : isSecond a b = true) (rest : Bytes) :
    units (a :: b :: rest) = some (Char.ofNat (codePoint [a, b])) :: units rest := by
  rw [units]
  simp [hw, hs]

theorem units_three {a b c : UInt8} (hw : width? a = some 3) (hs : isSecond a b = true)
    (hc : isTail c = true) (rest : Bytes) :
    units (a :: b :: c :: rest) = some (Char.ofNat (codePoint [a, b, c])) :: units rest := by
  rw [units]
  simp [hw, hs, hc]

theorem units_four {a b c d : UInt8} (hw : width? a = some 4) (hs : isSecond a b = true)
    (hc : isTail c = true) (hd : isTail d = true) (rest : Bytes) :
    units (a :: b :: c :: d :: rest) = some (Char.ofNat (codePoint [a, b, c, d])) :: units rest := by
  rw [units]
  simp [hw, hs, hc, hd]

theorem isTail_ofNat (n : Nat) : isTail (UInt8.ofNat (0x80 + n % 0x40)) = true := by
  have hb := toNat_ofNat_byte (n := 0x80 + n % 0x40) (by omega)
  simp only [isTail, hb, Bool.and_eq_true, decide_eq_true_eq]
  omega

theorem width?_two {b : UInt8} (h : 0xC2 ≤ b.toNat ∧ b.toNat ≤ 0xDF) : width? b = some 2 := by
  simp only [width?, Bool.and_eq_true, decide_eq_true_eq]
  rw [if_neg (by omega), if_pos h]

theorem width?_three {b : UInt8} (h : 0xE0 ≤ b.toNat ∧ b.toNat ≤ 0xEF) : width? b = some 3 := by
  simp only [width?, Bool.and_eq_true, decide_eq_true_eq]
  rw [if_neg (by omega), if_neg (by omega), if_pos h]

theorem width?_four {b : UInt8} (h : 0xF0 ≤ b.toNat ∧ b.toNat ≤ 0xF4) : width? b = some 4 := by
  simp only [width?, Bool.and_eq_true, decide_eq_true_eq]
  rw [if_neg (by omega), if_neg (by omega), if_neg (by omega), if_pos h]

theorem isSecond_of {a b : UInt8} (htail : 0x80 ≤ b.toNat ∧ b.toNat ≤ 0xBF)
    (hE0 : a.toNat = 0xE0 → 0xA0 ≤ b.toNat) (hED : a.toNat = 0xED → b.toNat ≤ 0x9F)
    (hF0 : a.toNat = 0xF0 → 0x90 ≤ b.toNat) (hF4 : a.toNat = 0xF4 → b.toNat ≤ 0x8F) :
    isSecond a b = true := by
  unfold isSecond
  split <;> simp_all [isTail]

theorem units_of_lt_800 {n : Nat} (h : 0x80 ≤ n) (h' : n < 0x800) (rest : Bytes) :
    units (UInt8.ofNat (0xC0 + n / 0x40) :: UInt8.ofNat (0x80 + n % 0x40) :: rest) =
      some (Char.ofNat n) :: units rest := by
  have ha := toNat_ofNat_byte (n := 0xC0 + n / 0x40) (by omega)
  have hb := toNat_ofNat_byte (n := 0x80 + n % 0x40) (by omega)
  have hwidth : width? (UInt8.ofNat (0xC0 + n / 0x40)) = some 2 := by
    apply width?_two
    omega
  have hsecond : isSecond (UInt8.ofNat (0xC0 + n / 0x40)) (UInt8.ofNat (0x80 + n % 0x40)) = true := by
    apply isSecond_of <;> rw [hb] <;> try rw [ha]
    all_goals omega
  have hpoint : codePoint [UInt8.ofNat (0xC0 + n / 0x40), UInt8.ofNat (0x80 + n % 0x40)] = n := by
    simp only [codePoint, ha, hb]
    omega
  rw [units_two hwidth hsecond, hpoint]

theorem units_of_lt_10000 {n : Nat} (h : 0x800 ≤ n) (h' : n < 0x10000)
    (hvalid : n < 0xD800 ∨ 0xDFFF < n) (rest : Bytes) :
    units (UInt8.ofNat (0xE0 + n / 0x1000) :: UInt8.ofNat (0x80 + n / 0x40 % 0x40) ::
        UInt8.ofNat (0x80 + n % 0x40) :: rest) =
      some (Char.ofNat n) :: units rest := by
  have ha := toNat_ofNat_byte (n := 0xE0 + n / 0x1000) (by omega)
  have hb := toNat_ofNat_byte (n := 0x80 + n / 0x40 % 0x40) (by omega)
  have hc := toNat_ofNat_byte (n := 0x80 + n % 0x40) (by omega)
  have hwidth : width? (UInt8.ofNat (0xE0 + n / 0x1000)) = some 3 := by
    apply width?_three
    omega
  have hsecond : isSecond (UInt8.ofNat (0xE0 + n / 0x1000))
      (UInt8.ofNat (0x80 + n / 0x40 % 0x40)) = true := by
    apply isSecond_of <;> rw [hb] <;> try rw [ha]
    all_goals omega
  have hpoint : codePoint [UInt8.ofNat (0xE0 + n / 0x1000), UInt8.ofNat (0x80 + n / 0x40 % 0x40),
      UInt8.ofNat (0x80 + n % 0x40)] = n := by
    simp only [codePoint, ha, hb, hc]
    omega
  rw [units_three hwidth hsecond (isTail_ofNat n), hpoint]

theorem units_of_lt_110000 {n : Nat} (h : 0x10000 ≤ n) (h' : n < 0x110000) (rest : Bytes) :
    units (UInt8.ofNat (0xF0 + n / 0x40000) :: UInt8.ofNat (0x80 + n / 0x1000 % 0x40) ::
        UInt8.ofNat (0x80 + n / 0x40 % 0x40) :: UInt8.ofNat (0x80 + n % 0x40) :: rest) =
      some (Char.ofNat n) :: units rest := by
  have ha := toNat_ofNat_byte (n := 0xF0 + n / 0x40000) (by omega)
  have hb := toNat_ofNat_byte (n := 0x80 + n / 0x1000 % 0x40) (by omega)
  have hc := toNat_ofNat_byte (n := 0x80 + n / 0x40 % 0x40) (by omega)
  have hd := toNat_ofNat_byte (n := 0x80 + n % 0x40) (by omega)
  have hwidth : width? (UInt8.ofNat (0xF0 + n / 0x40000)) = some 4 := by
    apply width?_four
    omega
  have hsecond : isSecond (UInt8.ofNat (0xF0 + n / 0x40000))
      (UInt8.ofNat (0x80 + n / 0x1000 % 0x40)) = true := by
    apply isSecond_of <;> rw [hb] <;> try rw [ha]
    all_goals omega
  have hpoint : codePoint [UInt8.ofNat (0xF0 + n / 0x40000),
      UInt8.ofNat (0x80 + n / 0x1000 % 0x40), UInt8.ofNat (0x80 + n / 0x40 % 0x40),
      UInt8.ofNat (0x80 + n % 0x40)] = n := by
    simp only [codePoint, ha, hb, hc, hd]
    omega
  rw [units_four hwidth hsecond (isTail_ofNat (n / 0x40)) (isTail_ofNat n), hpoint]

/-! ### The bytes of a text -/

/-- The encoding of a character is one unit, in front of any bytes. -/
theorem units_encodeChar (c : Char) (rest : Bytes) :
    units (encodeChar c ++ rest) = some c :: units rest := by
  -- no character is a surrogate or lies above U+10FFFF
  have hc : c.toNat < 0xD800 ∨ (0xDFFF < c.toNat ∧ c.toNat < 0x110000) := c.valid
  have hback : Char.ofNat c.toNat = c := Char.ofNat_toNat c
  unfold encodeChar
  generalize c.toNat = n at hc hback
  dsimp only
  split
  · next h1 =>
    have ha := toNat_ofNat_byte (n := n) (by omega)
    simp only [List.singleton_append, units, width?, ha, if_pos h1, codePoint, hback]
  · next h1 =>
    split
    · next h2 =>
      rw [← hback]
      exact units_of_lt_800 (by omega) h2 rest
    · next h2 =>
      split
      · next h3 =>
        rw [← hback]
        exact units_of_lt_10000 (by omega) h3 (by omega) rest
      · next h3 =>
        rw [← hback]
        exact units_of_lt_110000 (by omega) (by omega) rest

theorem units_flatMap_encodeChar (cs : List Char) : units (cs.flatMap encodeChar) = cs.map some := by
  induction cs with
  | nil => rfl
  | cons c cs ih => rw [List.flatMap_cons, units_encodeChar, ih, List.map_cons]

theorem units_encode (s : String) : units (encode s) = s.toList.map some :=
  units_flatMap_encodeChar s.toList

theorem ofUtf8?_encode (s : String) : ofUtf8? (encode s) = some s := by
  simp [ofUtf8?, isUtf8, ofUtf8Lenient, decodeLenient, units_encode, Function.comp_def]

end ScriptManifest.Text
