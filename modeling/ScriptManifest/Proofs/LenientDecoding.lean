import ScriptManifest.Proofs.Utf8Text
import ScriptManifest.Run
import Mathlib.Tactic.SplitIfs

/-!
Reading bytes that may be damaged. A sequence of bytes starts with the encoding of a character, or
with a stretch that is broken off at the byte behind it (`exists_cut`). Such a stretch is the longest
one that starts a character and cannot be completed (`Broken.isDamage`). No stretch reaches over a
byte of ASCII, so the text on either side of one is read by itself (`units_append_ascii`).
-/

namespace ScriptManifest.Text

/-! ### Encodings by their bytes -/

theorem isSecond_iff (a b : UInt8) :
    isSecond a b = true ↔ (0x80 ≤ b.toNat ∧ b.toNat ≤ 0xBF) ∧
      (a.toNat = 0xE0 → 0xA0 ≤ b.toNat) ∧ (a.toNat = 0xED → b.toNat ≤ 0x9F) ∧
      (a.toNat = 0xF0 → 0x90 ≤ b.toNat) ∧ (a.toNat = 0xF4 → b.toNat ≤ 0x8F) := by
  constructor
  · intro h
    unfold isSecond at h
    split at h <;> simp_all [isTail] <;> omega
  · rintro ⟨htail, hE0, hED, hF0, hF4⟩
    exact isSecond_of htail hE0 hED hF0 hF4

theorem isTail_iff (b : UInt8) : isTail b = true ↔ 0x80 ≤ b.toNat ∧ b.toNat ≤ 0xBF := by
  simp [isTail]

theorem width?_one {a : UInt8} (h : a.toNat < 0x80) : width? a = some 1 := by
  simp [width?, h]

theorem toNat_ofNat_char {n : Nat} (h : n.isValidChar) : (Char.ofNat n).toNat = n := by
  rw [Char.ofNat, dif_pos h]
  rfl

inductive Whole : Bytes → Prop
  | one {a : UInt8} (hw : width? a = some 1) : Whole [a]
  | two {a b : UInt8} (hw : width? a = some 2) (hb : isSecond a b = true) : Whole [a, b]
  | three {a b c : UInt8} (hw : width? a = some 3) (hb : isSecond a b = true) (hc : isTail c = true) :
      Whole [a, b, c]
  | four {a b c d : UInt8} (hw : width? a = some 4) (hb : isSecond a b = true)
      (hc : isTail c = true) (hd : isTail d = true) : Whole [a, b, c, d]

theorem width?_bounds {a : UInt8} {w : Nat} (h : width? a = some w) :
    (w = 1 ∧ a.toNat < 0x80) ∨ (w = 2 ∧ 0xC2 ≤ a.toNat ∧ a.toNat ≤ 0xDF) ∨
      (w = 3 ∧ 0xE0 ≤ a.toNat ∧ a.toNat ≤ 0xEF) ∨ (w = 4 ∧ 0xF0 ≤ a.toNat ∧ a.toNat ≤ 0xF4) := by
  simp only [width?, Bool.and_eq_true, decide_eq_true_eq] at h
  split_ifs at h <;> cases h <;> simp [*]

theorem Whole.encodeChar {bytes : Bytes} (h : Whole bytes) :
    Text.encodeChar (Char.ofNat (codePoint bytes)) = bytes := by
  cases h with
  | @one a hw =>
    have ha : a.toNat < 0x80 := by simpa using width?_bounds hw
    have hvalid : (codePoint [a]).isValidChar := by
      simp only [codePoint, Nat.isValidChar]
      omega
    rw [Text.encodeChar, toNat_ofNat_char hvalid, codePoint, if_pos ha, UInt8.ofNat_toNat]
  | @two a b hw hb =>
    have ha : 0xC2 ≤ a.toNat ∧ a.toNat ≤ 0xDF := by simpa using width?_bounds hw
    have hb' := ((isSecond_iff a b).mp hb).1
    have hvalid : (codePoint [a, b]).isValidChar := by
      simp only [codePoint, Nat.isValidChar]
      omega
    rw [Text.encodeChar, toNat_ofNat_char hvalid, codePoint, if_neg (by omega), if_pos (by omega)]
    simp only [List.cons.injEq, ← UInt8.toNat_inj, and_true]
    refine ⟨?_, ?_⟩ <;> rw [toNat_ofNat_byte (by omega)] <;> omega
  | @three a b c hw hb hc =>
    have ha : 0xE0 ≤ a.toNat ∧ a.toNat ≤ 0xEF := by simpa using width?_bounds hw
    obtain ⟨hb', hE0, hED, -, -⟩ := (isSecond_iff a b).mp hb
    have hc' := (isTail_iff c).mp hc
    have hvalid : (codePoint [a, b, c]).isValidChar := by
      simp only [codePoint, Nat.isValidChar]
      omega
    -- an encoding of three bytes has no shorter one
    have hlong : 0x800 ≤ codePoint [a, b, c] := by
      simp only [codePoint]
      omega
    clear hE0 hED
    rw [codePoint] at hlong
    rw [Text.encodeChar, toNat_ofNat_char hvalid, codePoint, if_neg (by omega), if_neg (by omega),
      if_pos (by omega)]
    simp only [List.cons.injEq, ← UInt8.toNat_inj, and_true]
    refine ⟨?_, ?_, ?_⟩ <;> rw [toNat_ofNat_byte (by omega)] <;> omega
  | @four a b c d hw hb hc hd =>
    have ha : 0xF0 ≤ a.toNat ∧ a.toNat ≤ 0xF4 := by simpa using width?_bounds hw
    obtain ⟨hb', -, -, hF0, hF4⟩ := (isSecond_iff a b).mp hb
    have hc' := (isTail_iff c).mp hc
    have hd' := (isTail_iff d).mp hd
    have hlong : 0x10000 ≤ codePoint [a, b, c, d] ∧ codePoint [a, b, c, d] < 0x110000 := by
      simp only [codePoint]
      omega
    clear hF0 hF4
    have hvalid : (codePoint [a, b, c, d]).isValidChar := .inr ⟨by omega, hlong.2⟩
    rw [codePoint] at hlong
    rw [Text.encodeChar, toNat_ofNat_char hvalid, codePoint, if_neg (by omega), if_neg (by omega),
      if_neg (by omega)]
    simp only [List.cons.injEq, ← UInt8.toNat_inj, and_true]
    refine ⟨?_, ?_, ?_, ?_⟩ <;> rw [toNat_ofNat_byte (by omega)] <;> omega

/-! ### Stretches that are broken off -/

/-- Bytes that start no character, or that start one which the next byte, if there is one, does not
continue. -/
inductive Broken : Bytes → Option UInt8 → Prop
  | lead {a : UInt8} {next : Option UInt8} (hw : width? a = none) : Broken [a] next
  | second {a : UInt8} {w : Nat} {next : Option UInt8} (hw : width? a = some w) (hwide : 2 ≤ w)
      (hnext : ∀ b ∈ next, isSecond a b = false) : Broken [a] next
  | third {a b : UInt8} {w : Nat} {next : Option UInt8} (hw : width? a = some w) (hwide : 3 ≤ w)
      (hb : isSecond a b = true) (hnext : ∀ c ∈ next, isTail c = false) : Broken [a, b] next
  | fourth {a b c : UInt8} {w : Nat} {next : Option UInt8} (hw : width? a = some w) (hwide : 4 ≤ w)
      (hb : isSecond a b = true) (hc : isTail c = true) (hnext : ∀ d ∈ next, isTail d = false) :
      Broken [a, b, c] next

theorem Broken.ne_nil {bad : Bytes} {next : Option UInt8} (h : Broken bad next) : bad ≠ [] := by
  cases h <;> exact List.cons_ne_nil _ _

@[simp] theorem units_nil : units [] = [] := rfl

theorem Broken.units {bad rest : Bytes} (h : Broken bad rest.head?) :
    Text.units (bad ++ rest) = none :: Text.units rest := by
  generalize hnext : rest.head? = next at h
  cases h with
  | lead hw => simp [Text.units, hw]
  | @second a w _ hw hwide hbreak =>
    have hwidth : w = 2 ∨ w = 3 ∨ w = 4 := by
      have := width?_bounds hw
      omega
    rw [List.singleton_append, Text.units, hw]
    obtain rfl | rfl | rfl := hwidth <;> cases rest <;> simp_all
  | @third a b w _ hw hwide hb hbreak =>
    have hwidth : w = 3 ∨ w = 4 := by
      have := width?_bounds hw
      omega
    rw [List.cons_append, Text.units, hw]
    obtain rfl | rfl := hwidth <;> cases rest <;> simp_all
  | @fourth a b c w _ hw hwide hb hc hbreak =>
    obtain rfl : w = 4 := by
      have := width?_bounds hw
      omega
    rw [List.cons_append, Text.units, hw]
    cases rest <;> simp_all

theorem exists_cons_of_head? {p : UInt8 → Bool} {bytes : Bytes}
    (h : ¬ ∀ b ∈ bytes.head?, p b = false) : ∃ b bs, bytes = b :: bs ∧ p b = true := by
  cases bytes with
  | nil => simp at h
  | cons b bs => exact ⟨b, bs, rfl, by simpa using h⟩

/-- Bytes start with a whole character or with a broken stretch. -/
theorem exists_cut {bytes : Bytes} (h : bytes ≠ []) :
    (∃ front rest, Whole front ∧ bytes = front ++ rest) ∨
      ∃ bad rest, Broken bad rest.head? ∧ bytes = bad ++ rest := by
  obtain ⟨a, as, rfl⟩ := List.exists_cons_of_ne_nil h
  cases hw : width? a with
  | none => exact .inr ⟨[a], as, .lead hw, rfl⟩
  | some w =>
    by_cases hone : w = 1
    · exact .inl ⟨[a], as, .one (hone ▸ hw), rfl⟩
    have hwidth := width?_bounds hw
    by_cases hsecond : ∀ b ∈ as.head?, isSecond a b = false
    · exact .inr ⟨[a], as, .second hw (by omega) hsecond, rfl⟩
    obtain ⟨b, bs, rfl, hb⟩ := exists_cons_of_head? hsecond
    by_cases htwo : w = 2
    · exact .inl ⟨[a, b], bs, .two (htwo ▸ hw) hb, rfl⟩
    by_cases hthird : ∀ c ∈ bs.head?, isTail c = false
    · exact .inr ⟨[a, b], bs, .third hw (by omega) hb hthird, rfl⟩
    obtain ⟨c, cs, rfl, hc⟩ := exists_cons_of_head? hthird
    by_cases hthree : w = 3
    · exact .inl ⟨[a, b, c], cs, .three (hthree ▸ hw) hb hc, rfl⟩
    by_cases hfourth : ∀ d ∈ cs.head?, isTail d = false
    · exact .inr ⟨[a, b, c], cs, .fourth hw (by omega) hb hc hfourth, rfl⟩
    obtain ⟨d, ds, rfl, hd⟩ := exists_cons_of_head? hfourth
    have hfour : w = 4 := by omega
    exact .inl ⟨[a, b, c, d], ds, .four (hfour ▸ hw) hb hc hd, rfl⟩

theorem cut_induction {motive : Bytes → Prop} (nil : motive [])
    (char : ∀ c rest, motive rest → motive (encodeChar c ++ rest))
    (broken : ∀ bad rest, Broken bad rest.head? → motive rest → motive (bad ++ rest))
    (bytes : Bytes) : motive bytes := by
  induction hlength : bytes.length using Nat.strongRecOn generalizing bytes with
  | _ n ih =>
    subst hlength
    by_cases hempty : bytes = []
    · exact hempty ▸ nil
    obtain ⟨front, rest, hwhole, rfl⟩ | ⟨bad, rest, hbroken, rfl⟩ := exists_cut hempty
    · have hpos : 0 < front.length := by cases hwhole <;> exact Nat.succ_pos _
      have := char (Char.ofNat (codePoint front)) rest
        (ih rest.length (by rw [List.length_append]; omega) rest rfl)
      rwa [hwhole.encodeChar] at this
    · have hpos := List.length_pos_iff.mpr hbroken.ne_nil
      exact broken bad rest hbroken (ih rest.length (by rw [List.length_append]; omega) rest rfl)

/-! ### Bytes of ASCII -/

theorem isTail_ascii {c : UInt8} (h : c.toNat < 0x80) : isTail c = false := by
  rw [Bool.eq_false_iff, Ne, isTail_iff]
  omega

theorem isSecond_ascii {c : UInt8} (h : c.toNat < 0x80) (a : UInt8) : isSecond a c = false := by
  rw [Bool.eq_false_iff, Ne, isSecond_iff]
  omega

theorem Broken.ascii {bad : Bytes} {c : UInt8} (h : Broken bad none) (hc : c.toNat < 0x80) :
    Broken bad (some c) := by
  cases h with
  | lead hw => exact .lead hw
  | second hw hwide => exact .second hw hwide (by simpa using isSecond_ascii hc _)
  | third hw hwide hb => exact .third hw hwide hb (by simpa using isTail_ascii hc)
  | fourth hw hwide hb hc' => exact .fourth hw hwide hb hc' (by simpa using isTail_ascii hc)

theorem units_ascii {c : UInt8} (h : c.toNat < 0x80) (rest : Bytes) :
    units (c :: rest) = some (Char.ofNat c.toNat) :: units rest := by
  rw [units, width?_one h]
  rfl

/-- What stands on either side of a byte of ASCII is read by itself. -/
theorem units_append_ascii {c : UInt8} (hc : c.toNat < 0x80) (a b : Bytes) :
    units (a ++ c :: b) = units a ++ some (Char.ofNat c.toNat) :: units b := by
  induction a using cut_induction with
  | nil => exact units_ascii hc b
  | char ch rest ih => rw [List.append_assoc, units_encodeChar, units_encodeChar, ih, List.cons_append]
  | broken bad rest hbroken ih =>
    have hbroken' : Broken bad (rest ++ c :: b).head? := by
      cases rest with
      | nil => exact hbroken.ascii hc
      | cons d ds => exact hbroken
    rw [List.append_assoc, hbroken.units, hbroken'.units, ih, List.cons_append]

/-! ### Damage -/

/-- Bytes that the encoding of some character starts with. -/
def StartsChar (bytes : Bytes) : Prop := ∃ c, bytes <+: encodeChar c

/-- A stretch of bytes that is damaged, in front of others: no character can be read at its start, and
it is the longest stretch from there that starts a character, or a single byte if none does. -/
structure IsDamage (bad rest : Bytes) : Prop where
  nonempty : bad ≠ []
  noChar : ∀ c, ¬ encodeChar c <+: bad ++ rest
  startsChar : StartsChar bad ∨ bad.length = 1
  longest : ∀ front, front <+: bad ++ rest → StartsChar front → front.length ≤ bad.length

theorem StartsChar.of_whole {front bytes : Bytes} (h : Whole bytes) (hfront : front <+: bytes) :
    StartsChar front :=
  ⟨_, by rwa [h.encodeChar]⟩

theorem startsChar_second {a b : UInt8} {w : Nat} (hw : width? a = some w) (hwide : 2 ≤ w)
    (hb : isSecond a b = true) : StartsChar [a, b] := by
  have htail : isTail 0x80 = true := by decide
  obtain ⟨h, -⟩ | ⟨rfl, -⟩ | ⟨rfl, -⟩ | ⟨rfl, -⟩ := width?_bounds hw
  · omega
  · exact .of_whole (.two hw hb) List.prefix_rfl
  · exact .of_whole (.three hw hb htail) (by simp)
  · exact .of_whole (.four hw hb htail htail) (by simp)

theorem Broken.startsChar {bad : Bytes} {next : Option UInt8} (h : Broken bad next) :
    StartsChar bad ∨ bad.length = 1 := by
  cases h with
  | lead => exact .inr rfl
  | second => exact .inr rfl
  | third hw hwide hb => exact .inl (startsChar_second hw (by omega) hb)
  | @fourth a b c w _ hw hwide hb hc =>
    obtain rfl : w = 4 := by
      have := width?_bounds hw
      omega
    exact .inl (.of_whole (.four hw hb hc (by decide : isTail 0x80 = true)) (by simp))

theorem Broken.ne_encodeChar {bad rest tail : Bytes} {c : Char} (h : Broken bad rest.head?) :
    bad ++ rest ≠ encodeChar c ++ tail := by
  intro heq
  have hunits := h.units
  rw [heq, units_encodeChar] at hunits
  cases hunits

theorem Broken.isDamage {bad rest : Bytes} (h : Broken bad rest.head?) : IsDamage bad rest where
  nonempty := h.ne_nil
  noChar := by
    rintro c ⟨tail, htail⟩
    exact h.ne_encodeChar htail.symm
  startsChar := h.startsChar
  longest := by
    rintro front hfront ⟨c, tail, hc⟩
    refine Nat.le_of_not_lt fun hlonger => ?_
    -- the first byte that the front has more is the one that breaks the stretch
    obtain ⟨more, rfl⟩ : bad <+: front :=
      List.prefix_of_prefix_length_le (List.prefix_append bad rest) hfront (by omega)
    have hmore : more <+: rest := (List.prefix_append_right_inj bad).mp hfront
    obtain ⟨x, xs, rfl⟩ : ∃ x xs, more = x :: xs := by
      cases more with
      | nil => simp at hlonger
      | cons x xs => exact ⟨x, xs, rfl⟩
    obtain ⟨rest', rfl⟩ := hmore
    rw [List.append_assoc] at hc
    exact @Broken.ne_encodeChar bad (x :: xs ++ tail) [] c h (by rw [hc, List.append_nil])

/-- Bytes cut into characters and damage, with `none` for every stretch of damage. -/
inductive Cut : Bytes → List (Option Char) → Prop
  | nil : Cut [] []
  | char (c : Char) {rest : Bytes} {us : List (Option Char)} (h : Cut rest us) :
      Cut (encodeChar c ++ rest) (some c :: us)
  | damage {bad rest : Bytes} {us : List (Option Char)} (hbad : IsDamage bad rest) (h : Cut rest us) :
      Cut (bad ++ rest) (none :: us)

theorem cut_units (bytes : Bytes) : Cut bytes (units bytes) := by
  induction bytes using cut_induction with
  | nil => exact .nil
  | char c rest ih => exact units_encodeChar c rest ▸ .char c ih
  | broken bad rest hbroken ih => exact hbroken.units ▸ .damage hbroken.isDamage ih

theorem isUtf8_iff (bytes : Bytes) : isUtf8 bytes = true ↔ ∃ s, bytes = encode s := by
  constructor
  · intro h
    have hback : bytes = (decodeLenient bytes).flatMap encodeChar := by
      rw [decodeLenient]
      rw [isUtf8] at h
      induction bytes using cut_induction with
      | nil => rfl
      | char c rest ih =>
        rw [units_encodeChar, List.all_cons, Bool.and_eq_true] at h
        rw [units_encodeChar, List.map_cons, List.flatMap_cons, Option.getD_some, ← ih h.2]
      | broken bad rest hbroken ih =>
        rw [hbroken.units, List.all_cons] at h
        cases h
    exact ⟨String.ofList (decodeLenient bytes), by rwa [encode, String.toList_ofList]⟩
  · rintro ⟨s, rfl⟩
    simp [isUtf8, units_encode]

/-! ### Texts -/

theorem encodeChar_eq_utf8EncodeChar (c : Char) : encodeChar c = String.utf8EncodeChar c := by
  have hvalid : c.toNat < 0x110000 := by
    have : c.toNat < 0xD800 ∨ (0xDFFF < c.toNat ∧ c.toNat < 0x110000) := c.valid
    omega
  have hval : c.val.toNat = c.toNat := rfl
  simp only [encodeChar, String.utf8EncodeChar, hval]
  generalize c.toNat = n at hvalid
  by_cases h1 : n < 0x80
  · rw [if_pos h1, if_pos (by omega)]
  by_cases h2 : n < 0x800
  · have hlead : 0xC0 + n / 0x40 = n / 64 % 32 + 192 := by omega
    rw [if_neg h1, if_pos h2, if_neg (by omega), if_pos (by omega), hlead, Nat.add_comm 0x80]
  by_cases h3 : n < 0x10000
  · have hlead : 0xE0 + n / 0x1000 = n / 4096 % 16 + 224 := by omega
    rw [if_neg h1, if_neg h2, if_pos h3, if_neg (by omega), if_neg (by omega), if_pos (by omega), hlead,
      Nat.add_comm 0x80, Nat.add_comm 0x80]
  · have hlead : 0xF0 + n / 0x40000 = n / 262144 % 8 + 240 := by omega
    rw [if_neg h1, if_neg h2, if_neg h3, if_neg (by omega), if_neg (by omega), if_neg (by omega), hlead,
      Nat.add_comm 0x80, Nat.add_comm 0x80, Nat.add_comm 0x80]

theorem encode_eq_toUTF8 (s : String) : encode s = s.toUTF8.data.toList := by
  have hbytes : s.toUTF8 = s.toList.utf8Encode := by
    rw [String.toUTF8_eq_toByteArray, ← String.toByteArray_ofList, String.ofList_toList]
  rw [hbytes, List.utf8Encode, List.toList_data_toByteArray, encode,
    funext encodeChar_eq_utf8EncodeChar]

theorem ofUtf8Lenient_encode (s : String) : ofUtf8Lenient (encode s) = s := by
  simp [ofUtf8Lenient, decodeLenient, units_encode, Function.comp_def]

theorem ofUtf8Lenient_append_ascii {c : UInt8} (hc : c.toNat < 0x80) (a b : Bytes) :
    ofUtf8Lenient (a ++ [c] ++ b) =
      ofUtf8Lenient a ++ String.singleton (Char.ofNat c.toNat) ++ ofUtf8Lenient b := by
  rw [← String.toList_inj]
  simp [ofUtf8Lenient, decodeLenient, units_append_ascii hc]

end ScriptManifest.Text

namespace ScriptManifest

open Text

/-! ### Files -/

theorem target_of_mem_log {d : Documented} {typed : Bool} {entry : Log.Entry}
    (h : entry ∈ d.log typed) : entry.target = analysisTarget := by
  unfold Documented.log at h
  split at h
  · rw [List.mem_singleton.mp h]
    rfl
  · split at h
    · cases h
    · dsimp only at h
      rw [List.mem_append] at h
      obtain h | h := h
      · split at h
        · rw [List.mem_singleton.mp h]
          rfl
        · cases h
      · split at h
        · rw [List.mem_singleton.mp h]
          rfl
        · cases h

theorem replacedEntry_not_mem_extractLog (source path : String) :
    replacedEntry path ∉ extractLog source path := by
  intro h
  rw [extractLog, List.mem_append, List.mem_flatMap] at h
  obtain h | ⟨d, -, hd⟩ := h
  · split at h
    · have htarget : extractorTarget = parserTarget :=
        congrArg Log.Entry.target (List.mem_singleton.mp h)
      exact absurd htarget (by decide)
    · cases h
  · have htarget : extractorTarget = analysisTarget := target_of_mem_log hd
    exact absurd htarget (by decide)

theorem extractFile_of_read {w : Workspace} {path : String} {bytes : Bytes}
    (h : w.read path = .ok bytes) :
    (extractFile w path).1 = .ok (extract (ofUtf8Lenient bytes) path) ∧
      (replacedEntry path ∈ (extractFile w path).2 ↔ isUtf8 bytes = false) := by
  have hlog := replacedEntry_not_mem_extractLog (ofUtf8Lenient bytes) path
  have hread : replacedEntry path ≠ readEntry bytes.length path := by
    intro heq
    cases congrArg Log.Entry.level heq
  rw [extractFile, h]
  refine ⟨rfl, ?_⟩
  dsimp only
  rw [List.mem_append, List.mem_cons, or_iff_left hlog, or_iff_right hread]
  cases isUtf8 bytes <;> simp

theorem extractFile_of_encode {w : Workspace} {path s : String} (h : w.read path = .ok (encode s)) :
    extractFile w path =
      (.ok (extract s path), readEntry (encode s).length path :: extractLog s path) := by
  have hutf8 : isUtf8 (encode s) = true := (isUtf8_iff _).mpr ⟨s, rfl⟩
  simp [extractFile, h, hutf8, ofUtf8Lenient_encode]

/-- A text is read back from its bytes, and so is the report on a file that holds it, with no word of
damage. What is read of any bytes is read back in turn. A byte of ASCII keeps apart what stands on its
two sides, whatever is damaged there. Every stretch of damage is replaced by one character, and the
warning is given if and only if the bytes are those of no text. -/
theorem damage_is_replaced_locally :
    (∀ s : String, encode s = s.toUTF8.data.toList ∧ ofUtf8Lenient (encode s) = s) ∧
    (∀ (w : Workspace) (path s : String), w.read path = .ok (encode s) →
      extractFile w path =
        (.ok (extract s path), readEntry (encode s).length path :: extractLog s path) ∧
      replacedEntry path ∉ (extractFile w path).2) ∧
    (∀ bytes : Bytes, ofUtf8Lenient (encode (ofUtf8Lenient bytes)) = ofUtf8Lenient bytes) ∧
    (∀ (a b : Bytes) (c : UInt8), c.toNat < 0x80 →
      ofUtf8Lenient (a ++ [c] ++ b) =
        ofUtf8Lenient a ++ String.singleton (Char.ofNat c.toNat) ++ ofUtf8Lenient b) ∧
    (∀ bytes : Bytes, ∃ us, Cut bytes us ∧
      ofUtf8Lenient bytes = String.ofList (us.map (·.getD '\uFFFD'))) ∧
    ∀ (w : Workspace) (path : String) (bytes : Bytes), w.read path = .ok bytes →
      (extractFile w path).1 = .ok (extract (ofUtf8Lenient bytes) path) ∧
      (replacedEntry path ∈ (extractFile w path).2 ↔ ∀ s, bytes ≠ encode s) := by
  refine ⟨fun s => ⟨encode_eq_toUTF8 s, ofUtf8Lenient_encode s⟩, ?_, ?_, ?_, ?_, ?_⟩
  · intro w path s h
    refine ⟨extractFile_of_encode h, ?_⟩
    rw [(extractFile_of_read h).2, (isUtf8_iff _).mpr ⟨s, rfl⟩]
    exact Bool.noConfusion
  · exact fun bytes => ofUtf8Lenient_encode (ofUtf8Lenient bytes)
  · exact fun a b c hc => ofUtf8Lenient_append_ascii hc a b
  · exact fun bytes => ⟨units bytes, cut_units bytes, rfl⟩
  · intro w path bytes h
    have hread := extractFile_of_read h
    refine ⟨hread.1, ?_⟩
    rw [hread.2, ← Bool.not_eq_true, isUtf8_iff, not_exists]

/-- Two files, of which the first holds a text and the other one a lone byte in front of a blank, and
the start of a character that a star breaks off. -/
theorem damage_is_replaced_locally_lone_byte :
    let w : Workspace := ⟨⟨[(["a.ts"], .file (encode "/** é */")), (["b.ts"], .file [0x43, 0xE9])]⟩, []⟩
    (extractFile w "a.ts").1 = .ok (extract "/** é */" "a.ts") ∧
    replacedEntry "a.ts" ∉ (extractFile w "a.ts").2 ∧
    (extractFile w "b.ts").1 = .ok (extract "C\uFFFD" "b.ts") ∧
    replacedEntry "b.ts" ∈ (extractFile w "b.ts").2 ∧
    ofUtf8Lenient ([0x43, 0xE9] ++ [0x20] ++ [0xF0, 0x9F, 0x2A]) = "C\uFFFD" ++ " " ++ "\uFFFD*" := by
  intro w
  obtain ⟨-, hwhole, -, hascii, -, hdamaged⟩ := damage_is_replaced_locally
  have hlone : ∀ s, [0x43, 0xE9] ≠ encode s := fun s hs => by
    have hutf8 : isUtf8 [0x43, 0xE9] = true := (isUtf8_iff _).mpr ⟨s, hs⟩
    exact absurd hutf8 (by decide)
  have hb := hdamaged w "b.ts" [0x43, 0xE9] rfl
  have ha := hwhole w "a.ts" "/** é */" rfl
  refine ⟨by rw [ha.1], ha.2, hb.1, hb.2.mpr hlone, ?_⟩
  exact hascii [0x43, 0xE9] [0xF0, 0x9F, 0x2A] 0x20 (by decide)

end ScriptManifest
