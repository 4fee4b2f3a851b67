import CrowdPad.Data.Utf8

/-! Text as bytes and back. The bytes of a character are the one shortest form in which it is read, so
that the bytes of a text are read as the text. -/

namespace CrowdPad.Utf8

theorem toNat_toUInt8 {n : Nat} (h : n < 256) : n.toUInt8.toNat = n := by
  rw [Nat.toUInt8_eq, UInt8.toNat_ofNat', Nat.mod_eq_of_lt h]

/-! ### Continuing bytes -/

theorem isTail_eq (b : UInt8) : isTail b = decide (0x80 ≤ b.toNat ∧ b.toNat < 0xC0) := by
  rw [isTail, Bool.decide_and]
  rfl

theorem isTail_tail {n : Nat} (h : n < 64) : isTail (0x80 + n).toUInt8 = true := by
  rw [isTail_eq, toNat_toUInt8 (by omega), decide_eq_true_iff]
  omega

theorem tailBits_tail {n : Nat} (h : n < 64) : tailBits (0x80 + n).toUInt8 = n := by
  have hbyte : (0x80 + n).toUInt8.toNat = 0x80 + n := toNat_toUInt8 (by omega)
  unfold tailBits
  omega

/-! ### Characters -/

section FirstChar

variable {n : Nat} {c : Char} (hchar : Char.ofNat n = c) (rest : List UInt8)

include hchar

theorem firstChar?_one (h : n < 0x80) : firstChar? (n.toUInt8 :: rest) = some (c, 1) := by
  have hlead := toNat_toUInt8 (n := n) (by omega)
  simp only [firstChar?, UInt8.lt_iff_toNat_lt, UInt8.reduceToNat, hlead, if_pos h, hchar]

theorem firstChar?_two (hlow : 0x80 ≤ n) (hhigh : n < 0x800) :
    firstChar? ((0xC0 + n / 64).toUInt8 :: (0x80 + n % 64).toUInt8 :: rest) = some (c, 2) := by
  have hlead := toNat_toUInt8 (n := 0xC0 + n / 64) (by omega)
  have htail := Nat.mod_lt n (y := 64) (by decide)
  have hvalue : (0xC0 + n / 64 - 0xC0) * 64 + n % 64 = n := by omega
  simp only [firstChar?, UInt8.lt_iff_toNat_lt, UInt8.reduceToNat, hlead]
  rw [if_neg (by omega), if_neg (by omega), if_pos (by omega), if_pos (isTail_tail htail),
    tailBits_tail htail, hvalue, hchar]

theorem firstChar?_three (hlow : 0x800 ≤ n) (hhigh : n < 0x10000)
    (hvalid : n < 0xD800 ∨ 0xDFFF < n) :
    firstChar? ((0xE0 + n / 4096).toUInt8 :: (0x80 + n / 64 % 64).toUInt8 ::
      (0x80 + n % 64).toUInt8 :: rest) = some (c, 3) := by
  have hlead := toNat_toUInt8 (n := 0xE0 + n / 4096) (by omega)
  have hmiddle := Nat.mod_lt (n / 64) (y := 64) (by decide)
  have htail := Nat.mod_lt n (y := 64) (by decide)
  have hvalue : (0xE0 + n / 4096 - 0xE0) * 4096 + n / 64 % 64 * 64 + n % 64 = n := by omega
  have hallowed : 0x800 ≤ n ∧ (n < 0xD800 ∨ 0xE000 ≤ n) := by omega
  simp only [firstChar?, UInt8.lt_iff_toNat_lt, UInt8.reduceToNat, hlead]
  rw [if_neg (by omega), if_neg (by omega), if_neg (by omega), if_pos (by omega)]
  simp only [isTail_tail hmiddle, isTail_tail htail, tailBits_tail hmiddle, tailBits_tail htail,
    hvalue]
  rw [if_pos (by simpa using hallowed), hchar]

theorem firstChar?_four (hlow : 0x10000 ≤ n) (hhigh : n < 0x110000) :
    firstChar? ((0xF0 + n / 262144).toUInt8 :: (0x80 + n / 4096 % 64).toUInt8 ::
      (0x80 + n / 64 % 64).toUInt8 :: (0x80 + n % 64).toUInt8 :: rest) = some (c, 4) := by
  have hlead := toNat_toUInt8 (n := 0xF0 + n / 262144) (by omega)
  have hsecond := Nat.mod_lt (n / 4096) (y := 64) (by decide)
  have hthird := Nat.mod_lt (n / 64) (y := 64) (by decide)
  have htail := Nat.mod_lt n (y := 64) (by decide)
  have hvalue : (0xF0 + n / 262144 - 0xF0) * 262144 + n / 4096 % 64 * 4096 + n / 64 % 64 * 64 +
      n % 64 = n := by omega
  simp only [firstChar?, UInt8.lt_iff_toNat_lt, UInt8.reduceToNat, hlead]
  rw [if_neg (by omega), if_neg (by omega), if_neg (by omega), if_neg (by omega),
    if_pos (by omega)]
  simp only [isTail_tail hsecond, isTail_tail hthird, isTail_tail htail, tailBits_tail hsecond,
    tailBits_tail hthird, tailBits_tail htail, hvalue]
  rw [if_pos (by simpa using ⟨hlow, hhigh⟩), hchar]

end FirstChar

/-- A character is read back from its bytes, whatever stands behind them. -/
theorem firstChar?_encodeChar (c : Char) (rest : List UInt8) :
    firstChar? (encodeChar c ++ rest) = some (c, (encodeChar c).length) := by
  have hvalid : c.toNat < 0xD800 ∨ 0xDFFF < c.toNat ∧ c.toNat < 0x110000 := c.valid
  have hchar : Char.ofNat c.toNat = c := Char.ofNat_toNat c
  unfold encodeChar
  by_cases hone : c.toNat < 0x80
  · rw [if_pos hone]
    exact firstChar?_one hchar rest hone
  rw [if_neg hone]
  by_cases htwo : c.toNat < 0x800
  · rw [if_pos htwo]
    exact firstChar?_two hchar rest (Nat.not_lt.mp hone) htwo
  rw [if_neg htwo]
  by_cases hthree : c.toNat < 0x10000
  · rw [if_pos hthree]
    exact firstChar?_three hchar rest (Nat.not_lt.mp htwo) hthree (hvalid.imp_right And.left)
  rw [if_neg hthree]
  exact firstChar?_four hchar rest (Nat.not_lt.mp hthree) (by omega)

/-! ### Texts -/

theorem decode_cons {bytes : List UInt8} {c : Char} {n : Nat} (h : firstChar? bytes = some (c, n))
    (hn : 0 < n) : decode bytes = some c :: decode (bytes.drop n) := by
  cases bytes with
  | nil => cases h
  | cons a rest =>
      rw [decode, h]
      obtain ⟨k, rfl⟩ := Nat.exists_eq_add_one_of_ne_zero (Nat.pos_iff_ne_zero.mp hn)
      rfl

theorem encodeChar_length_pos (c : Char) : 0 < (encodeChar c).length := by
  unfold encodeChar
  grind

theorem decode_flatMap_encodeChar (cs : List Char) : decode (cs.flatMap encodeChar) = cs.map some := by
  induction cs with
  | nil => simp [decode]
  | cons c cs ih =>
      rw [List.flatMap_cons, decode_cons (firstChar?_encodeChar c _) (encodeChar_length_pos c),
        List.drop_left, ih, List.map_cons]

/-- The bytes of a text are read as its characters. -/
theorem decode_encode (s : String) : decode (encode s) = s.toList.map some :=
  decode_flatMap_encodeChar s.toList

end CrowdPad.Utf8
