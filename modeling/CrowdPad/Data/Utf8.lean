/-! UTF-8. Decoding never fails as a whole: a byte that belongs to no character is kept as `none`,
so that a reader can say where such bytes do no harm. -/

namespace CrowdPad.Utf8

def encodeChar (c : Char) : List UInt8 :=
  let n := c.toNat
  if n < 0x80 then [n.toUInt8]
  else if n < 0x800 then [(0xC0 + n / 64).toUInt8, (0x80 + n % 64).toUInt8]
  else if n < 0x10000 then
    [(0xE0 + n / 4096).toUInt8, (0x80 + n / 64 % 64).toUInt8, (0x80 + n % 64).toUInt8]
  else
    [(0xF0 + n / 262144).toUInt8, (0x80 + n / 4096 % 64).toUInt8, (0x80 + n / 64 % 64).toUInt8,
      (0x80 + n % 64).toUInt8]

def encode (s : String) : List UInt8 := s.toList.flatMap encodeChar

/-- Whether a byte continues a character begun before it. -/
def isTail (b : UInt8) : Bool := 0x80 ≤ b && b < 0xC0

/-- What a continuing byte contributes to its character. -/
def tailBits (b : UInt8) : Nat := b.toNat - 0x80

/-- The character at the head of a byte string and the number of its bytes, if the bytes there are
the one shortest form of a character. -/
def firstChar? : List UInt8 → Option (Char × Nat)
  | [] => none
  | a :: rest =>
    if a < 0x80 then some (Char.ofNat a.toNat, 1)
    else if a < 0xC2 then none
    else if a < 0xE0 then
      match rest with
      | b :: _ =>
        if isTail b then some (Char.ofNat ((a.toNat - 0xC0) * 64 + tailBits b), 2) else none
      | [] => none
    else if a < 0xF0 then
      match rest with
      | b :: c :: _ =>
        let n := (a.toNat - 0xE0) * 4096 + tailBits b * 64 + tailBits c
        if isTail b && isTail c && 0x800 ≤ n && !(0xD800 ≤ n && n < 0xE000) then
          some (Char.ofNat n, 3)
        else none
      | _ => none
    else if a < 0xF5 then
      match rest with
      | b :: c :: d :: _ =>
        let n := (a.toNat - 0xF0) * 262144 + tailBits b * 4096 + tailBits c * 64 + tailBits d
        if isTail b && isTail c && isTail d && 0x10000 ≤ n && n < 0x110000 then
          some (Char.ofNat n, 4)
        else none
      | _ => none
    else none

/-- The characters of a byte string, with `none` for each byte that belongs to none. -/
def decode (bytes : List UInt8) : List (Option Char) :=
  match bytes with
  | [] => []
  | a :: rest =>
    match firstChar? (a :: rest) with
    | some (c, n) => some c :: decode (rest.drop (n - 1))
    | none => none :: decode rest
termination_by bytes.length
decreasing_by
  all_goals simp only [List.length_drop, List.length_cons]
  all_goals omega

end CrowdPad.Utf8
