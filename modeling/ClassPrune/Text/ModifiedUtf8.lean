import ClassPrune.Bytes

/-!
# Modified UTF-8

The encoding of names and strings in a class file. It differs from UTF-8 in two places: the
null character takes two bytes, and a character above `U+FFFF` is a pair of surrogates of three
bytes each.

- `encode`: the bytes of a text.
- `decode`: the text of any bytes. Continuation bytes are taken as they come, an incomplete
  character at the end is left out, a byte that starts nothing is the code point of its value,
  and a surrogate without its partner is `U+FFFD`.
-/

namespace ClassPrune.ModifiedUtf8

/-- The character with code point `n`, or `U+FFFD` when there is none. -/
def charOf (n : Nat) : Char :=
  if n.isValidChar then Char.ofNat n else Char.ofNat 0xFFFD

/-- The code point of a two-byte character. -/
def point2 (b c : UInt8) : Nat :=
  b.toNat % 32 * 64 + c.toNat % 64

/-- The code point of a three-byte character. -/
def point3 (b c d : UInt8) : Nat :=
  b.toNat % 16 * 4096 + c.toNat % 64 * 64 + d.toNat % 64

/-- Whether a code point is the first half of a surrogate pair. -/
def isHigh (n : Nat) : Bool := 0xD800 ≤ n && n ≤ 0xDBFF

/-- Whether a code point is the second half of a surrogate pair. -/
def isLow (n : Nat) : Bool := 0xDC00 ≤ n && n ≤ 0xDFFF

/-- The code point that a surrogate pair stands for. -/
def pairPoint (high low : Nat) : Nat :=
  0x10000 + (high - 0xD800) * 1024 + (low - 0xDC00)

/-- The characters that `bytes` spell. -/
def decode : Bytes → List Char
  | [] => []
  | b :: rest =>
    if b.toNat < 0x80 then charOf b.toNat :: decode rest
    else if 0xC0 ≤ b.toNat ∧ b.toNat < 0xE0 then
      match rest with
      | c :: more => charOf (point2 b c) :: decode more
      | [] => []
    else if 0xE0 ≤ b.toNat ∧ b.toNat < 0xF0 then
      match rest with
      | c :: d :: e :: f :: g :: more =>
        if isHigh (point3 b c d) ∧ e = 0xED ∧ isLow (point3 e f g) then
          charOf (pairPoint (point3 b c d) (point3 e f g)) :: decode more
        else charOf (point3 b c d) :: decode (e :: f :: g :: more)
      | c :: d :: more => charOf (point3 b c d) :: decode more
      | _ => []
    else charOf b.toNat :: decode rest

/-- The three bytes of a code point below `0x10000`. -/
def encode3 (n : Nat) : Bytes :=
  [UInt8.ofNat (0xE0 + n / 4096 % 16), UInt8.ofNat (0x80 + n / 64 % 64),
    UInt8.ofNat (0x80 + n % 64)]

/-- The bytes of one character. -/
def encodeChar (c : Char) : Bytes :=
  let n := c.toNat
  if n = 0 then [0xC0, 0x80]
  else if n < 0x80 then [UInt8.ofNat n]
  else if n < 0x800 then [UInt8.ofNat (0xC0 + n / 64), UInt8.ofNat (0x80 + n % 64)]
  else if n < 0x10000 then encode3 n
  else encode3 (0xD800 + (n - 0x10000) / 1024) ++ encode3 (0xDC00 + (n - 0x10000) % 1024)

/-- The bytes of a text. -/
def encode (text : List Char) : Bytes :=
  text.flatMap encodeChar

/-- The string that `bytes` spell. -/
def toString (bytes : Bytes) : String :=
  String.ofList (decode bytes)

/-- The bytes of a string. -/
def ofString (s : String) : Bytes :=
  encode s.toList

end ClassPrune.ModifiedUtf8
