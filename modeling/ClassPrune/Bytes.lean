/-!
# Bytes

Byte strings and the big-endian words that class files are made of. A word of `w` bytes is
written most significant byte first.
-/

namespace ClassPrune

/-- A byte string, first byte first. -/
abbrev Bytes := List UInt8

namespace Bytes

/-- The two bytes of a word. -/
def ofU2 (v : UInt16) : Bytes :=
  [UInt8.ofNat (v.toNat / 256), UInt8.ofNat v.toNat]

/-- The four bytes of a word. -/
def ofU4 (v : UInt32) : Bytes :=
  [UInt8.ofNat (v.toNat / 16777216), UInt8.ofNat (v.toNat / 65536),
    UInt8.ofNat (v.toNat / 256), UInt8.ofNat v.toNat]

/-- The eight bytes of a word: its upper half, then its lower half. -/
def ofU8 (v : UInt64) : Bytes :=
  ofU4 (UInt32.ofNat (v.toNat / 4294967296)) ++ ofU4 (UInt32.ofNat v.toNat)

/-- The word with the two given bytes. -/
def toU2 (a b : UInt8) : UInt16 :=
  UInt16.ofNat (a.toNat * 256 + b.toNat)

/-- The word with the four given bytes. -/
def toU4 (a b c d : UInt8) : UInt32 :=
  UInt32.ofNat (((a.toNat * 256 + b.toNat) * 256 + c.toNat) * 256 + d.toNat)

/-- The word with the two given halves. -/
def toU8 (upper lower : UInt32) : UInt64 :=
  UInt64.ofNat (upper.toNat * 4294967296 + lower.toNat)

/-- The first `n` bytes and the rest, when there are that many. -/
def split? (n : Nat) (bytes : Bytes) : Option (Bytes × Bytes) :=
  let front := bytes.take n
  if front.length = n then some (front, bytes.drop n) else none

end Bytes

end ClassPrune
