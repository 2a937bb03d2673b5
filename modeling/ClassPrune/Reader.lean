import ClassPrune.Bytes
import ClassPrune.Fault

/-!
# Reading bytes

A `Reader` consumes a byte string from the front and stops at the first fault. The `Cursor`
carries how many bytes came before the rest, so that a fault can say where it was seen.
-/

namespace ClassPrune

/-- What is left of an input, and how much of it has been consumed. -/
structure Cursor where
  pos : Nat
  rest : Bytes
  deriving DecidableEq, Repr

/-- A computation that consumes bytes and may fail at a position. -/
abbrev Reader (α : Type) := StateT Cursor (Except Fault) α

namespace Cursor

/-- The start of an input. -/
def ofBytes (data : Bytes) : Cursor := ⟨0, data⟩

/-- The cursor `n` bytes further on, with the bytes passed over. -/
def take? (c : Cursor) (n : Nat) : Option (Bytes × Cursor) :=
  (Bytes.split? n c.rest).map fun (front, rest) => (front, ⟨c.pos + n, rest⟩)

end Cursor

namespace Reader

/-- Fails at the current position. -/
def fail {α : Type} (cause : Cause) : Reader α :=
  fun c => .error ⟨c.pos, cause⟩

/-- How many bytes have been consumed. -/
def position : Reader Nat := fun c => .ok (c.pos, c)

/-- The next byte. -/
def u1 : Reader UInt8 := fun c =>
  match c.rest with
  | a :: rest => .ok (a, ⟨c.pos + 1, rest⟩)
  | _ => .error ⟨c.pos, .unexpectedEnd⟩

/-- The next two bytes as a word. -/
def u2 : Reader UInt16 := fun c =>
  match c.rest with
  | a :: b :: rest => .ok (Bytes.toU2 a b, ⟨c.pos + 2, rest⟩)
  | _ => .error ⟨c.pos, .unexpectedEnd⟩

/-- The word in the next two bytes, which are not consumed. -/
def peek2 : Reader UInt16 := fun c =>
  match c.rest with
  | a :: b :: _ => .ok (Bytes.toU2 a b, c)
  | _ => .error ⟨c.pos, .unexpectedEnd⟩

/-- The next four bytes as a word. -/
def u4 : Reader UInt32 := fun c =>
  match c.rest with
  | a :: b :: d :: e :: rest => .ok (Bytes.toU4 a b d e, ⟨c.pos + 4, rest⟩)
  | _ => .error ⟨c.pos, .unexpectedEnd⟩

/-- The next eight bytes as a word, read as two halves. -/
def u8 : Reader UInt64 := do
  let upper ← u4
  let lower ← u4
  return Bytes.toU8 upper lower

/-- The next `n` bytes; `cause` tells what is wrong when there are only `remaining` of them. -/
def bytesOr (n : Nat) (cause : (remaining : Nat) → Cause) : Reader Bytes := fun c =>
  match c.take? n with
  | some r => .ok r
  | none => .error ⟨c.pos, cause c.rest.length⟩

/-- The next `n` bytes. -/
def bytes (n : Nat) : Reader Bytes :=
  bytesOr n fun _ => .unexpectedEnd

/-- All bytes that are left. -/
def remaining : Reader Bytes := fun c =>
  .ok (c.rest, ⟨c.pos + c.rest.length, []⟩)

/-- `n` values one after the other. -/
def times {α : Type} : Nat → Reader α → Reader (List α)
  | 0, _ => pure []
  | n + 1, r => do
    let x ← r
    let xs ← times n r
    return x :: xs

end Reader

end ClassPrune
