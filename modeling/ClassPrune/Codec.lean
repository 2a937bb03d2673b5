import ClassPrune.Reader

/-!
# Codecs

A `Codec` is one layout of a value as bytes, in both directions. Layouts of larger values are
put together from smaller ones, so that reading and writing follow the same description.

- `Codec.u1`, `Codec.u2`: words.
- `Codec.pair`, `Codec.iso`: records, field by field.
- `Codec.table1`, `Codec.table2`: a count of one or two bytes, then that many rows. A table that
  is longer than its count can say is refused before any of its rows.
-/

namespace ClassPrune

/-- One layout of values of type `α` as bytes. -/
structure Codec (α : Type) where
  read : Reader α
  write : α → Except WriteError Bytes

namespace Codec

variable {α β : Type}

/-- One byte. -/
def u1 : Codec UInt8 where
  read := Reader.u1
  write v := .ok [v]

/-- A two-byte word. -/
def u2 : Codec UInt16 where
  read := Reader.u2
  write v := .ok (Bytes.ofU2 v)

/-- Nothing at all. -/
def nothing (value : α) : Codec α where
  read := pure value
  write _ := .ok []

/-- All that is left of the input. -/
def rest : Codec Bytes where
  read := Reader.remaining
  write v := .ok v

/-- One value, then another. -/
def pair (a : Codec α) (b : Codec β) : Codec (α × β) where
  read := do
    let x ← a.read
    let y ← b.read
    return (x, y)
  write v := do
    let front ← a.write v.1
    let back ← b.write v.2
    return front ++ back

/-- The same layout, for a type that carries the same information. -/
def iso (a : Codec α) (f : α → β) (g : β → α) : Codec β where
  read := do
    let x ← a.read
    return f x
  write v := a.write (g v)

/-- The rows of a table, one after the other. -/
def writeRows (row : Codec α) : List α → Except WriteError Bytes
  | [] => .ok []
  | v :: vs => do
    let front ← row.write v
    let back ← writeRows row vs
    return front ++ back

/-- Puts a one-byte count in front of rows. -/
def withCount1 (count : Nat) (rows : Except WriteError Bytes) : Except WriteError Bytes :=
  if count > 0xFF then .error (.tooMany count)
  else rows.map fun bytes => UInt8.ofNat count :: bytes

/-- Puts a two-byte count in front of rows. -/
def withCount2 (count : Nat) (rows : Except WriteError Bytes) : Except WriteError Bytes :=
  if count > 0xFFFF then .error (.tooMany count)
  else rows.map fun bytes => Bytes.ofU2 (UInt16.ofNat count) ++ bytes

/-- A one-byte count and that many rows. -/
def table1 (row : Codec α) : Codec (List α) where
  read := do
    let count ← Reader.u1
    Reader.times count.toNat row.read
  write vs := withCount1 vs.length (writeRows row vs)

/-- A two-byte count and that many rows. -/
def table2 (row : Codec α) : Codec (List α) where
  read := do
    let count ← Reader.u2
    Reader.times count.toNat row.read
  write vs := withCount2 vs.length (writeRows row vs)

/-- A layout whose reader is told how many bytes are left. -/
def measured (layout : (left : Nat) → Codec α) : Codec α where
  read := fun c => (layout c.rest.length).read c
  write := (layout 0).write

/-- A counted list of words. -/
def words : Codec (List UInt16) := table2 u2

end Codec

end ClassPrune
