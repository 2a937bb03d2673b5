import ClassPrune.Code.Instruction

/-!
# Listings

A switch keeps the offset that it was last told, and takes its padding from there. Instructions
therefore have an identity of their own: code that is put together by hand may name one of them in
several places, and there is still only one offset that it keeps.

- `Placed.size`, `Placed.encode`: an instruction where it was last told that it stands.
- `Listing.tell`: tells an instruction where it stands.
- `Listing.encode`, `Listing.layOut`: the bytes and the offsets of instructions from offset zero.
  Both tell each instruction where it stands before they look at its size.
-/

namespace ClassPrune

/-- Whether an instruction keeps the offset that it is told. -/
def Instruction.isSwitch : Instruction → Bool
  | .tableSwitch _ _ _ _ | .lookupSwitch _ _ => true
  | _ => false

/-- An instruction and the offset that it was last told; zero before the first time. Any number can
be told, also one below zero. -/
structure Placed where
  insn : Instruction
  offset : Int := 0
  deriving DecidableEq, Repr

namespace Placed

/-- How far behind a multiple of four the instruction stands, which is all that padding depends
on. -/
def phase (p : Placed) : Nat := (p.offset % 4).toNat

/-- How many bytes the instruction takes where it was last told that it stands. -/
def size (p : Placed) : Nat := p.insn.size p.phase

/-- The bytes of the instruction where it was last told that it stands. -/
def encode (p : Placed) : Except EncodeCause Bytes := p.insn.encode p.phase

/-- The instruction after it was told an offset. -/
def told (p : Placed) (offset : Int) : Placed :=
  if p.insn.isSwitch then { p with offset } else p

end Placed

/-- Names one instruction, wherever it stands. -/
abbrev InstructionId := Nat

/-- The instructions by their names. -/
abbrev Listing := InstructionId → Placed

namespace Listing

/-- The instructions that names stand for. -/
def insns (l : Listing) (ids : List InstructionId) : List Instruction :=
  ids.map fun id => (l id).insn

/-- Tells an instruction where it stands. -/
def tell (l : Listing) (id : InstructionId) (offset : Int) : Listing :=
  fun other => if other = id then (l id).told offset else l other

/-- Tells instructions where they stand, one call after the other. -/
def tellAll (l : Listing) (calls : List (InstructionId × Int)) : Listing :=
  calls.foldl (fun l call => l.tell call.1 call.2) l

/-- The bytes of instructions, the first being number `ordinal` and standing at `pc`, and what the
instructions were told on the way. -/
def encodeFrom : Listing → (ordinal pc : Nat) → List InstructionId →
    Listing × Except EncodeError Bytes
  | l, _, _, [] => (l, .ok [])
  | l, ordinal, pc, id :: ids =>
    let l := l.tell id pc
    match (l id).encode with
    | .error cause => (l, .error ⟨ordinal, pc, cause⟩)
    | .ok bytes =>
      if bytes.length ≠ (l id).size then
        (l, .error ⟨ordinal, pc, .sizeMismatch (l id).insn.opcode bytes.length (l id).size⟩)
      else
        let rest := encodeFrom l (ordinal + 1) (pc + bytes.length) ids
        (rest.1, rest.2.map fun more => bytes ++ more)

/-- The bytes of instructions laid out from offset zero. -/
def encode (l : Listing) (ids : List InstructionId) : Listing × Except EncodeError Bytes :=
  l.encodeFrom 0 0 ids

/-- The offsets of instructions, the first standing at `pc`, and what the instructions were told on
the way. -/
def layOutFrom : Listing → (pc : Nat) → List InstructionId → Listing × List Nat
  | l, _, [] => (l, [])
  | l, pc, id :: ids =>
    let l := l.tell id pc
    let rest := layOutFrom l (pc + (l id).size) ids
    (rest.1, pc :: rest.2)

/-- The offsets of instructions laid out from zero. -/
def layOut (l : Listing) (ids : List InstructionId) : Listing × List Nat := l.layOutFrom 0 ids

end Listing

end ClassPrune
