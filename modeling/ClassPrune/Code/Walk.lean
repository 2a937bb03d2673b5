import ClassPrune.Code.Decoding
import ClassPrune.Code.Listing

/-!
# Walking over code

The decoder as it goes over an array: it looks every byte up by its position, once it has made sure
that there are enough bytes. To look up a byte that the array does not have is an outcome of its
own.

- `Walk.need`: makes sure that some bytes are left.
- `Walk.byte`, `Walk.u2`, `Walk.s4`, `Walk.slice`: look bytes up.
- `Decoder.walkStep`: the instruction at a position.
- `Decoder.walk`: the instructions of an array, each switch having been told where it stands.
-/

namespace ClassPrune

/-- Why a walk ends before the array does. -/
inductive Halt (ε : Type) where
  | refused (reason : ε)
  /-- A byte was looked up where the array has none. -/
  | outside (position : Nat)
  deriving DecidableEq, Repr

namespace Walk

/-- The byte at a position. -/
def byte (code : Bytes) (i : Nat) : Except (Halt DecodeCause) UInt8 :=
  match code[i]? with
  | some b => .ok b
  | none => .error (.outside i)

/-- The two bytes from a position on. -/
def u2 (code : Bytes) (i : Nat) : Except (Halt DecodeCause) UInt16 := do
  let a ← byte code i
  let b ← byte code (i + 1)
  return Bytes.toU2 a b

/-- The four bytes from a position on, as a signed number. -/
def s4 (code : Bytes) (i : Nat) : Except (Halt DecodeCause) Int32 := do
  let a ← byte code i
  let b ← byte code (i + 1)
  let c ← byte code (i + 2)
  let d ← byte code (i + 3)
  return (Bytes.toU4 a b c d).toInt32

/-- `n` bytes from a position on. -/
def slice (code : Bytes) (i : Nat) : (n : Nat) → Except (Halt DecodeCause) Bytes
  | 0 => return []
  | n + 1 => do
    let b ← byte code i
    let bs ← slice code (i + 1) n
    return b :: bs

/-- `n` signed numbers from a position on. -/
def s4s (code : Bytes) (i : Nat) : (n : Nat) → Except (Halt DecodeCause) (List Int32)
  | 0 => return []
  | n + 1 => do
    let v ← s4 code i
    let vs ← s4s code (i + 4) n
    return v :: vs

/-- `n` pairs of signed numbers from a position on. -/
def pairs (code : Bytes) (i : Nat) : (n : Nat) → Except (Halt DecodeCause) (List (Int32 × Int32))
  | 0 => return []
  | n + 1 => do
    let key ← s4 code i
    let offset ← s4 code (i + 4)
    let more ← pairs code (i + 8) n
    return (key, offset) :: more

def refuse {α : Type} (cause : DecodeCause) : Except (Halt DecodeCause) α :=
  .error (.refused cause)

/-- Makes sure that `n` bytes are left from `pc` on. -/
def need (code : Bytes) (pc n : Nat) : Except (Halt DecodeCause) Unit :=
  if (code.length : Int) - pc < n then refuse .truncated else .ok ()

/-- Makes sure that `count` rows of `width` bytes are left from `start` on. -/
def needRows (code : Bytes) (start : Nat) (count : Int) (width : Nat) :
    Except (Halt DecodeCause) Unit :=
  if count > ((code.length : Int) - start).tdiv width then refuse .truncated else .ok ()

/-- The instruction at `pc` that names a constant in two bytes, with `trailing` bytes behind. -/
def constant (code : Bytes) (pc : Nat) (op : Opcode) (trailing : Nat) :
    Except (Halt DecodeCause) Step := do
  need code pc (3 + trailing)
  let index ← u2 code (pc + 1)
  let bytes ← slice code (pc + 3) trailing
  return ⟨3 + trailing, [.constant op index bytes], none⟩

/-- The `wide` instruction at `pc`. -/
def wide (code : Bytes) (pc : Nat) : Except (Halt DecodeCause) Step := do
  need code pc 2
  let op : Opcode := ⟨← byte code (pc + 1)⟩
  if !op.isWideable then refuse (.wideOf op)
  else
    let size := if op = .iinc then 6 else 4
    need code pc size
    let index ← u2 code (pc + 2)
    let amount ← (if op = .iinc then u2 code (pc + 4) else .ok 0)
    return ⟨size, [.wide op index amount.toInt16], none⟩

/-- The `tableswitch` at `pc`. -/
def tableSwitch (code : Bytes) (pc : Nat) : Except (Halt DecodeCause) Step := do
  let start := pc + 1 + switchPadding pc
  need code pc (start - pc + 12)
  let default_ ← s4 code start
  let low ← s4 code (start + 4)
  let high ← s4 code (start + 8)
  if low.toInt > high.toInt then refuse (.emptyTable low high)
  else
    let count := high.toInt - low.toInt + 1
    needRows code (start + 12) count 4
    let offsets ← s4s code (start + 12) count.toNat
    let insn := Instruction.tableSwitch default_ low high offsets
    return ⟨insn.size pc, [insn], none⟩

/-- The `lookupswitch` at `pc`. -/
def lookupSwitch (code : Bytes) (pc : Nat) : Except (Halt DecodeCause) Step := do
  let start := pc + 1 + switchPadding pc
  need code pc (start - pc + 8)
  let default_ ← s4 code start
  let count ← s4 code (start + 4)
  if count.toInt < 0 then refuse (.negativePairs count)
  else
    needRows code (start + 8) count.toInt 8
    let table ← pairs code (start + 8) count.toInt.toNat
    let insn := Instruction.lookupSwitch default_ table
    return ⟨insn.size pc, [insn], none⟩

end Walk

/-- The instructions of a step that stands at `pc`, each switch having been told so. -/
def Step.placed (s : Step) (pc : Nat) : List Placed :=
  s.insns.map fun insn => Placed.told ⟨insn, 0⟩ pc

namespace Decoder

open Walk

/-- The standard instructions for the reserved opcode of `size` bytes at `pc`. -/
def walkStandardForm (d : Decoder) (code : Bytes) (pc : Nat) (replacement : Opcode) (size : Nat) :
    Except (Halt DecodeCause) (List Instruction) := do
  need code pc size
  if replacement = .ldc then
    let operand ← byte code (pc + 1)
    (d.remapLdc operand).mapError .refused
  else if replacement = .ldcW then
    let operand ← u2 code (pc + 1)
    (d.remapLdcW operand).mapError .refused
  else return List.replicate size (.plain replacement)

/-- The reserved opcode at `pc`. -/
def walkReserved (d : Decoder) (code : Bytes) (pc : Nat) (op : Opcode) :
    Except (Halt DecodeCause) Step :=
  match d.profile.standardForm? op with
  | none =>
    let assigned := !(op.byte > d.profile.last.byte && op.byte < 0xFE)
    refuse (.unknownOpcode op.byte assigned d.profile.name)
  | some (replacement, size) => do
    let insns ← d.walkStandardForm code pc replacement size
    return ⟨size, insns, some ⟨pc, op.byte, replacement⟩⟩

/-- The instruction at `pc`. -/
def walkStep (d : Decoder) (code : Bytes) (pc : Nat) : Except (Halt DecodeCause) Step := do
  let op : Opcode := ⟨← byte code pc⟩
  match op.shape with
  | .bare => return ⟨1, [.plain op], none⟩
  | .localSlot | .arrayType =>
    need code pc 2
    let a ← byte code (pc + 1)
    return ⟨2, [.operand op (Int32.ofNat a.toNat)], none⟩
  | .signedByte =>
    need code pc 2
    let a ← byte code (pc + 1)
    return ⟨2, [.operand op a.toInt8.toInt32], none⟩
  | .signedShort | .branch =>
    need code pc 3
    let v ← u2 code (pc + 1)
    return ⟨3, [.operand op v.toInt16.toInt32], none⟩
  | .branchWide =>
    need code pc 5
    let v ← s4 code (pc + 1)
    return ⟨5, [.operand op v], none⟩
  | .constant1 =>
    need code pc 2
    let a ← byte code (pc + 1)
    return ⟨2, [.constant op (UInt16.ofNat a.toNat) []], none⟩
  | .constant2 | .invokeInterface | .invokeDynamic | .multiArray =>
    Walk.constant code pc op op.shape.trailing
  | .iinc =>
    need code pc 3
    let index ← byte code (pc + 1)
    let amount ← byte code (pc + 2)
    return ⟨3, [.iinc index amount.toInt8], none⟩
  | .wide => Walk.wide code pc
  | .tableSwitch => Walk.tableSwitch code pc
  | .lookupSwitch => Walk.lookupSwitch code pc
  | .reserved => d.walkReserved code pc op

/-- The instructions from `pc` on. Every step takes at least one byte, so as many steps as there are
bytes are enough. -/
def walkFrom (d : Decoder) (code : Bytes) :
    (steps pc : Nat) → Except (Halt DecodeError) (List Placed)
  | 0, pc => if code.length ≤ pc then .ok [] else .error (.refused ⟨pc, .truncated⟩)
  | steps + 1, pc =>
    if code.length ≤ pc then .ok []
    else match d.walkStep code pc with
      | .error (.refused cause) => .error (.refused ⟨pc, cause⟩)
      | .error (.outside i) => .error (.outside i)
      | .ok s => (d.walkFrom code steps (pc + s.size)).map fun more => s.placed pc ++ more

/-- The instructions of a code array. -/
def walk (d : Decoder) (code : Bytes) : Except (Halt DecodeError) (List Placed) :=
  d.walkFrom code code.length 0

end Decoder

end ClassPrune
