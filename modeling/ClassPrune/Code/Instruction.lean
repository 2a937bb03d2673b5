import ClassPrune.Bytes
import ClassPrune.Code.Opcode
import ClassPrune.Fault

/-!
# Instructions

Seven forms of instruction and their encoding. The two switches are padded so that their
operands start at a multiple of four, so their size and encoding depend on where they stand.

- `Instruction.size`, `Instruction.encode`: one instruction at offset `pc`.
- `encodeCode`, `offsets`: a list of instructions laid out from offset zero.
- `poolOperands`: the pool indices that instructions name.
-/

namespace ClassPrune

/-- One instruction. -/
inductive Instruction where
  /-- An opcode without operands. -/
  | plain (op : Opcode)
  /-- One number: a local variable, an immediate, an array type or a jump. -/
  | operand (op : Opcode) (value : Int32)
  | iinc (index : UInt8) (amount : Int8)
  /-- A pool index, and the bytes after it, kept as they are. -/
  | constant (op : Opcode) (index : PoolIndex) (trailing : Bytes)
  | tableSwitch (default_ low high : Int32) (offsets : List Int32)
  | lookupSwitch (default_ : Int32) (pairs : List (Int32 × Int32))
  /-- An instruction on a local variable with a two-byte number; `amount` is for `iinc` only. -/
  | wide (op : Opcode) (index : UInt16) (amount : Int16)
  deriving DecidableEq, Repr

/-- Why an instruction has no encoding. -/
inductive EncodeCause where
  | notAByte (op : Opcode) (value : Int32)
  | notASignedByte (op : Opcode) (value : Int32)
  | notAShort (op : Opcode) (value : Int32)
  | noSingleOperand (op : Opcode)
  | wrongTrailing (op : Opcode) (wanted found : Nat)
  | indexNotAByte (op : Opcode) (index : PoolIndex)
  | noPoolOperand (op : Opcode)
  | wrongTable (low high : Int32) (found : Nat)
  | tooManyPairs (count : Nat)
  | notWideable (op : Opcode)
  /-- The encoding is not as long as the size says. -/
  | sizeMismatch (op : Opcode) (wrote size : Nat)
  deriving DecidableEq, Repr

def EncodeCause.message : EncodeCause → String
  | .notAByte op value => s!"{op.name} operand {value.toInt} does not fit in a byte"
  | .notASignedByte op value =>
    s!"{op.name} operand {value.toInt} does not fit in a signed byte"
  | .notAShort op value => s!"{op.name} operand {value.toInt} does not fit in 16 bits"
  | .noSingleOperand op => s!"{op.name} does not take a single operand"
  | .wrongTrailing op wanted found => s!"{op.name} needs {wanted} trailing bytes, has {found}"
  | .indexNotAByte op index => s!"{op.name} index {index.toNat} does not fit in a byte"
  | .noPoolOperand op => s!"{op.name} does not reference the constant pool"
  | .wrongTable low high found => s!"tableswitch {low.toInt}..{high.toInt} has {found} offsets"
  | .tooManyPairs count => s!"lookupswitch has {count} pairs"
  | .notWideable op => s!"wide cannot modify {op.name}"
  | .sizeMismatch op wrote size => s!"{op.name} wrote {wrote} bytes, size is {size}"

/-- Why a list of instructions has no encoding: which of them, and where it would stand. -/
structure EncodeError where
  ordinal : Nat
  pc : Nat
  cause : EncodeCause
  deriving DecidableEq, Repr

def EncodeError.message (e : EncodeError) : String :=
  s!"instruction {e.ordinal} at pc {e.pc}: {e.cause.message}"

/-- How many bytes stand between a switch opcode at `pc` and its first operand. -/
def switchPadding (pc : Nat) : Nat := (3 - pc % 4) % 4

/-- The four bytes of a signed number. -/
def Bytes.ofS4 (v : Int32) : Bytes := Bytes.ofU4 v.toUInt32

namespace Instruction

/-- The opcode that an instruction starts with. -/
def opcode : Instruction → Opcode
  | .plain op => op
  | .operand op _ => op
  | .iinc _ _ => .iinc
  | .constant op _ _ => op
  | .tableSwitch _ _ _ _ => .tableswitch
  | .lookupSwitch _ _ => .lookupswitch
  | .wide _ _ _ => .wide

/-- How many bytes an instruction takes at offset `pc`. -/
def size (pc : Nat) : Instruction → Nat
  | .plain _ => 1
  | .operand op _ =>
    match op.shape with
    | .signedShort | .branch => 3
    | .branchWide => 5
    | _ => 2
  | .iinc _ _ => 3
  | .constant op _ trailing => if op.shape = .constant1 then 2 else 3 + trailing.length
  | .tableSwitch _ _ _ offsets => 1 + switchPadding pc + 12 + 4 * offsets.length
  | .lookupSwitch _ pairs => 1 + switchPadding pc + 8 + 8 * pairs.length
  | .wide op _ _ => if op = .iinc then 6 else 4

/-- The bytes of an operand instruction. -/
def encodeOperand (op : Opcode) (value : Int32) : Except EncodeCause Bytes :=
  match op.shape with
  | .localSlot | .arrayType =>
    if value.toInt < 0 ∨ value.toInt > 255 then .error (.notAByte op value)
    else .ok [op.byte, UInt8.ofNat value.toInt.toNat]
  | .signedByte =>
    if value.toInt < -128 ∨ value.toInt > 127 then .error (.notASignedByte op value)
    else .ok [op.byte, value.toInt8.toUInt8]
  | .signedShort | .branch =>
    if value.toInt < -32768 ∨ value.toInt > 32767 then .error (.notAShort op value)
    else .ok (op.byte :: Bytes.ofU2 value.toInt16.toUInt16)
  | .branchWide => .ok (op.byte :: Bytes.ofS4 value)
  | _ => .error (.noSingleOperand op)

/-- The bytes of an instruction that names a constant. -/
def encodeConstant (op : Opcode) (index : PoolIndex) (trailing : Bytes) :
    Except EncodeCause Bytes :=
  if trailing.length ≠ op.shape.trailing then
    .error (.wrongTrailing op op.shape.trailing trailing.length)
  else match op.shape with
    | .constant1 =>
      if index.toNat > 255 then .error (.indexNotAByte op index)
      else .ok [op.byte, UInt8.ofNat index.toNat]
    | .constant2 | .invokeInterface | .invokeDynamic | .multiArray =>
      .ok (op.byte :: (Bytes.ofU2 index ++ trailing))
    | _ => .error (.noPoolOperand op)

/-- The bytes of a switch at offset `pc`, up to its table. -/
def encodeSwitch (op : Opcode) (pc : Nat) (head : List Int32) (table : Bytes) : Bytes :=
  op.byte :: (List.replicate (switchPadding pc) 0 ++ (head.flatMap Bytes.ofS4 ++ table))

/-- The bytes of an instruction at offset `pc`. -/
def encode (pc : Nat) : Instruction → Except EncodeCause Bytes
  | .plain op => .ok [op.byte]
  | .operand op value => encodeOperand op value
  | .iinc index amount => .ok [Opcode.iinc.byte, index, amount.toUInt8]
  | .constant op index trailing => encodeConstant op index trailing
  | .tableSwitch default_ low high offsets =>
    if high.toInt - low.toInt + 1 ≠ offsets.length then
      .error (.wrongTable low high offsets.length)
    else
      .ok (encodeSwitch .tableswitch pc [default_, low, high] (offsets.flatMap Bytes.ofS4))
  | .lookupSwitch default_ pairs =>
    if pairs.length > 0x7FFFFFFF then .error (.tooManyPairs pairs.length)
    else
      .ok (encodeSwitch .lookupswitch pc [default_, Int32.ofNat pairs.length]
        (pairs.flatMap fun (key, offset) => Bytes.ofS4 key ++ Bytes.ofS4 offset))
  | .wide op index amount =>
    if op.isWideable then
      .ok (Opcode.wide.byte :: op.byte :: (Bytes.ofU2 index ++
        (if op = .iinc then Bytes.ofU2 amount.toUInt16 else [])))
    else .error (.notWideable op)

/-- The pool index that an instruction names. -/
def poolOperand? : Instruction → Option PoolIndex
  | .constant _ index _ => some index
  | _ => none

end Instruction

/-- The bytes of instructions, the first being number `ordinal` and standing at `pc`. -/
def encodeFrom : (ordinal pc : Nat) → List Instruction → Except EncodeError Bytes
  | _, _, [] => .ok []
  | ordinal, pc, insn :: more =>
    match insn.encode pc with
    | .error cause => .error ⟨ordinal, pc, cause⟩
    | .ok bytes =>
      if bytes.length ≠ insn.size pc then
        .error ⟨ordinal, pc, .sizeMismatch insn.opcode bytes.length (insn.size pc)⟩
      else
        (encodeFrom (ordinal + 1) (pc + bytes.length) more).map fun rest => bytes ++ rest

/-- The bytes of instructions laid out from offset zero. -/
def encodeCode (insns : List Instruction) : Except EncodeError Bytes := encodeFrom 0 0 insns

/-- The offsets of instructions, the first standing at `pc`. -/
def offsetsFrom : (pc : Nat) → List Instruction → List Nat
  | _, [] => []
  | pc, insn :: more => pc :: offsetsFrom (pc + insn.size pc) more

/-- The offsets of instructions laid out from zero. -/
def offsets (insns : List Instruction) : List Nat := offsetsFrom 0 insns

/-- The pool indices that instructions name, in order. -/
def poolOperands (insns : List Instruction) : List PoolIndex :=
  insns.filterMap Instruction.poolOperand?

end ClassPrune
