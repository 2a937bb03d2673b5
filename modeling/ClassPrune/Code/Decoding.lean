import ClassPrune.Code.Instruction
import ClassPrune.Code.Profile
import ClassPrune.Pool.Basic

/-!
# Decoding code

Splits a code array into instructions. A reserved opcode that the profile knows is replaced by
standard instructions of the same length; every other one is refused.

- `Decoder`: the profile, and the constants that compact loads count.
- `Decoder.step`: one instruction at the front, or why there is none.
- `Decoder.run`: the steps up to the end of the code or the first error. The replacements made
  before an error are part of the answer.
- `Decoder.decode`: the instructions of a code array that decodes to its end.
-/

namespace ClassPrune

/-- Why no instruction can be read. -/
inductive DecodeCause where
  /-- The instruction runs past the end of the code. -/
  | truncated
  /-- A reserved opcode without a standard form; `assigned` says whether the machine uses it. -/
  | unknownOpcode (byte : UInt8) (assigned : Bool) (profile : String)
  | wideOf (op : Opcode)
  | emptyTable (low high : Int32)
  | negativePairs (count : Int32)
  /-- A compact load without a pool to count in. -/
  | noPool (ordinal : UInt16)
  | unmapped (ordinal : UInt16) (count : Nat)
  /-- The counted constant has an index that `ldc` cannot hold. -/
  | indexTooLarge (ordinal : UInt16) (index : PoolIndex)
  deriving DecidableEq, Repr

def DecodeCause.message : DecodeCause → String
  | .truncated => "truncated instruction"
  | .unknownOpcode byte assigned profile =>
    let fate := if assigned then "has no standard form" else "is unassigned"
    s!"unknown opcode: 0x{Text.hexUpper 2 byte.toNat} {fate} in {profile}"
  | .wideOf op => s!"malformed instruction: wide {op.name}"
  | .emptyTable low high =>
    s!"malformed instruction: tableswitch low {low.toInt} > high {high.toInt}"
  | .negativePairs count => s!"malformed instruction: lookupswitch with {count.toInt} pairs"
  | .noPool ordinal =>
    "constant ordinal does not map to the pool: " ++
      s!"no constant pool to map ordinal {ordinal.toNat}"
  | .unmapped ordinal count =>
    s!"constant ordinal does not map to the pool: ordinal {ordinal.toNat} of {count}"
  | .indexTooLarge ordinal index =>
    s!"constant ordinal does not map to the pool: ordinal {ordinal.toNat} maps to index " ++
      s!"{index.toNat}, too large for ldc"

/-- What a caller can tell apart of the causes. -/
inductive DecodeKind where
  | truncated
  | unknownOpcode
  | malformed
  | unmappedConstant
  deriving DecidableEq, Repr

/-- What the message of a cause of this kind begins with. -/
def DecodeKind.text : DecodeKind → String
  | .truncated => "truncated instruction"
  | .unknownOpcode => "unknown opcode"
  | .malformed => "malformed instruction"
  | .unmappedConstant => "constant ordinal does not map to the pool"

def DecodeCause.kind : DecodeCause → DecodeKind
  | .truncated => .truncated
  | .unknownOpcode _ _ _ => .unknownOpcode
  | .wideOf _ | .emptyTable _ _ | .negativePairs _ => .malformed
  | .noPool _ | .unmapped _ _ | .indexTooLarge _ _ => .unmappedConstant

/-- Why a code array does not decode, and where. -/
structure DecodeError where
  pc : Nat
  cause : DecodeCause
  deriving DecidableEq, Repr

def DecodeError.message (e : DecodeError) : String :=
  s!"pc {e.pc}: {e.cause.message}"

/-- A reserved opcode that was replaced. -/
structure Substitution where
  pc : Nat
  reserved : UInt8
  replacement : Opcode
  deriving DecidableEq, Repr

/-- What one instruction of the code array becomes. -/
structure Step where
  size : Nat
  insns : List Instruction
  substitution : Option Substitution := none
  deriving DecidableEq, Repr

/-- The constants that the machine keeps in its table of resolved references, in pool order:
strings, method handles, method types and dynamic constants. -/
def Pool.resolvedReferences (p : Pool) : List PoolIndex :=
  p.occupied.filterMap fun (index, id) =>
    match (p.cell id).entry.tag with
    | .string | .methodHandle | .methodType | .dynamic => some index
    | _ => none

/-- What decoding depends on: the profile, and the resolved references when there is a pool. -/
structure Decoder where
  profile : Profile
  loadable : Option (Array PoolIndex)

/-- The word with its two bytes exchanged. -/
def swapBytes (v : UInt16) : UInt16 :=
  UInt16.ofNat (v.toNat % 256 * 256 + v.toNat / 256)

/-- `n` signed numbers, when there are that many. -/
def readS4s? : (n : Nat) → Bytes → Option (List Int32)
  | 0, _ => some []
  | n + 1, a :: b :: c :: d :: rest =>
    (readS4s? n rest).map fun vs => (Bytes.toU4 a b c d).toInt32 :: vs
  | _ + 1, _ => none

/-- `n` pairs of signed numbers, when there are that many. -/
def readPairs? : (n : Nat) → Bytes → Option (List (Int32 × Int32))
  | 0, _ => some []
  | n + 1, a :: b :: c :: d :: e :: f :: g :: h :: rest =>
    (readPairs? n rest).map fun vs =>
      ((Bytes.toU4 a b c d).toInt32, (Bytes.toU4 e f g h).toInt32) :: vs
  | _ + 1, _ => none

/-- A `wide` instruction, after its opcode. -/
def stepWide : Bytes → Except DecodeCause Step
  | byte :: rest =>
    let op : Opcode := ⟨byte⟩
    if !op.isWideable then .error (.wideOf op)
    else match rest with
      | a :: b :: c :: d :: _ =>
        if op = .iinc then .ok ⟨6, [.wide op (Bytes.toU2 a b) (Bytes.toU2 c d).toInt16], none⟩
        else .ok ⟨4, [.wide op (Bytes.toU2 a b) 0], none⟩
      | a :: b :: _ =>
        if op = .iinc then .error .truncated
        else .ok ⟨4, [.wide op (Bytes.toU2 a b) 0], none⟩
      | _ => .error .truncated
  | [] => .error .truncated

/-- A `tableswitch` at `pc`, after its opcode. -/
def stepTableSwitch (pc : Nat) (rest : Bytes) : Except DecodeCause Step :=
  match readS4s? 3 (rest.drop (switchPadding pc)) with
  | some [default_, low, high] =>
    if low.toInt > high.toInt then .error (.emptyTable low high)
    else
      match readS4s? (high.toInt - low.toInt + 1).toNat (rest.drop (switchPadding pc + 12)) with
      | some offsets =>
        let insn := Instruction.tableSwitch default_ low high offsets
        .ok ⟨insn.size pc, [insn], none⟩
      | none => .error .truncated
  | _ => .error .truncated

/-- A `lookupswitch` at `pc`, after its opcode. -/
def stepLookupSwitch (pc : Nat) (rest : Bytes) : Except DecodeCause Step :=
  match readS4s? 2 (rest.drop (switchPadding pc)) with
  | some [default_, count] =>
    if count.toInt < 0 then .error (.negativePairs count)
    else
      match readPairs? count.toInt.toNat (rest.drop (switchPadding pc + 8)) with
      | some pairs =>
        let insn := Instruction.lookupSwitch default_ pairs
        .ok ⟨insn.size pc, [insn], none⟩
      | none => .error .truncated
  | _ => .error .truncated

namespace Decoder

/-- A decoder for a profile and a pool, if there is one. -/
def ofPool (profile : Profile) (pool : Option Pool) : Decoder :=
  ⟨profile, pool.map fun p => p.resolvedReferences.toArray⟩

/-- The index of the resolved reference number `ordinal`. Where a two-byte number is too large,
it is read again with its bytes exchanged, since the machine stores it in its own order. -/
def remap (d : Decoder) (ordinal : UInt16) (twoBytes : Bool) : Except DecodeCause PoolIndex :=
  match d.loadable with
  | none => .error (.noPool ordinal)
  | some indices =>
    match indices[ordinal.toNat]? with
    | some index => .ok index
    | none =>
      match if twoBytes then indices[(swapBytes ordinal).toNat]? else none with
      | some index => .ok index
      | none => .error (.unmapped ordinal indices.size)

/-- A compact load with a one-byte operand. -/
def remapLdc (d : Decoder) (operand : UInt8) : Except DecodeCause (List Instruction) := do
  let ordinal := UInt16.ofNat operand.toNat
  let index ← d.remap ordinal false
  if index.toNat > 255 then throw (.indexTooLarge ordinal index)
  return [.constant .ldc index []]

/-- A compact load with a two-byte operand. -/
def remapLdcW (d : Decoder) (operand : UInt16) : Except DecodeCause (List Instruction) := do
  let index ← d.remap operand true
  return [.constant .ldcW index []]

/-- The standard instructions for a reserved opcode of `size` bytes; `rest` follows it. -/
def standardForm (d : Decoder) (replacement : Opcode) (size : Nat) (rest : Bytes) :
    Except DecodeCause (List Instruction) :=
  if rest.length + 1 < size then .error .truncated
  else if replacement = .ldc then d.remapLdc (rest.headD 0)
  else if replacement = .ldcW then d.remapLdcW (Bytes.toU2 (rest.headD 0) (rest.tail.headD 0))
  else .ok (List.replicate size (.plain replacement))

/-- A reserved opcode at `pc`; `rest` follows it. -/
def stepReserved (d : Decoder) (pc : Nat) (op : Opcode) (rest : Bytes) :
    Except DecodeCause Step :=
  match d.profile.standardForm? op with
  | none =>
    let assigned := !(op.byte > d.profile.last.byte && op.byte < 0xFE)
    .error (.unknownOpcode op.byte assigned d.profile.name)
  | some (replacement, size) =>
    match d.standardForm replacement size (rest.take 2) with
    | .ok insns => .ok ⟨size, insns, some ⟨pc, op.byte, replacement⟩⟩
    | .error cause => .error cause

/-- An instruction that names a constant in two bytes, with `trailing` bytes behind. -/
def stepConstant (op : Opcode) (trailing : Nat) : Bytes → Except DecodeCause Step
  | a :: b :: rest =>
    match Bytes.split? trailing rest with
    | some (bytes, _) => .ok ⟨3 + trailing, [.constant op (Bytes.toU2 a b) bytes], none⟩
    | none => .error .truncated
  | _ => .error .truncated

/-- The instruction with opcode `op` at `pc`; `rest` follows the opcode. -/
def step (d : Decoder) (pc : Nat) (op : Opcode) (rest : Bytes) : Except DecodeCause Step :=
  match op.shape with
  | .bare => .ok ⟨1, [.plain op], none⟩
  | .localSlot | .arrayType =>
    match rest with
    | a :: _ => .ok ⟨2, [.operand op (Int32.ofNat a.toNat)], none⟩
    | _ => .error .truncated
  | .signedByte =>
    match rest with
    | a :: _ => .ok ⟨2, [.operand op a.toInt8.toInt32], none⟩
    | _ => .error .truncated
  | .signedShort | .branch =>
    match rest with
    | a :: b :: _ => .ok ⟨3, [.operand op (Bytes.toU2 a b).toInt16.toInt32], none⟩
    | _ => .error .truncated
  | .branchWide =>
    match rest with
    | a :: b :: c :: e :: _ => .ok ⟨5, [.operand op (Bytes.toU4 a b c e).toInt32], none⟩
    | _ => .error .truncated
  | .constant1 =>
    match rest with
    | a :: _ => .ok ⟨2, [.constant op (UInt16.ofNat a.toNat) []], none⟩
    | _ => .error .truncated
  | .constant2 | .invokeInterface | .invokeDynamic | .multiArray =>
    stepConstant op op.shape.trailing rest
  | .iinc =>
    match rest with
    | a :: b :: _ => .ok ⟨3, [.iinc a b.toInt8], none⟩
    | _ => .error .truncated
  | .wide => stepWide rest
  | .tableSwitch => stepTableSwitch pc rest
  | .lookupSwitch => stepLookupSwitch pc rest
  | .reserved => d.stepReserved pc op rest

/-- The steps over `code`, which starts at `pc`, and the error that ends them, if any. Every
step takes at least one byte, so as many steps as there are bytes are enough. -/
def runFrom (d : Decoder) : (steps pc : Nat) → Bytes → List Step × Option DecodeError
  | _, _, [] => ([], none)
  | 0, pc, _ :: _ => ([], some ⟨pc, .truncated⟩)
  | steps + 1, pc, byte :: rest =>
    match d.step pc ⟨byte⟩ rest with
    | .error cause => ([], some ⟨pc, cause⟩)
    | .ok s =>
      let more := d.runFrom steps (pc + s.size) (rest.drop (s.size - 1))
      (s :: more.1, more.2)

/-- The steps over a code array, and the error that ends them, if any. -/
def run (d : Decoder) (code : Bytes) : List Step × Option DecodeError :=
  d.runFrom code.length 0 code

/-- The reserved opcodes replaced before the end of the code or the first error. -/
def substitutions (d : Decoder) (code : Bytes) : List Substitution :=
  (d.run code).1.filterMap Step.substitution

/-- The instructions of a code array. -/
def decode (d : Decoder) (code : Bytes) : Except DecodeError (List Instruction) :=
  match d.run code with
  | (steps, none) => .ok (steps.flatMap Step.insns)
  | (_, some e) => .error e

end Decoder

end ClassPrune
