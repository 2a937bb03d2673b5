import ClassPrune.Text.Hex

/-!
# Opcodes

The standard instructions, from `0x00` to `0xC9`, and how the bytes after each opcode are laid
out. The opcodes above them are reserved for the machine's own use.
-/

namespace ClassPrune

/-- How the bytes after an opcode are laid out. -/
inductive Shape where
  /-- Not a standard instruction. -/
  | reserved
  /-- No operand. -/
  | bare
  /-- The number of a local variable, in one byte. -/
  | localSlot
  | signedByte
  | arrayType
  | signedShort
  /-- A jump, in two bytes. -/
  | branch
  /-- A jump, in four bytes. -/
  | branchWide
  /-- A pool index, in one byte. -/
  | constant1
  /-- A pool index, in two bytes. -/
  | constant2
  /-- A pool index and two more bytes. -/
  | invokeInterface
  /-- A pool index and two more bytes. -/
  | invokeDynamic
  /-- A pool index and one more byte. -/
  | multiArray
  | iinc
  | tableSwitch
  | lookupSwitch
  | wide
  deriving DecidableEq, Repr, Inhabited

/-- The first byte of an instruction. -/
structure Opcode where
  byte : UInt8
  deriving DecidableEq, Repr, Inhabited

namespace Opcode

/-- The standard instructions in the order of their opcodes, the first being `0x00`. -/
def table : List (String × Shape) :=
  [("nop", .bare), ("aconst_null", .bare), ("iconst_m1", .bare), ("iconst_0", .bare),
    ("iconst_1", .bare), ("iconst_2", .bare), ("iconst_3", .bare), ("iconst_4", .bare),
    ("iconst_5", .bare), ("lconst_0", .bare), ("lconst_1", .bare), ("fconst_0", .bare),
    ("fconst_1", .bare), ("fconst_2", .bare), ("dconst_0", .bare), ("dconst_1", .bare),
    ("bipush", .signedByte), ("sipush", .signedShort), ("ldc", .constant1), ("ldc_w", .constant2),
    ("ldc2_w", .constant2), ("iload", .localSlot), ("lload", .localSlot), ("fload", .localSlot),
    ("dload", .localSlot), ("aload", .localSlot), ("iload_0", .bare), ("iload_1", .bare),
    ("iload_2", .bare), ("iload_3", .bare), ("lload_0", .bare), ("lload_1", .bare),
    ("lload_2", .bare), ("lload_3", .bare), ("fload_0", .bare), ("fload_1", .bare),
    ("fload_2", .bare), ("fload_3", .bare), ("dload_0", .bare), ("dload_1", .bare),
    ("dload_2", .bare), ("dload_3", .bare), ("aload_0", .bare), ("aload_1", .bare),
    ("aload_2", .bare), ("aload_3", .bare), ("iaload", .bare), ("laload", .bare),
    ("faload", .bare), ("daload", .bare), ("aaload", .bare), ("baload", .bare), ("caload", .bare),
    ("saload", .bare), ("istore", .localSlot), ("lstore", .localSlot), ("fstore", .localSlot),
    ("dstore", .localSlot), ("astore", .localSlot), ("istore_0", .bare), ("istore_1", .bare),
    ("istore_2", .bare), ("istore_3", .bare), ("lstore_0", .bare), ("lstore_1", .bare),
    ("lstore_2", .bare), ("lstore_3", .bare), ("fstore_0", .bare), ("fstore_1", .bare),
    ("fstore_2", .bare), ("fstore_3", .bare), ("dstore_0", .bare), ("dstore_1", .bare),
    ("dstore_2", .bare), ("dstore_3", .bare), ("astore_0", .bare), ("astore_1", .bare),
    ("astore_2", .bare), ("astore_3", .bare), ("iastore", .bare), ("lastore", .bare),
    ("fastore", .bare), ("dastore", .bare), ("aastore", .bare), ("bastore", .bare),
    ("castore", .bare), ("sastore", .bare), ("pop", .bare), ("pop2", .bare), ("dup", .bare),
    ("dup_x1", .bare), ("dup_x2", .bare), ("dup2", .bare), ("dup2_x1", .bare), ("dup2_x2", .bare),
    ("swap", .bare), ("iadd", .bare), ("ladd", .bare), ("fadd", .bare), ("dadd", .bare),
    ("isub", .bare), ("lsub", .bare), ("fsub", .bare), ("dsub", .bare), ("imul", .bare),
    ("lmul", .bare), ("fmul", .bare), ("dmul", .bare), ("idiv", .bare), ("ldiv", .bare),
    ("fdiv", .bare), ("ddiv", .bare), ("irem", .bare), ("lrem", .bare), ("frem", .bare),
    ("drem", .bare), ("ineg", .bare), ("lneg", .bare), ("fneg", .bare), ("dneg", .bare),
    ("ishl", .bare), ("lshl", .bare), ("ishr", .bare), ("lshr", .bare), ("iushr", .bare),
    ("lushr", .bare), ("iand", .bare), ("land", .bare), ("ior", .bare), ("lor", .bare),
    ("ixor", .bare), ("lxor", .bare), ("iinc", .iinc), ("i2l", .bare), ("i2f", .bare),
    ("i2d", .bare), ("l2i", .bare), ("l2f", .bare), ("l2d", .bare), ("f2i", .bare),
    ("f2l", .bare), ("f2d", .bare), ("d2i", .bare), ("d2l", .bare), ("d2f", .bare),
    ("i2b", .bare), ("i2c", .bare), ("i2s", .bare), ("lcmp", .bare), ("fcmpl", .bare),
    ("fcmpg", .bare), ("dcmpl", .bare), ("dcmpg", .bare), ("ifeq", .branch), ("ifne", .branch),
    ("iflt", .branch), ("ifge", .branch), ("ifgt", .branch), ("ifle", .branch),
    ("if_icmpeq", .branch), ("if_icmpne", .branch), ("if_icmplt", .branch),
    ("if_icmpge", .branch), ("if_icmpgt", .branch), ("if_icmple", .branch),
    ("if_acmpeq", .branch), ("if_acmpne", .branch), ("goto", .branch), ("jsr", .branch),
    ("ret", .localSlot), ("tableswitch", .tableSwitch), ("lookupswitch", .lookupSwitch),
    ("ireturn", .bare), ("lreturn", .bare), ("freturn", .bare), ("dreturn", .bare),
    ("areturn", .bare), ("return", .bare), ("getstatic", .constant2), ("putstatic", .constant2),
    ("getfield", .constant2), ("putfield", .constant2), ("invokevirtual", .constant2),
    ("invokespecial", .constant2), ("invokestatic", .constant2),
    ("invokeinterface", .invokeInterface), ("invokedynamic", .invokeDynamic), ("new", .constant2),
    ("newarray", .arrayType), ("anewarray", .constant2), ("arraylength", .bare),
    ("athrow", .bare), ("checkcast", .constant2), ("instanceof", .constant2),
    ("monitorenter", .bare), ("monitorexit", .bare), ("wide", .wide),
    ("multianewarray", .multiArray), ("ifnull", .branch), ("ifnonnull", .branch),
    ("goto_w", .branchWide), ("jsr_w", .branchWide)]

/-- The table for access by number. -/
def rows : Array (String × Shape) := table.toArray

/-- The layout of what follows an opcode. -/
def shape (op : Opcode) : Shape :=
  match rows[op.byte.toNat]? with
  | some row => row.2
  | none => .reserved

/-- Whether the opcode is a standard instruction. -/
def isStandard (op : Opcode) : Bool := op.shape != .reserved

/-- The mnemonic of an opcode; a reserved one is shown as a number. -/
def name (op : Opcode) : String :=
  match rows[op.byte.toNat]? with
  | some row => row.1
  | none => s!"opcode(0x{Text.hexUpper 2 op.byte.toNat})"

def nop : Opcode := ⟨0x00⟩

def ldc : Opcode := ⟨0x12⟩

def ldcW : Opcode := ⟨0x13⟩

def ldc2W : Opcode := ⟨0x14⟩

def aload0 : Opcode := ⟨0x2A⟩

def iinc : Opcode := ⟨0x84⟩

def tableswitch : Opcode := ⟨0xAA⟩

def lookupswitch : Opcode := ⟨0xAB⟩

def return_ : Opcode := ⟨0xB1⟩

def getstatic : Opcode := ⟨0xB2⟩

def putstatic : Opcode := ⟨0xB3⟩

def getfield : Opcode := ⟨0xB4⟩

def putfield : Opcode := ⟨0xB5⟩

def invokevirtual : Opcode := ⟨0xB6⟩

def invokespecial : Opcode := ⟨0xB7⟩

def invokestatic : Opcode := ⟨0xB8⟩

def invokeinterface : Opcode := ⟨0xB9⟩

def invokedynamic : Opcode := ⟨0xBA⟩

def wide : Opcode := ⟨0xC4⟩

/-- Whether the `wide` modifier may stand in front of an opcode. -/
def isWideable (op : Opcode) : Bool := op = iinc || op.shape = .localSlot

end Opcode

/-- How many bytes follow the pool index of an instruction. -/
def Shape.trailing : Shape → Nat
  | .invokeInterface | .invokeDynamic => 2
  | .multiArray => 1
  | _ => 0

end ClassPrune
