import ClassPrune.Pool.Tag
import ClassPrune.Text.Quoted

/-!
# Faults and refusals

What can be wrong with the bytes of a class file, and why a class in memory cannot be written.

- `Fault`: a structural fault in the input, with the offset where it was seen.
- `WriteError`: why a value has no encoding.
- `PoolError`: why a change to the constant pool was refused.

Each type is a list of causes; its `message` is the only place that words them.
-/

namespace ClassPrune

/-- An index into the constant pool; zero names no constant. -/
abbrev PoolIndex := UInt16

/-- Why a raw index of a constant cannot be bound to a constant. -/
inductive LinkError where
  /-- The index names no constant of a pool of the given size. -/
  | outOfRange (index : PoolIndex) (size : Nat)
  /-- The index names a constant of a kind that does not fit. -/
  | wrongKind (index : PoolIndex) (found : Tag)
  deriving DecidableEq, Repr

/-- The text for an index that names no constant. -/
def outOfRangeMessage (index : PoolIndex) (size : Nat) : String :=
  s!"index {index.toNat} (size {size}): constant pool index out of range"

def LinkError.message : LinkError → String
  | .outOfRange index size => outOfRangeMessage index size
  | .wrongKind index found => s!"reference to entry {index.toNat} has wrong kind {found.name}"

/-- The kinds of structural fault. -/
inductive Cause where
  /-- The data ends inside a value. -/
  | unexpectedEnd
  | badMagic (found : UInt32)
  | zeroPoolCount
  | unknownTag (byte : UInt8)
  | badHandleKind (kind : UInt8)
  /-- A two-slot constant stands in the last slot. -/
  | noSecondSlot (tag : Tag) (index : Nat)
  /-- A constant refers to something it may not refer to. -/
  | badLink (tag : Tag) (index : Nat) (why : LinkError)
  | attributeTooLong (ordinal : Nat) (length : UInt32) (remaining : Nat)
  | trailingBytes (count : Nat)
  /-- The name is not one of the attributes with a typed form. -/
  | noTypedForm (name : String)
  | attributeTrailing (name : String) (count : Nat)
  | codeTooLong (length : UInt32)
  | unknownVerification (tag : UInt8)
  | reservedFrame (frameType : UInt8)
  | unknownElementTag (tag : UInt8)
  | unknownTarget (targetType : UInt8)
  /-- A payload does not fit its four-byte length. -/
  | payloadTooLarge (length : Nat)
  /-- An element value without content cannot be encoded. -/
  | emptyElementValue (tag : UInt8)
  deriving DecidableEq, Repr

def Cause.message : Cause → String
  | .unexpectedEnd => "unexpected end of data: unexpected EOF"
  | .badMagic found =>
    s!"invalid magic number 0x{Text.hexUpper 1 found.toNat} (expected 0xCAFEBABE)"
  | .zeroPoolCount => "constant pool count is zero"
  | .unknownTag byte => s!"unknown constant pool tag {byte.toNat}"
  | .badHandleKind kind => s!"invalid method handle kind {kind.toNat}"
  | .noSecondSlot tag index => s!"{tag.name} entry {index} has no room for its second slot"
  | .badLink tag index why => s!"{tag.name} entry {index}: {why.message}"
  | .attributeTooLong ordinal length remaining =>
    s!"attribute {ordinal} length {length.toNat} exceeds remaining {remaining} bytes"
  | .trailingBytes count => s!"{count} trailing bytes after class attributes"
  | .noTypedForm name => s!"no typed form for attribute {Text.quote name}"
  | .attributeTrailing name count => s!"{name} attribute has {count} trailing bytes"
  | .codeTooLong length => s!"code length {length.toNat} exceeds attribute"
  | .unknownVerification tag => s!"unknown verification type tag {tag.toNat}"
  | .reservedFrame frameType => s!"reserved stack map frame type {frameType.toNat}"
  | .unknownElementTag tag => s!"unknown element value tag {Text.quoteByte tag}"
  | .unknownTarget targetType =>
    s!"unknown type annotation target type 0x{Text.hexUpper 2 targetType.toNat}"
  | .payloadTooLarge length => s!"attribute payload of {length} bytes is too large"
  | .emptyElementValue tag => s!"element value {Text.quoteByte tag} has no encodable value"

/-- A structural fault and where it was seen. -/
structure Fault where
  offset : Nat
  cause : Cause
  deriving DecidableEq, Repr

def Fault.message (f : Fault) : String :=
  s!"invalid class file at offset {f.offset}: {f.cause.message}"

/-- Why a value has no encoding. -/
inductive WriteError where
  /-- A table is longer than its count can say. -/
  | tooMany (count : Nat)
  /-- The value has no place in the format. -/
  | invalid (fault : Fault)
  | utf8TooLong (index : PoolIndex) (length : Nat)
  /-- A constant still has an unbound reference. -/
  | unresolved (tag : Tag) (index : PoolIndex)
  /-- A referenced constant is in no pool. -/
  | unassigned (tag : Tag)
  /-- The constant in a slot claims another index. -/
  | misplaced (slot index : PoolIndex)
  deriving DecidableEq, Repr

def WriteError.message : WriteError → String
  | .tooMany count => s!"{count} items do not fit in a u2 count"
  | .invalid fault => fault.message
  | .utf8TooLong index length => s!"utf8 entry {index.toNat}: {length} bytes exceeds limit"
  | .unresolved tag index =>
    s!"{tag.name} entry {index.toNat}: unresolved constant pool reference"
  | .unassigned tag => s!"{tag.name} entry: constant pool entry has no index"
  | .misplaced slot index => s!"entry at slot {slot.toNat} claims index {index.toNat}"

/-- Why a change to the pool, or a look-up in it, was refused. -/
inductive PoolError where
  | outOfRange (index : PoolIndex) (size : Nat)
  | full
  /-- A one-slot and a two-slot constant cannot take each other's place. -/
  | widthMismatch (index : PoolIndex) (new old : Tag)
  deriving DecidableEq, Repr

def PoolError.message : PoolError → String
  | .outOfRange index size => outOfRangeMessage index size
  | .full => "constant pool is full"
  | .widthMismatch index new old =>
    s!"replace entry {index.toNat}: {new.name} cannot take the slot of {old.name}"

end ClassPrune
