import ClassPrune.Class.Basic
import ClassPrune.Pool.Linking

/-!
# Reading class files

- `ClassFile.read`: a class file from the front of the input.
- `ClassFile.parse`: a byte string that is one class file and nothing else.

A fault is reported with the part of the file that it spoils. The counts of fields and methods
belong to no member, so when one of them is cut off the fault is reported with the class
attributes, where the file should have ended.
-/

namespace ClassPrune

/-- The first four bytes of every class file. -/
def magic : UInt32 := 0xCAFEBABE

/-- A field or method. -/
def Member.read (pool : Pool) : Reader Member := do
  let flags ← Reader.u2
  let nameIndex ← Reader.u2
  let descriptorIndex ← Reader.u2
  let attributes ← Attribute.readTable pool
  return ⟨flags, nameIndex, descriptorIndex, attributes⟩

/-- `n` members; the first is number `ordinal` and a fault in it belongs to `place ordinal`. -/
def Member.readMany (pool : Pool) (place : Nat → Place) :
    (n ordinal : Nat) → FileReader (List Member)
  | 0, _ => pure []
  | n + 1, ordinal => do
    let m ← (Member.read pool).within (place ordinal)
    let more ← Member.readMany pool place n (ordinal + 1)
    return m :: more

namespace ClassFile

/-- The magic number at the start of a file. -/
def readMagic : Reader Unit := do
  let start ← Reader.position
  let found ← Reader.u4
  if found ≠ magic then throw ⟨start, .badMagic found⟩

/-- A class file from the front of the input. -/
def read : FileReader ClassFile := do
  readMagic.within .file
  let minor ← Reader.u2.within .file
  let major ← Reader.u2.within .file
  let pool ← Pool.read
  let flags ← Reader.u2.within .file
  let thisClass ← Reader.u2.within .file
  let superClass ← Reader.u2.within .file
  let interfaces ← Codec.words.read.within .file
  let fieldCount ← Reader.u2.within .classAttributes
  let fields ← Member.readMany pool .field fieldCount.toNat 0
  let methodCount ← Reader.u2.within .classAttributes
  let methods ← Member.readMany pool .method methodCount.toNat 0
  let attributes ← (Attribute.readTable pool).within .classAttributes
  return ⟨minor, major, pool, flags, thisClass, superClass, interfaces, fields, methods,
    attributes⟩

/-- The class file that a byte string is. -/
def parse (data : Bytes) : Except ParseError ClassFile :=
  match read (.ofBytes data) with
  | .error e => .error e
  | .ok (k, ⟨_, []⟩) => .ok k
  | .ok (_, ⟨pos, rest⟩) => .error ⟨.file, ⟨pos, .trailingBytes rest.length⟩⟩

end ClassFile

end ClassPrune
