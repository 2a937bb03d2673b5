import ClassPrune.Class.Reading
import ClassPrune.Pool.Writing

/-!
# Writing class files

Every count, length and reference is derived from what is in memory; nothing of the bytes that
a class was read from is used again, apart from the payloads of attributes without a typed form.
-/

namespace ClassPrune

/-- The part of a class that cannot be written. -/
inductive WritePlace where
  | file
  | pool
  | interfaces
  | field (ordinal : Nat)
  | method (ordinal : Nat)
  | classAttributes
  deriving DecidableEq, Repr

/-- How a message names the part, before the reason itself. -/
def WritePlace.message : WritePlace → String
  | .file => ""
  | .pool => "failed to write constant pool: "
  | .interfaces => "failed to write interfaces: "
  | .field ordinal => s!"failed to write field {ordinal}: "
  | .method ordinal => s!"failed to write method {ordinal}: "
  | .classAttributes => "failed to write class attributes: "

/-- Why a class cannot be written. -/
structure ClassWriteError where
  place : WritePlace
  reason : WriteError
  deriving DecidableEq, Repr

def ClassWriteError.message (e : ClassWriteError) : String :=
  e.place.message ++ e.reason.message

/-- The bytes of a part of a class. -/
def writeWithin (place : WritePlace) (part : Except WriteError Bytes) :
    Except ClassWriteError Bytes :=
  match part with
  | .ok bytes => .ok bytes
  | .error reason => .error ⟨place, reason⟩

namespace Member

/-- The bytes of a field or method. -/
def encode (m : Member) : Except WriteError Bytes :=
  (Attribute.encodeTable m.attributes).map fun table =>
    Bytes.ofU2 m.flags ++ (Bytes.ofU2 m.nameIndex ++ (Bytes.ofU2 m.descriptorIndex ++ table))

/-- The bytes of members; the first is number `ordinal` and belongs to `place ordinal`. -/
def encodeMany (place : Nat → WritePlace) :
    (ordinal : Nat) → List Member → Except ClassWriteError Bytes
  | _, [] => .ok []
  | ordinal, m :: more => do
    let front ← writeWithin (place ordinal) m.encode
    let back ← encodeMany place (ordinal + 1) more
    return front ++ back

/-- The bytes of a table of members. -/
def encodeTable (place : Nat → WritePlace) (members : List Member) :
    Except ClassWriteError Bytes := do
  if members.length > 0xFFFF then throw ⟨.file, .tooMany members.length⟩
  let rows ← encodeMany place 0 members
  return Bytes.ofU2 (UInt16.ofNat members.length) ++ rows

end Member

/-- The bytes of a class. -/
def ClassFile.encode (k : ClassFile) : Except ClassWriteError Bytes := do
  let pool ← writeWithin .pool k.pool.encode
  let interfaces ← writeWithin .interfaces (Codec.words.write k.interfaces)
  let fields ← Member.encodeTable .field k.fields
  let methods ← Member.encodeTable .method k.methods
  let attributes ← writeWithin .classAttributes (Attribute.encodeTable k.attributes)
  return Bytes.ofU4 magic ++ (Bytes.ofU2 k.minor ++ (Bytes.ofU2 k.major ++ (pool ++
    (Bytes.ofU2 k.flags ++ (Bytes.ofU2 k.thisClass ++ (Bytes.ofU2 k.superClass ++
      (interfaces ++ (fields ++ (methods ++ attributes)))))))))

end ClassPrune
