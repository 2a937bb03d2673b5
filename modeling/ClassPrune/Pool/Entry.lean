import ClassPrune.Codec
import ClassPrune.Text.ModifiedUtf8

/-!
# Constants

A constant is a value, or refers to other constants, or both. `Entry ρ` leaves open what a
reference is: in a file it is the index of a slot (`Entry PoolIndex`), in memory it is the
referenced constant itself or nothing yet (`Entry (Option EntryId)`, see the pool).

- `Entry.references`, `Entry.mapRefs`: the references in the order of the file.
- `Entry.read`, `Entry.encode`: the layout of a constant whose references are indices.
- `Target`: what kind of constant a reference may name.
-/

namespace ClassPrune

/-- The constants that wrap one text. -/
inductive NamedKind where
  | classRef
  | string
  | methodType
  | moduleRef
  | packageRef
  deriving DecidableEq, Repr

/-- The constants that name a member of a class. -/
inductive MemberKind where
  | field
  | method
  | interfaceMethod
  deriving DecidableEq, Repr

/-- The constants that a bootstrap method computes. -/
inductive ComputedKind where
  | constant
  | callSite
  deriving DecidableEq, Repr

/-- A constant whose references are of type `ρ`. -/
inductive Entry (ρ : Type) where
  /-- A text, kept as the bytes it is stored in. -/
  | utf8 (raw : Bytes)
  | integer (bits : UInt32)
  | float (bits : UInt32)
  | long (bits : UInt64)
  | double (bits : UInt64)
  /-- A class, string, method type, module or package: one text. -/
  | named (kind : NamedKind) (text : ρ)
  /-- A member: its owner, and its name and type. -/
  | member (kind : MemberKind) (owner nameType : ρ)
  | nameAndType (name descriptor : ρ)
  | methodHandle (kind : UInt8) (reference : ρ)
  /-- A dynamic constant or call site: a row of the bootstrap table, and a name and type. -/
  | computed (kind : ComputedKind) (bootstrap : UInt16) (nameType : ρ)
  deriving DecidableEq, Repr

def NamedKind.tag : NamedKind → Tag
  | .classRef => .classRef
  | .string => .string
  | .methodType => .methodType
  | .moduleRef => .moduleRef
  | .packageRef => .packageRef

def MemberKind.tag : MemberKind → Tag
  | .field => .fieldref
  | .method => .methodref
  | .interfaceMethod => .interfaceMethodref

def ComputedKind.tag : ComputedKind → Tag
  | .constant => .dynamic
  | .callSite => .invokeDynamic

/-- What a reference may name. -/
inductive Target where
  | text
  | classRef
  | nameAndType
  /-- A field, method or interface method. -/
  | member
  deriving DecidableEq, Repr

/-- Whether a reference to `target` may name a constant of kind `tag`. -/
def Target.accepts (target : Target) (tag : Tag) : Bool :=
  match target with
  | .text => tag = .utf8
  | .classRef => tag = .classRef
  | .nameAndType => tag = .nameAndType
  | .member => tag = .fieldref || tag = .methodref || tag = .interfaceMethodref

namespace Entry

variable {ρ σ : Type}

def tag : Entry ρ → Tag
  | .utf8 _ => .utf8
  | .integer _ => .integer
  | .float _ => .float
  | .long _ => .long
  | .double _ => .double
  | .named kind _ => kind.tag
  | .member kind _ _ => kind.tag
  | .nameAndType _ _ => .nameAndType
  | .methodHandle _ _ => .methodHandle
  | .computed kind _ _ => kind.tag

/-- Whether the constant takes two slots. -/
def isWide (e : Entry ρ) : Bool := e.tag.isWide

/-- How many slots the constant takes. -/
def width (e : Entry ρ) : Nat := if e.isWide then 2 else 1

/-- Whether constants of this kind have references at all. -/
def isLinked : Entry ρ → Bool
  | .utf8 _ | .integer _ | .float _ | .long _ | .double _ => false
  | _ => true

/-- The references, in the order of the file. -/
def references : Entry ρ → List ρ
  | .named _ text => [text]
  | .member _ owner nameType => [owner, nameType]
  | .nameAndType name descriptor => [name, descriptor]
  | .methodHandle _ reference => [reference]
  | .computed _ _ nameType => [nameType]
  | _ => []

/-- Replaces each reference, in the order of the file; `f` is told what it may name. -/
def mapRefs {ε : Type} (f : Target → ρ → Except ε σ) : Entry ρ → Except ε (Entry σ)
  | .utf8 raw => .ok (.utf8 raw)
  | .integer bits => .ok (.integer bits)
  | .float bits => .ok (.float bits)
  | .long bits => .ok (.long bits)
  | .double bits => .ok (.double bits)
  | .named kind text => do
    return .named kind (← f .text text)
  | .member kind owner nameType => do
    let owner ← f .classRef owner
    let nameType ← f .nameAndType nameType
    return .member kind owner nameType
  | .nameAndType name descriptor => do
    let name ← f .text name
    let descriptor ← f .text descriptor
    return .nameAndType name descriptor
  | .methodHandle kind reference => do
    return .methodHandle kind (← f .member reference)
  | .computed kind bootstrap nameType => do
    return .computed kind bootstrap (← f .nameAndType nameType)

/-- The bytes of a constant whose references are indices. A text must be shorter than `65536`
bytes. -/
def encode (e : Entry PoolIndex) : Bytes :=
  e.tag.toByte :: match e with
    | .utf8 raw => Bytes.ofU2 (UInt16.ofNat raw.length) ++ raw
    | .integer bits | .float bits => Bytes.ofU4 bits
    | .long bits | .double bits => Bytes.ofU8 bits
    | .named _ text => Bytes.ofU2 text
    | .member _ owner nameType => Bytes.ofU2 owner ++ Bytes.ofU2 nameType
    | .nameAndType name descriptor => Bytes.ofU2 name ++ Bytes.ofU2 descriptor
    | .methodHandle kind reference => kind :: Bytes.ofU2 reference
    | .computed _ bootstrap nameType => Bytes.ofU2 bootstrap ++ Bytes.ofU2 nameType

/-- A member constant, after its tag. -/
def readMember (kind : MemberKind) : Reader (Entry PoolIndex) := do
  let owner ← Reader.u2
  let nameType ← Reader.u2
  return .member kind owner nameType

/-- A computed constant, after its tag. -/
def readComputed (kind : ComputedKind) : Reader (Entry PoolIndex) := do
  let bootstrap ← Reader.u2
  let nameType ← Reader.u2
  return .computed kind bootstrap nameType

/-- A constant wrapping one text, after its tag. -/
def readNamed (kind : NamedKind) : Reader (Entry PoolIndex) := do
  let text ← Reader.u2
  return .named kind text

/-- A method handle after its tag, which stands at offset `start`. -/
def readMethodHandle (start : Nat) : Reader (Entry PoolIndex) := do
  let kind ← Reader.u1
  let reference ← Reader.u2
  if 1 ≤ kind.toNat ∧ kind.toNat ≤ 9 then
    return .methodHandle kind reference
  else
    throw ⟨start, .badHandleKind kind⟩

/-- The rest of a constant, after its tag, which stands at offset `start`. -/
def readBody (start : Nat) : Tag → Reader (Entry PoolIndex)
  | .utf8 => do
    let length ← Reader.u2
    let raw ← Reader.bytes length.toNat
    return .utf8 raw
  | .integer => do
    return .integer (← Reader.u4)
  | .float => do
    return .float (← Reader.u4)
  | .long => do
    return .long (← Reader.u8)
  | .double => do
    return .double (← Reader.u8)
  | .classRef => readNamed .classRef
  | .string => readNamed .string
  | .methodType => readNamed .methodType
  | .moduleRef => readNamed .moduleRef
  | .packageRef => readNamed .packageRef
  | .fieldref => readMember .field
  | .methodref => readMember .method
  | .interfaceMethodref => readMember .interfaceMethod
  | .nameAndType => do
    let name ← Reader.u2
    let descriptor ← Reader.u2
    return .nameAndType name descriptor
  | .methodHandle => readMethodHandle start
  | .dynamic => readComputed .constant
  | .invokeDynamic => readComputed .callSite

/-- A constant as it stands in a file. -/
def read : Reader (Entry PoolIndex) := do
  let start ← Reader.position
  let byte ← Reader.u1
  match Tag.ofByte? byte with
  | some tag => readBody start tag
  | none => throw ⟨start, .unknownTag byte⟩

end Entry

end ClassPrune
