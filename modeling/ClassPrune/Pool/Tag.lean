/-!
# Constant tags

The seventeen kinds of constant, their one-byte tags and their names.
-/

namespace ClassPrune

/-- The kind of a constant. -/
inductive Tag where
  | utf8
  | integer
  | float
  | long
  | double
  | classRef
  | string
  | fieldref
  | methodref
  | interfaceMethodref
  | nameAndType
  | methodHandle
  | methodType
  | dynamic
  | invokeDynamic
  | moduleRef
  | packageRef
  deriving DecidableEq, Repr, Inhabited

namespace Tag

/-- Every tag, in the order of their bytes. -/
def all : List Tag :=
  [.utf8, .integer, .float, .long, .double, .classRef, .string, .fieldref, .methodref,
    .interfaceMethodref, .nameAndType, .methodHandle, .methodType, .dynamic, .invokeDynamic,
    .moduleRef, .packageRef]

/-- The byte that marks a constant of this kind. -/
def toByte : Tag → UInt8
  | .utf8 => 1
  | .integer => 3
  | .float => 4
  | .long => 5
  | .double => 6
  | .classRef => 7
  | .string => 8
  | .fieldref => 9
  | .methodref => 10
  | .interfaceMethodref => 11
  | .nameAndType => 12
  | .methodHandle => 15
  | .methodType => 16
  | .dynamic => 17
  | .invokeDynamic => 18
  | .moduleRef => 19
  | .packageRef => 20

/-- The kind that a byte marks, if any. -/
def ofByte? (b : UInt8) : Option Tag :=
  all.find? fun t => t.toByte = b

/-- The kind's name in messages and dumps. -/
def name : Tag → String
  | .utf8 => "Utf8"
  | .integer => "Integer"
  | .float => "Float"
  | .long => "Long"
  | .double => "Double"
  | .classRef => "Class"
  | .string => "String"
  | .fieldref => "Fieldref"
  | .methodref => "Methodref"
  | .interfaceMethodref => "InterfaceMethodref"
  | .nameAndType => "NameAndType"
  | .methodHandle => "MethodHandle"
  | .methodType => "MethodType"
  | .dynamic => "Dynamic"
  | .invokeDynamic => "InvokeDynamic"
  | .moduleRef => "Module"
  | .packageRef => "Package"

/-- The name of the kind that a byte marks; a byte that marks none is shown as a number. -/
def nameOfByte (b : UInt8) : String :=
  match ofByte? b with
  | some t => t.name
  | none => s!"Tag({b.toNat})"

/-- Whether a load instruction or a bootstrap argument may name a constant of this kind. -/
def isLoadable : Tag → Bool
  | .integer | .float | .long | .double | .classRef | .string | .methodHandle | .methodType
  | .dynamic => true
  | _ => false

/-- Whether a constant of this kind takes two slots of the pool. -/
def isWide : Tag → Bool
  | .long | .double => true
  | _ => false

theorem ofByte?_toByte (t : Tag) : ofByte? t.toByte = some t := by
  cases t <;> rfl

end Tag

end ClassPrune
