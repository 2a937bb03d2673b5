import ClassPrune.Attribute.Annotations
import ClassPrune.Attribute.Kind
import ClassPrune.Attribute.Rows
import ClassPrune.Attribute.StackMap

/-!
# Attribute bodies

The typed form of the thirty known attributes. Two of them, the code of a method and the record
declaration, carry attributes themselves; `Body α` leaves open what those are. In a file they
are `RawAttribute`s, a name index and a payload.

- `LeafBody`: the bodies that carry no attributes, with `LeafBody.write`.
- `Body`: all bodies; `Body.read` cuts a payload into its parts without looking into the
  payloads nested in it.
- `Body.references`: the indices that a body itself stores, zeros included.
-/

namespace ClassPrune

/-- Whether an annotation is kept for reflection. -/
inductive Retention where
  | visible
  | invisible
  deriving DecidableEq, Repr

/-- The body of an attribute that carries no attributes itself. -/
inductive LeafBody where
  | constantValue (index : PoolIndex)
  | exceptions (classes : List PoolIndex)
  | innerClasses (classes : List InnerClass)
  | enclosingMethod (classIndex methodIndex : PoolIndex)
  | synthetic
  | deprecated
  | signature (index : PoolIndex)
  | sourceFile (index : PoolIndex)
  | sourceDebugExtension (text : Bytes)
  | lineNumberTable (lines : List LineNumber)
  | localVariableTable (locals : List LocalVariable)
  | localVariableTypeTable (locals : List LocalVariable)
  | stackMapTable (frames : List StackMapFrame)
  | bootstrapMethods (methods : List BootstrapMethod)
  | methodParameters (parameters : List MethodParameter)
  | nestHost (index : PoolIndex)
  | nestMembers (classes : List PoolIndex)
  | permittedSubclasses (classes : List PoolIndex)
  | moduleInfo (info : ModuleInfo)
  | modulePackages (packages : List PoolIndex)
  | moduleMainClass (index : PoolIndex)
  | annotations (retention : Retention) (items : List AnnotationUse)
  | parameterAnnotations (retention : Retention) (parameters : List (List AnnotationUse))
  | typeAnnotations (retention : Retention) (items : List TypeAnnotationUse)
  | annotationDefault (value : ElementValue)

/-- The code of a method. -/
structure Code (α : Type) where
  maxStack : UInt16
  maxLocals : UInt16
  code : Bytes
  handlers : List ExceptionHandler
  attributes : List α

/-- A component of a record. -/
structure Component (α : Type) where
  nameIndex : PoolIndex
  descriptorIndex : PoolIndex
  attributes : List α

/-- The typed form of an attribute; `α` is what it carries as attributes. -/
inductive Body (α : Type) where
  | leaf (body : LeafBody)
  | code (code : Code α)
  | record (components : List (Component α))

/-- An attribute as it stands in a file. -/
structure RawAttribute where
  nameIndex : PoolIndex
  info : Bytes
  deriving DecidableEq, Repr

/-! ## Layout of the leaves -/

namespace LeafBody

/-- Lists of annotations. -/
def annotationsCodec : Codec (List AnnotationUse) :=
  .measured fun left => (AnnotationUse.codec left).table2

/-- A list of annotations for each parameter. -/
def parametersCodec : Codec (List (List AnnotationUse)) :=
  .measured fun left => (AnnotationUse.codec left).table2.table1

/-- Lists of type annotations. -/
def typeAnnotationsCodec : Codec (List TypeAnnotationUse) :=
  .measured fun left => (TypeAnnotationUse.codec left).table2

/-- A single element value. -/
def defaultCodec : Codec ElementValue :=
  .measured fun left => ⟨ElementValue.read left, ElementValue.write⟩

/-- The bytes of a body. -/
def write : LeafBody → Except WriteError Bytes
  | .constantValue index => Codec.u2.write index
  | .exceptions classes => Codec.words.write classes
  | .innerClasses classes => InnerClass.codec.table2.write classes
  | .enclosingMethod classIndex methodIndex =>
    (Codec.u2.pair Codec.u2).write (classIndex, methodIndex)
  | .synthetic => .ok []
  | .deprecated => .ok []
  | .signature index => Codec.u2.write index
  | .sourceFile index => Codec.u2.write index
  | .sourceDebugExtension text => Codec.rest.write text
  | .lineNumberTable lines => LineNumber.codec.table2.write lines
  | .localVariableTable locals => LocalVariable.codec.table2.write locals
  | .localVariableTypeTable locals => LocalVariable.codec.table2.write locals
  | .stackMapTable frames => StackMapFrame.codec.table2.write frames
  | .bootstrapMethods methods => BootstrapMethod.codec.table2.write methods
  | .methodParameters parameters => MethodParameter.codec.table1.write parameters
  | .nestHost index => Codec.u2.write index
  | .nestMembers classes => Codec.words.write classes
  | .permittedSubclasses classes => Codec.words.write classes
  | .moduleInfo info => ModuleInfo.codec.write info
  | .modulePackages packages => Codec.words.write packages
  | .moduleMainClass index => Codec.u2.write index
  | .annotations _ items => annotationsCodec.write items
  | .parameterAnnotations _ parameters => parametersCodec.write parameters
  | .typeAnnotations _ items => typeAnnotationsCodec.write items
  | .annotationDefault value => defaultCodec.write value

/-- The attribute that a body belongs to. -/
def kind : LeafBody → AttributeKind
  | .constantValue _ => .constantValue
  | .exceptions _ => .exceptions
  | .innerClasses _ => .innerClasses
  | .enclosingMethod _ _ => .enclosingMethod
  | .synthetic => .synthetic
  | .deprecated => .deprecated
  | .signature _ => .signature
  | .sourceFile _ => .sourceFile
  | .sourceDebugExtension _ => .sourceDebugExtension
  | .lineNumberTable _ => .lineNumberTable
  | .localVariableTable _ => .localVariableTable
  | .localVariableTypeTable _ => .localVariableTypeTable
  | .stackMapTable _ => .stackMapTable
  | .bootstrapMethods _ => .bootstrapMethods
  | .methodParameters _ => .methodParameters
  | .nestHost _ => .nestHost
  | .nestMembers _ => .nestMembers
  | .permittedSubclasses _ => .permittedSubclasses
  | .moduleInfo _ => .moduleInfo
  | .modulePackages _ => .modulePackages
  | .moduleMainClass _ => .moduleMainClass
  | .annotations .visible _ => .visibleAnnotations
  | .annotations .invisible _ => .invisibleAnnotations
  | .parameterAnnotations .visible _ => .visibleParameterAnnotations
  | .parameterAnnotations .invisible _ => .invisibleParameterAnnotations
  | .typeAnnotations .visible _ => .visibleTypeAnnotations
  | .typeAnnotations .invisible _ => .invisibleTypeAnnotations
  | .annotationDefault _ => .annotationDefault

/-- The indices that a body stores, in the order of the layout, zeros included. -/
def references : LeafBody → List PoolIndex
  | .constantValue index => [index]
  | .exceptions classes => classes
  | .innerClasses classes =>
    classes.flatMap fun k => [k.innerIndex, k.outerIndex, k.nameIndex]
  | .enclosingMethod classIndex methodIndex => [classIndex, methodIndex]
  | .synthetic => []
  | .deprecated => []
  | .signature index => [index]
  | .sourceFile index => [index]
  | .sourceDebugExtension _ => []
  | .lineNumberTable _ => []
  | .localVariableTable locals => locals.flatMap fun v => [v.nameIndex, v.typeIndex]
  | .localVariableTypeTable locals => locals.flatMap fun v => [v.nameIndex, v.typeIndex]
  | .stackMapTable frames => frames.flatMap StackMapFrame.objects
  | .bootstrapMethods methods => methods.flatMap fun m => m.methodIndex :: m.arguments
  | .methodParameters parameters => parameters.map MethodParameter.nameIndex
  | .nestHost index => [index]
  | .nestMembers classes => classes
  | .permittedSubclasses classes => classes
  | .moduleInfo info => info.references
  | .modulePackages packages => packages
  | .moduleMainClass index => [index]
  | .annotations _ items => items.flatMap AnnotationUse.references
  | .parameterAnnotations _ parameters =>
    parameters.flatMap fun items => items.flatMap AnnotationUse.references
  | .typeAnnotations _ items => items.flatMap fun a => a.inner.references
  | .annotationDefault value => value.references

end LeafBody

/-! ## Raw attribute tables -/

namespace RawAttribute

/-- The payload of attribute number `ordinal` of a table. -/
def readPayload (ordinal : Nat) (length : UInt32) : Reader Bytes := fun c =>
  if length.toNat > 0x7FFFFFFF then
    .error ⟨c.pos, .attributeTooLong ordinal length c.rest.length⟩
  else
    Reader.bytesOr length.toNat (.attributeTooLong ordinal length) c

/-- `n` attributes; the first is number `ordinal` of its table. -/
def readRows : (n ordinal : Nat) → Reader (List RawAttribute)
  | 0, _ => pure []
  | n + 1, ordinal => do
    let nameIndex ← Reader.u2
    let length ← Reader.u4
    let info ← readPayload ordinal length
    let more ← readRows n (ordinal + 1)
    return ⟨nameIndex, info⟩ :: more

/-- A table of attributes: a two-byte count, and for each attribute its name index, the length
of its payload in four bytes, and the payload. -/
def readTable : Reader (List RawAttribute) := do
  let count ← Reader.u2
  readRows count.toNat 0

end RawAttribute

/-! ## All bodies -/

namespace Code

variable {α β : Type}

/-- The bytes of a code body in front of its attributes. -/
def writeHead (c : Code α) : Except WriteError Bytes :=
  (ExceptionHandler.codec.table2.write c.handlers).map fun handlers =>
    Bytes.ofU2 c.maxStack ++ (Bytes.ofU2 c.maxLocals ++
      (Bytes.ofU4 (UInt32.ofNat c.code.length) ++ (c.code ++ handlers)))

/-- A code body whose attributes are still raw. -/
def read : Reader (Code RawAttribute) := do
  let maxStack ← Reader.u2
  let maxLocals ← Reader.u2
  let length ← Reader.u4
  let code ← Reader.bytesOr length.toNat fun _ => .codeTooLong length
  let handlers ← ExceptionHandler.codec.table2.read
  let attributes ← RawAttribute.readTable
  return ⟨maxStack, maxLocals, code, handlers, attributes⟩

/-- The same body with other attributes. -/
def map (f : α → β) (c : Code α) : Code β :=
  ⟨c.maxStack, c.maxLocals, c.code, c.handlers, c.attributes.map f⟩

end Code

namespace Component

variable {α β : Type}

/-- A component whose attributes are still raw. -/
def read : Reader (Component RawAttribute) := do
  let nameIndex ← Reader.u2
  let descriptorIndex ← Reader.u2
  let attributes ← RawAttribute.readTable
  return ⟨nameIndex, descriptorIndex, attributes⟩

/-- The same component with other attributes. -/
def map (f : α → β) (c : Component α) : Component β :=
  ⟨c.nameIndex, c.descriptorIndex, c.attributes.map f⟩

end Component

namespace Body

variable {α β : Type}

/-- A body with the layout of a leaf. -/
def readLeaf (make : α → LeafBody) (layout : Codec α) : Reader (Body RawAttribute) := do
  let v ← layout.read
  return .leaf (make v)

/-- The body of an attribute of the given kind, its own attributes still raw. -/
def read : AttributeKind → Reader (Body RawAttribute)
  | .code => do
    let code ← Code.read
    return .code code
  | .record => do
    let count ← Reader.u2
    let components ← Reader.times count.toNat Component.read
    return .record components
  | .constantValue => readLeaf .constantValue Codec.u2
  | .exceptions => readLeaf .exceptions Codec.words
  | .innerClasses => readLeaf .innerClasses InnerClass.codec.table2
  | .enclosingMethod =>
    readLeaf (fun (classIndex, methodIndex) => .enclosingMethod classIndex methodIndex)
      (Codec.u2.pair Codec.u2)
  | .synthetic => readLeaf (fun _ => .synthetic) (Codec.nothing ())
  | .deprecated => readLeaf (fun _ => .deprecated) (Codec.nothing ())
  | .signature => readLeaf .signature Codec.u2
  | .sourceFile => readLeaf .sourceFile Codec.u2
  | .sourceDebugExtension => readLeaf .sourceDebugExtension Codec.rest
  | .lineNumberTable => readLeaf .lineNumberTable LineNumber.codec.table2
  | .localVariableTable => readLeaf .localVariableTable LocalVariable.codec.table2
  | .localVariableTypeTable => readLeaf .localVariableTypeTable LocalVariable.codec.table2
  | .stackMapTable => readLeaf .stackMapTable StackMapFrame.codec.table2
  | .bootstrapMethods => readLeaf .bootstrapMethods BootstrapMethod.codec.table2
  | .methodParameters => readLeaf .methodParameters MethodParameter.codec.table1
  | .nestHost => readLeaf .nestHost Codec.u2
  | .nestMembers => readLeaf .nestMembers Codec.words
  | .permittedSubclasses => readLeaf .permittedSubclasses Codec.words
  | .moduleInfo => readLeaf .moduleInfo ModuleInfo.codec
  | .modulePackages => readLeaf .modulePackages Codec.words
  | .moduleMainClass => readLeaf .moduleMainClass Codec.u2
  | .visibleAnnotations => readLeaf (.annotations .visible) LeafBody.annotationsCodec
  | .invisibleAnnotations => readLeaf (.annotations .invisible) LeafBody.annotationsCodec
  | .visibleParameterAnnotations =>
    readLeaf (.parameterAnnotations .visible) LeafBody.parametersCodec
  | .invisibleParameterAnnotations =>
    readLeaf (.parameterAnnotations .invisible) LeafBody.parametersCodec
  | .visibleTypeAnnotations => readLeaf (.typeAnnotations .visible) LeafBody.typeAnnotationsCodec
  | .invisibleTypeAnnotations =>
    readLeaf (.typeAnnotations .invisible) LeafBody.typeAnnotationsCodec
  | .annotationDefault => readLeaf .annotationDefault LeafBody.defaultCodec

/-- The body that a whole payload spells, its own attributes still raw. -/
def ofPayload (kind : AttributeKind) (info : Bytes) : Except Fault (Body RawAttribute) :=
  match read kind (.ofBytes info) with
  | .error fault => .error fault
  | .ok (body, ⟨_, []⟩) => .ok body
  | .ok (_, ⟨pos, rest⟩) => .error ⟨pos, .attributeTrailing kind.name rest.length⟩

/-- The same body with other attributes. -/
def map (f : α → β) : Body α → Body β
  | .leaf body => .leaf body
  | .code c => .code (c.map f)
  | .record components => .record (components.map (Component.map f))

/-- The attribute that a body belongs to. -/
def kind : Body α → AttributeKind
  | .leaf body => body.kind
  | .code _ => .code
  | .record _ => .record

/-- The indices that a body itself stores, in the order of the layout, zeros included. What its
own attributes store is not counted. -/
def references : Body α → List PoolIndex
  | .leaf body => body.references
  | .code c => c.handlers.map ExceptionHandler.catchType
  | .record components => components.flatMap fun c => [c.nameIndex, c.descriptorIndex]

end Body

end ClassPrune
