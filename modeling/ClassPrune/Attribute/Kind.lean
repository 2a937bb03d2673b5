/-!
# Attribute kinds

The thirty attributes with a typed form, their names, and the holders on which each may stand.

- `AttributeKind.ofName?`: the kind that a name stands for.
- `Context`: the kinds of holder.
- `permitted`: whether an attribute of a given name may stand on a holder.
-/

namespace ClassPrune

/-- An attribute with a typed form. -/
inductive AttributeKind where
  | code
  | constantValue
  | exceptions
  | innerClasses
  | enclosingMethod
  | synthetic
  | deprecated
  | signature
  | sourceFile
  | sourceDebugExtension
  | lineNumberTable
  | localVariableTable
  | localVariableTypeTable
  | stackMapTable
  | bootstrapMethods
  | methodParameters
  | nestHost
  | nestMembers
  | permittedSubclasses
  | record
  | moduleInfo
  | modulePackages
  | moduleMainClass
  | visibleAnnotations
  | invisibleAnnotations
  | visibleParameterAnnotations
  | invisibleParameterAnnotations
  | visibleTypeAnnotations
  | invisibleTypeAnnotations
  | annotationDefault
  deriving DecidableEq, Repr

namespace AttributeKind

/-- Every kind. -/
def all : List AttributeKind :=
  [.code, .constantValue, .exceptions, .innerClasses, .enclosingMethod, .synthetic, .deprecated,
    .signature, .sourceFile, .sourceDebugExtension, .lineNumberTable, .localVariableTable,
    .localVariableTypeTable, .stackMapTable, .bootstrapMethods, .methodParameters, .nestHost,
    .nestMembers, .permittedSubclasses, .record, .moduleInfo, .modulePackages, .moduleMainClass,
    .visibleAnnotations, .invisibleAnnotations, .visibleParameterAnnotations,
    .invisibleParameterAnnotations, .visibleTypeAnnotations, .invisibleTypeAnnotations,
    .annotationDefault]

/-- The name by which a file marks the kind. -/
def name : AttributeKind → String
  | .code => "Code"
  | .constantValue => "ConstantValue"
  | .exceptions => "Exceptions"
  | .innerClasses => "InnerClasses"
  | .enclosingMethod => "EnclosingMethod"
  | .synthetic => "Synthetic"
  | .deprecated => "Deprecated"
  | .signature => "Signature"
  | .sourceFile => "SourceFile"
  | .sourceDebugExtension => "SourceDebugExtension"
  | .lineNumberTable => "LineNumberTable"
  | .localVariableTable => "LocalVariableTable"
  | .localVariableTypeTable => "LocalVariableTypeTable"
  | .stackMapTable => "StackMapTable"
  | .bootstrapMethods => "BootstrapMethods"
  | .methodParameters => "MethodParameters"
  | .nestHost => "NestHost"
  | .nestMembers => "NestMembers"
  | .permittedSubclasses => "PermittedSubclasses"
  | .record => "Record"
  | .moduleInfo => "Module"
  | .modulePackages => "ModulePackages"
  | .moduleMainClass => "ModuleMainClass"
  | .visibleAnnotations => "RuntimeVisibleAnnotations"
  | .invisibleAnnotations => "RuntimeInvisibleAnnotations"
  | .visibleParameterAnnotations => "RuntimeVisibleParameterAnnotations"
  | .invisibleParameterAnnotations => "RuntimeInvisibleParameterAnnotations"
  | .visibleTypeAnnotations => "RuntimeVisibleTypeAnnotations"
  | .invisibleTypeAnnotations => "RuntimeInvisibleTypeAnnotations"
  | .annotationDefault => "AnnotationDefault"

/-- The kind that a name stands for. -/
def ofName? (name : String) : Option AttributeKind :=
  all.find? fun k => k.name = name

end AttributeKind

/-- The kinds of structure that carry attributes. -/
inductive Context where
  | onClass
  | onField
  | onMethod
  | onCode
  | onComponent
  deriving DecidableEq, Repr

namespace Context

/-- The bit of a context in a set of contexts. -/
def bit : Context → UInt8
  | .onClass => 1
  | .onField => 2
  | .onMethod => 4
  | .onCode => 8
  | .onComponent => 16

/-- The words for a context in messages. -/
def name : Context → String
  | .onClass => "class"
  | .onField => "field"
  | .onMethod => "method"
  | .onCode => "code"
  | .onComponent => "record component"

/-- Every context. -/
def all : List Context := [.onClass, .onField, .onMethod, .onCode, .onComponent]

/-- The words for a set of contexts given by its bits: one context has its name, any other set
is shown as a number. -/
def nameOfBits (bits : UInt8) : String :=
  match all.find? fun c => c.bit = bits with
  | some c => c.name
  | none => s!"AttributeContext({bits.toNat})"

end Context

/-- The holders on which an attribute may stand. -/
def AttributeKind.homes : AttributeKind → List Context
  | .code | .exceptions | .methodParameters | .visibleParameterAnnotations
  | .invisibleParameterAnnotations | .annotationDefault => [.onMethod]
  | .constantValue => [.onField]
  | .innerClasses | .enclosingMethod | .sourceFile | .sourceDebugExtension | .bootstrapMethods
  | .nestHost | .nestMembers | .permittedSubclasses | .record | .moduleInfo | .modulePackages
  | .moduleMainClass => [.onClass]
  | .synthetic | .deprecated => [.onClass, .onField, .onMethod]
  | .signature | .visibleAnnotations | .invisibleAnnotations =>
    [.onClass, .onField, .onMethod, .onComponent]
  | .lineNumberTable | .localVariableTable | .localVariableTypeTable | .stackMapTable => [.onCode]
  | .visibleTypeAnnotations | .invisibleTypeAnnotations =>
    [.onClass, .onField, .onMethod, .onCode, .onComponent]

/-- The holders of an attribute as a set of bits. -/
def AttributeKind.homeBits (kind : AttributeKind) : UInt8 :=
  kind.homes.foldl (fun bits c => bits ||| c.bit) 0

/-- Whether an attribute called `name` may stand on one of the holders in a set of contexts.
A name without a typed form may stand anywhere. -/
def permittedBits (name : String) (contexts : UInt8) : Bool :=
  match AttributeKind.ofName? name with
  | some kind => kind.homeBits &&& contexts != 0
  | none => true

/-- Whether an attribute of this kind may stand on a holder of the given context. -/
def AttributeKind.permitted (kind : AttributeKind) (context : Context) : Bool :=
  kind.homes.contains context

end ClassPrune
