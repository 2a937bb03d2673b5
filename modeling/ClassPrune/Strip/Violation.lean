import ClassPrune.Attribute.Kind
import ClassPrune.Code.Decoding

/-!
# Violations

Why an attribute may not stay where it is.

- `Role`: the part that an index plays in an attribute.
- `Violation`: the rule that an attribute breaks, with `Violation.message`.
-/

namespace ClassPrune

/-- The part that a pool index plays in an attribute. -/
inductive Role where
  | attributeName
  | constantValue
  | exception
  | innerClass
  | outerClass
  | innerName
  | enclosingClass
  | enclosingMethod
  | signature
  | sourceFile
  | localVariable
  | localVariableType
  | stackMapObject
  | bootstrapMethod (ordinal : Nat)
  | parameterName
  | nestHost
  | nestMember
  | permittedSubclass
  | componentName
  | componentDescriptor
  | package
  | mainClass
  | operand (op : Opcode)
  | catchType
  | moduleName
  | moduleVersion
  | requires
  | requiresVersion
  | exports
  | exportsTo
  | opens
  | opensTo
  | uses
  | provides
  | providesWith
  | annotationType
  | elementName
  | enumType
  | enumConstant
  | classElement
  | elementValue (tag : UInt8)
  deriving DecidableEq, Repr

/-- The words for a role in messages. -/
def Role.name : Role → String
  | .attributeName => "attribute name"
  | .constantValue => "constant value"
  | .exception => "exception"
  | .innerClass => "inner class"
  | .outerClass => "outer class"
  | .innerName => "inner name"
  | .enclosingClass => "enclosing class"
  | .enclosingMethod => "enclosing method"
  | .signature => "signature"
  | .sourceFile => "source file"
  | .localVariable => "local variable"
  | .localVariableType => "local variable type"
  | .stackMapObject => "stack map object"
  | .bootstrapMethod ordinal => s!"bootstrap method {ordinal}"
  | .parameterName => "parameter name"
  | .nestHost => "nest host"
  | .nestMember => "nest member"
  | .permittedSubclass => "permitted subclass"
  | .componentName => "record component name"
  | .componentDescriptor => "record component descriptor"
  | .package => "package"
  | .mainClass => "main class"
  | .operand op => s!"{op.name} operand"
  | .catchType => "catch type"
  | .moduleName => "module name"
  | .moduleVersion => "module version"
  | .requires => "requires"
  | .requiresVersion => "requires version"
  | .exports => "exports"
  | .exportsTo => "exports to"
  | .opens => "opens"
  | .opensTo => "opens to"
  | .uses => "uses"
  | .provides => "provides"
  | .providesWith => "provides with"
  | .annotationType => "annotation type"
  | .elementName => "element name"
  | .enumType => "enum type"
  | .enumConstant => "enum constant"
  | .classElement => "class element"
  | .elementValue tag => s!"element value {Text.quoteByte tag}"

/-- A rule that an attribute breaks. -/
inductive Violation where
  /-- The index names no constant. -/
  | outsidePool (role : Role) (index : PoolIndex)
  /-- The index names a constant of another kind than the role allows. -/
  | wrongKind (role : Role) (index : PoolIndex) (found : Tag) (wanted : List Tag)
  | notFieldDescriptor (role : Role) (text : String)
  | notReturnDescriptor (text : String)
  | notClassName (text : String)
  | argumentOutsidePool (ordinal : Nat) (index : PoolIndex)
  | argumentNotLoadable (ordinal : Nat) (index : PoolIndex) (found : Tag)
  /-- The attribute may not stand on this kind of holder. -/
  | misplaced (context : Context)
  /-- The attribute has no typed form. -/
  | undecoded
  | codeWithoutBody
  | badCode (error : DecodeError)
  | parametersOutsideMethod
  | tooManyParameters (count : Nat) (descriptor : String)
  | enumWithoutValue
  | nestedWithoutValue
  | arrayWithoutValues
  | unknownElementTag (tag : UInt8)
  deriving DecidableEq, Repr

def Violation.message : Violation → String
  | .outsidePool role index => s!"{role.name} index {index.toNat} is outside the pool"
  | .wrongKind role index found wanted =>
    s!"{role.name} index {index.toNat} is {found.name}, want " ++
      "|".intercalate (wanted.map Tag.name)
  | .notFieldDescriptor role text =>
    s!"{role.name} {Text.quote text} is not a field descriptor"
  | .notReturnDescriptor text =>
    s!"{Role.classElement.name} {Text.quote text} is not a return descriptor"
  | .notClassName text => s!"{Role.catchType.name} {Text.quote text} is not a class name"
  | .argumentOutsidePool ordinal index =>
    s!"{(Role.bootstrapMethod ordinal).name} argument {index.toNat} is outside the pool"
  | .argumentNotLoadable ordinal index found =>
    s!"{(Role.bootstrapMethod ordinal).name} argument {index.toNat} is {found.name}, " ++
      "which is not loadable"
  | .misplaced context => s!"not permitted on a {context.name}"
  | .undecoded => "payload does not decode"
  | .codeWithoutBody => "code on an abstract or native method"
  | .badCode error => s!"instructions do not decode: {error.message}"
  | .parametersOutsideMethod => "parameter annotations outside a method"
  | .tooManyParameters count descriptor =>
    s!"{count} parameter annotation lists for descriptor {Text.quote descriptor}"
  | .enumWithoutValue => "enum element without a value"
  | .nestedWithoutValue => "nested annotation without a value"
  | .arrayWithoutValues => "array element without values"
  | .unknownElementTag tag => s!"element value tag {Text.quoteByte tag}"

end ClassPrune
