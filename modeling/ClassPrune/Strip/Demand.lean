import ClassPrune.Class.Basic
import ClassPrune.Strip.Violation

/-!
# Demands

What an attribute asks of the constant pool, one index at a time. The demands of a body are a
list, in the order in which they are tested; the attribute is legal when all of them are met.

- `Demand.test`: the violation that a pool commits against one demand, if any.
- `LeafBody.demands`, `codeDemands`, `componentDemands`: the demands of the typed bodies.
- `firstViolation?`: the first demand of a list that is not met.
-/

namespace ClassPrune

/-- One thing that an attribute asks of the pool. -/
inductive Demand where
  /-- The index names a constant of one of the wanted kinds. -/
  | kind (role : Role) (index : PoolIndex) (wanted : List Tag)
  /-- The index names text that is a field descriptor. -/
  | fieldDescriptor (role : Role) (index : PoolIndex)
  /-- The index names text that is a field descriptor or `V`. -/
  | returnDescriptor (index : PoolIndex)
  /-- The index names a class whose name is not that of an array. -/
  | catchType (index : PoolIndex)
  /-- The index names a constant that a bootstrap method can take as an argument. -/
  | argument (ordinal : Nat) (index : PoolIndex)
  /-- The method has at least this many parameters. -/
  | parameters (count : Nat) (descriptorIndex : PoolIndex)
  /-- Cannot be met. -/
  | never (violation : Violation)
  deriving DecidableEq, Repr

namespace Demand

/-- A demand on an index that may be zero. -/
def optional (role : Role) (index : PoolIndex) (wanted : List Tag) : List Demand :=
  if index = 0 then [] else [.kind role index wanted]

/-- The same demand on each of several indices. -/
def each (role : Role) (indices : List PoolIndex) (wanted : List Tag) : List Demand :=
  indices.map fun index => .kind role index wanted

/-- Whether the index names a constant of one of the wanted kinds. -/
def testKind (p : Pool) (role : Role) (index : PoolIndex) (wanted : List Tag) :
    Option Violation :=
  match p.tag? index with
  | none => some (.outsidePool role index)
  | some found => if found ∈ wanted then none else some (.wrongKind role index found wanted)

/-- The violation against a demand; nothing when the demand is met. -/
def test (p : Pool) : Demand → Option Violation
  | .kind role index wanted => testKind p role index wanted
  | .fieldDescriptor role index =>
    testKind p role index [.utf8] <|>
      let text := p.utf8 index
      if (Descriptor.parse text).isField then none else some (.notFieldDescriptor role text)
  | .returnDescriptor index =>
    testKind p .classElement index [.utf8] <|>
      let text := p.utf8 index
      if text = "V" ∨ (Descriptor.parse text).isField then none
      else some (.notReturnDescriptor text)
  | .catchType index =>
    testKind p .catchType index [.classRef] <|>
      let text := p.className index
      if isBinaryName text.toList then none else some (.notClassName text)
  | .argument ordinal index =>
    match p.tag? index with
    | none => some (.argumentOutsidePool ordinal index)
    | some found =>
      if found.isLoadable then none else some (.argumentNotLoadable ordinal index found)
  | .parameters count descriptorIndex =>
    let text := p.utf8 descriptorIndex
    if (Descriptor.parse text).parameterCount?.any (count ≤ ·) then none
    else some (.tooManyParameters count text)
  | .never violation => some violation

end Demand

/-- The first demand that is not met, as a violation. -/
def firstViolation? (p : Pool) (demands : List Demand) : Option Violation :=
  demands.findSome? (Demand.test p)

open Demand (optional each)

/-! ## Annotations -/

namespace ElementValue

/-- The demands of a tag on an index. -/
def indexDemands (tag : UInt8) (index : PoolIndex) : List Demand :=
  match ElementForm.ofTag? tag, constantTagOf? tag with
  | some .enumConstant, _ => [.never .enumWithoutValue]
  | some .nested, _ => [.never .nestedWithoutValue]
  | some .array, _ => [.never .arrayWithoutValues]
  | some .constant, some wanted =>
    if Char.ofNat tag.toNat = 'c' then [.returnDescriptor index]
    else [.kind (.elementValue tag) index [wanted]]
  | _, _ => [.never (.unknownElementTag tag)]

mutual

/-- The demands of an element value. The tag decides what is asked; content that does not fit
the tag counts as index zero, or as missing. -/
def demands : ElementValue → List Demand
  | .empty tag => indexDemands tag 0
  | .constant tag index => indexDemands tag index
  | .enumConstant tag typeIndex nameIndex =>
    if ElementForm.ofTag? tag = some .enumConstant then
      [.fieldDescriptor .enumType typeIndex, .kind .enumConstant nameIndex [.utf8]]
    else indexDemands tag 0
  | .nested tag ⟨typeIndex, pairs⟩ =>
    if ElementForm.ofTag? tag = some .nested then
      .fieldDescriptor .annotationType typeIndex :: pairDemands pairs
    else indexDemands tag 0
  | .array tag values =>
    if ElementForm.ofTag? tag = some .array then valueDemands values else indexDemands tag 0

/-- The demands of values, one after the other. -/
def valueDemands : List ElementValue → List Demand
  | [] => []
  | v :: vs => demands v ++ valueDemands vs

/-- The demands of element names and their values. -/
def pairDemands : List (PoolIndex × ElementValue) → List Demand
  | [] => []
  | (name, v) :: more => .kind .elementName name [.utf8] :: (demands v ++ pairDemands more)

end

end ElementValue

/-- The demands of an annotation. -/
def AnnotationUse.demands (a : AnnotationUse) : List Demand :=
  .fieldDescriptor .annotationType a.typeIndex :: ElementValue.pairDemands a.pairs

/-! ## Other bodies -/

/-- The demands of bootstrap methods, the first being number `ordinal`. -/
def bootstrapDemands : (ordinal : Nat) → List BootstrapMethod → List Demand
  | _, [] => []
  | ordinal, m :: more =>
    .kind (.bootstrapMethod ordinal) m.methodIndex [.methodHandle] ::
      (m.arguments.map (.argument ordinal) ++ bootstrapDemands (ordinal + 1) more)

/-- The demands of the declaration of a module. -/
def ModuleInfo.demands (m : ModuleInfo) : List Demand :=
  .kind .moduleName m.nameIndex [.moduleRef] ::
    (optional .moduleVersion m.versionIndex [.utf8]
      ++ m.requires.flatMap (fun r =>
        .kind .requires r.moduleIndex [.moduleRef] ::
          optional .requiresVersion r.versionIndex [.utf8])
      ++ m.exports.flatMap (fun e =>
        .kind .exports e.packageIndex [.packageRef] :: each .exportsTo e.targets [.moduleRef])
      ++ m.opens.flatMap (fun o =>
        .kind .opens o.packageIndex [.packageRef] :: each .opensTo o.targets [.moduleRef])
      ++ each .uses m.uses [.classRef]
      ++ m.provides.flatMap (fun p =>
        .kind .provides p.serviceIndex [.classRef] ::
          each .providesWith p.providers [.classRef]))

/-- The kinds that the value of a constant field may have. -/
def fieldConstantTags : List Tag := [.integer, .float, .long, .double, .classRef, .string]

/-- The demands of a body without attributes of its own; `method` is the method around it. -/
def LeafBody.demands (method : Option Member) : LeafBody → List Demand
  | .constantValue index => [.kind .constantValue index fieldConstantTags]
  | .exceptions classes => each .exception classes [.classRef]
  | .innerClasses classes =>
    classes.flatMap fun k =>
      .kind .innerClass k.innerIndex [.classRef] ::
        (optional .outerClass k.outerIndex [.classRef]
          ++ optional .innerName k.nameIndex [.utf8])
  | .enclosingMethod classIndex methodIndex =>
    .kind .enclosingClass classIndex [.classRef] ::
      optional .enclosingMethod methodIndex [.nameAndType]
  | .synthetic => []
  | .deprecated => []
  | .signature index => [.kind .signature index [.utf8]]
  | .sourceFile index => [.kind .sourceFile index [.utf8]]
  | .sourceDebugExtension _ => []
  | .lineNumberTable _ => []
  | .localVariableTable locals =>
    locals.flatMap fun v => each .localVariable [v.nameIndex, v.typeIndex] [.utf8]
  | .localVariableTypeTable locals =>
    locals.flatMap fun v => each .localVariableType [v.nameIndex, v.typeIndex] [.utf8]
  | .stackMapTable frames =>
    each .stackMapObject (frames.flatMap StackMapFrame.objects) [.classRef]
  | .bootstrapMethods methods => bootstrapDemands 0 methods
  | .methodParameters parameters =>
    parameters.flatMap fun p => optional .parameterName p.nameIndex [.utf8]
  | .nestHost index => [.kind .nestHost index [.classRef]]
  | .nestMembers classes => each .nestMember classes [.classRef]
  | .permittedSubclasses classes => each .permittedSubclass classes [.classRef]
  | .moduleInfo info => info.demands
  | .modulePackages packages => each .package packages [.packageRef]
  | .moduleMainClass index => [.kind .mainClass index [.classRef]]
  | .annotations _ items => items.flatMap AnnotationUse.demands
  | .parameterAnnotations _ parameters =>
    match method with
    | none => [.never .parametersOutsideMethod]
    | some m =>
      .parameters parameters.length m.descriptorIndex ::
        parameters.flatMap fun items => items.flatMap AnnotationUse.demands
  | .typeAnnotations _ items => items.flatMap fun a => a.inner.demands
  | .annotationDefault value => value.demands

/-- The kinds of constant that an instruction may name. -/
def operandTags (op : Opcode) : List Tag :=
  if op = .ldc ∨ op = .ldcW then
    [.integer, .float, .classRef, .string, .methodHandle, .methodType, .dynamic]
  else if op = .ldc2W then [.long, .double, .dynamic]
  else if op = .getstatic ∨ op = .putstatic ∨ op = .getfield ∨ op = .putfield then [.fieldref]
  else if op = .invokevirtual then [.methodref]
  else if op = .invokespecial ∨ op = .invokestatic then [.methodref, .interfaceMethodref]
  else if op = .invokeinterface then [.interfaceMethodref]
  else if op = .invokedynamic then [.invokeDynamic]
  else [.classRef]

/-- The demand of an instruction, if it names a constant. -/
def Instruction.demand? : Instruction → Option Demand
  | .constant op index _ => some (.kind (.operand op) index (operandTags op))
  | _ => none

/-- The demands of instructions and exception handlers. A handler of catch type zero catches
everything. -/
def codeDemands (insns : List Instruction) (handlers : List ExceptionHandler) : List Demand :=
  insns.filterMap Instruction.demand?
    ++ handlers.filterMap fun h => if h.catchType = 0 then none else some (.catchType h.catchType)

/-- The demands of record components. -/
def componentDemands {α : Type} (components : List (Component α)) : List Demand :=
  components.flatMap fun c =>
    [.kind .componentName c.nameIndex [.utf8],
      .fieldDescriptor .componentDescriptor c.descriptorIndex]

end ClassPrune
