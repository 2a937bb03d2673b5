import ClassPrune.Codec

/-!
# Annotations

Annotations give element names their values, and a value may hold further annotations and
values. The tag of an element value says what kind of constant it names; its content is kept
apart from the tag, so that a value made in memory may have content that its tag does not allow,
or none at all.

- `ElementValue`, `AnnotationUse`, `TypeAnnotationUse`: the structures.
- `ElementValue.read`, `ElementValue.write`: their layout. Every nested value takes at least one
  byte, so the number of bytes left bounds the depth of nesting.
- `ElementValue.references`: the indices that they store.
-/

namespace ClassPrune

/-- An annotation: its type, and element names with their values. -/
structure AnnotationOf (α : Type) where
  typeIndex : PoolIndex
  pairs : List (PoolIndex × α)
  deriving Repr

/-- The value of an annotation element. -/
inductive ElementValue where
  /-- A value without content, which cannot be written. -/
  | empty (tag : UInt8)
  | constant (tag : UInt8) (index : PoolIndex)
  | enumConstant (tag : UInt8) (typeIndex nameIndex : PoolIndex)
  | nested (tag : UInt8) (inner : AnnotationOf ElementValue)
  | array (tag : UInt8) (values : List ElementValue)

/-- An annotation with its element values. -/
abbrev AnnotationUse := AnnotationOf ElementValue

/-- One step into a compound type. -/
structure PathStep where
  kind : UInt8
  argument : UInt8
  deriving DecidableEq, Repr

/-- An annotation on a type: what it is attached to, the way into that type, and the annotation
proper. -/
structure TypeAnnotationUse where
  targetType : UInt8
  targetInfo : Bytes
  path : List PathStep
  inner : AnnotationUse

/-! ## Element values -/

/-- What the tag of an element value asks for. -/
inductive ElementForm where
  | constant
  | enumConstant
  | nested
  | array
  deriving DecidableEq, Repr

/-- The kind of constant that a constant tag asks for. -/
def constantTagOf? (tag : UInt8) : Option Tag :=
  match Char.ofNat tag.toNat with
  | 'B' | 'C' | 'I' | 'S' | 'Z' => some .integer
  | 'D' => some .double
  | 'F' => some .float
  | 'J' => some .long
  | 's' | 'c' => some .utf8
  | _ => none

/-- The form that a tag asks for. -/
def ElementForm.ofTag? (tag : UInt8) : Option ElementForm :=
  match Char.ofNat tag.toNat with
  | 'e' => some .enumConstant
  | '@' => some .nested
  | '[' => some .array
  | _ => (constantTagOf? tag).map fun _ => .constant

/-- An annotation whose values are read by `value`. -/
def readAnnotationUse {α : Type} (value : Reader α) : Reader (AnnotationOf α) := do
  let typeIndex ← Reader.u2
  let count ← Reader.u2
  let pairs ← Reader.times count.toNat do
    let name ← Reader.u2
    let v ← value
    return (name, v)
  return ⟨typeIndex, pairs⟩

namespace ElementValue

/-- The tag of a value. -/
def tag : ElementValue → UInt8
  | .empty tag | .constant tag _ | .enumConstant tag _ _ | .nested tag _ | .array tag _ => tag

/-- A value that is nested at most `depth` deep; `depth` is at least the number of bytes left. -/
def read : (depth : Nat) → Reader ElementValue
  | 0 => Reader.fail .unexpectedEnd
  | depth + 1 => do
    let tag ← Reader.u1
    match ElementForm.ofTag? tag with
    | some .constant => do
      let index ← Reader.u2
      return .constant tag index
    | some .enumConstant => do
      let typeIndex ← Reader.u2
      let nameIndex ← Reader.u2
      return .enumConstant tag typeIndex nameIndex
    | some .nested => do
      let inner ← readAnnotationUse (read depth)
      return .nested tag inner
    | some .array => do
      let count ← Reader.u2
      let values ← Reader.times count.toNat (read depth)
      return .array tag values
    | none => Reader.fail (.unknownElementTag tag)

mutual

/-- The bytes of a value. -/
def write : ElementValue → Except WriteError Bytes
  | .empty tag => .error (.invalid ⟨0, .emptyElementValue tag⟩)
  | .constant tag index => .ok (tag :: Bytes.ofU2 index)
  | .enumConstant tag typeIndex nameIndex =>
    .ok (tag :: (Bytes.ofU2 typeIndex ++ Bytes.ofU2 nameIndex))
  | .nested tag ⟨typeIndex, pairs⟩ =>
    (Codec.withCount2 pairs.length (writePairs pairs)).map fun rows =>
      tag :: (Bytes.ofU2 typeIndex ++ rows)
  | .array tag values =>
    (Codec.withCount2 values.length (writeValues values)).map fun rows => tag :: rows

/-- The bytes of values, one after the other. -/
def writeValues : List ElementValue → Except WriteError Bytes
  | [] => .ok []
  | v :: vs => do
    let front ← write v
    let back ← writeValues vs
    return front ++ back

/-- The bytes of element names with their values. -/
def writePairs : List (PoolIndex × ElementValue) → Except WriteError Bytes
  | [] => .ok []
  | (name, v) :: more => do
    let front ← write v
    let back ← writePairs more
    return Bytes.ofU2 name ++ front ++ back

end

mutual

/-- The indices that a value stores, in the order of the layout. -/
def references : ElementValue → List PoolIndex
  | .empty _ => []
  | .constant _ index => [index]
  | .enumConstant _ typeIndex nameIndex => [typeIndex, nameIndex]
  | .nested _ ⟨typeIndex, pairs⟩ => typeIndex :: pairReferences pairs
  | .array _ values => valueReferences values

/-- The indices that values store. -/
def valueReferences : List ElementValue → List PoolIndex
  | [] => []
  | v :: vs => references v ++ valueReferences vs

/-- The indices that element names and their values store. -/
def pairReferences : List (PoolIndex × ElementValue) → List PoolIndex
  | [] => []
  | (name, v) :: more => name :: references v ++ pairReferences more

end

end ElementValue

/-! ## Annotations -/

namespace AnnotationUse

/-- The layout of an annotation; see `ElementValue.read` for `depth`. -/
def codec (depth : Nat) : Codec AnnotationUse where
  read := readAnnotationUse (ElementValue.read depth)
  write a :=
    (Codec.withCount2 a.pairs.length (ElementValue.writePairs a.pairs)).map fun rows =>
      Bytes.ofU2 a.typeIndex ++ rows

/-- The indices that an annotation stores. -/
def references (a : AnnotationUse) : List PoolIndex :=
  a.typeIndex :: ElementValue.pairReferences a.pairs

end AnnotationUse

/-! ## Type annotations -/

/-- How long the description of a target is. -/
inductive TargetSize where
  | fixed (length : Nat)
  /-- A two-byte count and six bytes per row. -/
  | ranges
  deriving DecidableEq, Repr

/-- How long the description of a target of the given type is. -/
def TargetSize.ofType? (targetType : UInt8) : Option TargetSize :=
  match targetType.toNat with
  | 0x00 | 0x01 | 0x16 => some (.fixed 1)
  | 0x10 | 0x11 | 0x12 | 0x17 | 0x42 | 0x43 | 0x44 | 0x45 | 0x46 => some (.fixed 2)
  | 0x13 | 0x14 | 0x15 => some (.fixed 0)
  | 0x40 | 0x41 => some .ranges
  | 0x47 | 0x48 | 0x49 | 0x4A | 0x4B => some (.fixed 3)
  | _ => none

/-- The type of a target and its description, which is kept as it is. -/
def targetCodec : Codec (UInt8 × Bytes) where
  read := do
    let targetType ← Reader.u1
    match TargetSize.ofType? targetType with
    | some (.fixed length) => do
      let info ← Reader.bytes length
      return (targetType, info)
    | some .ranges => do
      let count ← Reader.peek2
      let info ← Reader.bytes (2 + 6 * count.toNat)
      return (targetType, info)
    | none => Reader.fail (.unknownTarget targetType)
  write v := .ok (v.1 :: v.2)

namespace PathStep

def codec : Codec PathStep :=
  (Codec.u1.pair Codec.u1).iso (fun (kind, argument) => ⟨kind, argument⟩)
    (fun s => (s.kind, s.argument))

end PathStep

namespace TypeAnnotationUse

/-- The layout of a type annotation; see `ElementValue.read` for `depth`. -/
def codec (depth : Nat) : Codec TypeAnnotationUse :=
  (targetCodec.pair (PathStep.codec.table1.pair (AnnotationUse.codec depth))).iso
    (fun ((targetType, targetInfo), path, inner) =>
      ⟨targetType, targetInfo, path, inner⟩)
    (fun a => ((a.targetType, a.targetInfo), a.path, a.inner))

end TypeAnnotationUse

end ClassPrune
