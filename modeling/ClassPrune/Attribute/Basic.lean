import ClassPrune.Attribute.Body
import ClassPrune.Pool.Lookup

/-!
# Attributes

An attribute is a name and a payload. Where the name is known and the payload decodes, the
attribute also has its typed body, and that is what is written; otherwise the payload is written
back as it came.

- `Attribute.payload`: the bytes that an attribute is written as.
- `Attribute.ofPayload`: the attribute with a given name index and payload. The typed form is
  kept only when it reproduces the payload exactly.
- `decodeBody`: the typed form of a payload, or the fault in it.
-/

namespace ClassPrune

/-- One attribute. `info` is the payload as it was read; it is written only when there is no
typed body. `malformed` says that the name is known but the payload does not decode. -/
structure Attribute where
  nameIndex : PoolIndex
  info : Bytes
  malformed : Bool
  body : Option (Body Attribute)

namespace Attribute

/-- The name of an attribute. -/
def name (a : Attribute) (pool : Pool) : String := pool.utf8 a.nameIndex

/-- The kind of attribute that the name stands for. -/
def kind? (a : Attribute) (pool : Pool) : Option AttributeKind :=
  AttributeKind.ofName? (a.name pool)

/-- The code body, if the attribute has one. -/
def code? (a : Attribute) : Option (Code Attribute) :=
  match a.body with
  | some (.code c) => some c
  | _ => none

/-- The components of the record body, if the attribute has one. -/
def components? (a : Attribute) : Option (List (Component Attribute)) :=
  match a.body with
  | some (.record components) => some components
  | _ => none

/-! ## Writing -/

/-- One row of an attribute table. -/
def encodeRow (nameIndex : PoolIndex) (payload : Bytes) : Except WriteError Bytes :=
  if payload.length > 0xFFFFFFFF then .error (.invalid ⟨0, .payloadTooLarge payload.length⟩)
  else .ok (Bytes.ofU2 nameIndex ++ (Bytes.ofU4 (UInt32.ofNat payload.length) ++ payload))

mutual

/-- The bytes that an attribute is written as. -/
def payload : Attribute → Except WriteError Bytes
  | ⟨_, info, _, none⟩ => .ok info
  | ⟨_, _, _, some body⟩ => encodeBody body

/-- The bytes of a typed body. -/
def encodeBody : Body Attribute → Except WriteError Bytes
  | .leaf body => body.write
  | .code ⟨maxStack, maxLocals, code, handlers, attributes⟩ => do
    let head ← Code.writeHead (⟨maxStack, maxLocals, code, handlers, attributes⟩ : Code Attribute)
    let table ← Codec.withCount2 attributes.length (encodeRows attributes)
    return head ++ table
  | .record components => Codec.withCount2 components.length (encodeComponents components)

/-- The rows of an attribute table. -/
def encodeRows : List Attribute → Except WriteError Bytes
  | [] => .ok []
  | a :: more => do
    let payload ← payload a
    let row ← encodeRow a.nameIndex payload
    let rows ← encodeRows more
    return row ++ rows

/-- The bytes of record components. -/
def encodeComponents : List (Component Attribute) → Except WriteError Bytes
  | [] => .ok []
  | ⟨nameIndex, descriptorIndex, attributes⟩ :: more => do
    let table ← Codec.withCount2 attributes.length (encodeRows attributes)
    let rows ← encodeComponents more
    return Bytes.ofU2 nameIndex ++ (Bytes.ofU2 descriptorIndex ++ (table ++ rows))

end

/-- The bytes of an attribute table: the count and the rows. -/
def encodeTable (attributes : List Attribute) : Except WriteError Bytes :=
  Codec.withCount2 attributes.length (encodeRows attributes)

/-! ## Reading -/

/-- Keeps a typed body when it reproduces the payload. -/
def ofBody (nameIndex : PoolIndex) (info : Bytes) (body : Body Attribute) : Attribute :=
  match encodeBody body with
  | .ok written =>
    if written = info then ⟨nameIndex, info, false, some body⟩ else ⟨nameIndex, info, true, none⟩
  | .error _ => ⟨nameIndex, info, true, none⟩

/-- The attribute with a given payload, in which attributes are nested less than `depth` deep. -/
def ofPayloadWithin (pool : Pool) : (depth : Nat) → RawAttribute → Attribute
  | 0, raw => ⟨raw.nameIndex, raw.info, true, none⟩
  | depth + 1, raw =>
    match AttributeKind.ofName? (pool.utf8 raw.nameIndex) with
    | none => ⟨raw.nameIndex, raw.info, false, none⟩
    | some kind =>
      match Body.ofPayload kind raw.info with
      | .ok body => ofBody raw.nameIndex raw.info (body.map (ofPayloadWithin pool depth))
      | .error _ => ⟨raw.nameIndex, raw.info, true, none⟩

/-- The attribute with a given name index and payload. A nested payload is shorter than the one
around it, so the length of the payload bounds the depth. -/
def ofPayload (pool : Pool) (raw : RawAttribute) : Attribute :=
  ofPayloadWithin pool (raw.info.length + 1) raw

/-- An attribute table, with the attributes in it decoded. -/
def readTable (pool : Pool) : Reader (List Attribute) := do
  let rows ← RawAttribute.readTable
  return rows.map (ofPayload pool)

end Attribute

/-- The typed form of a payload under the given attribute name. -/
def decodeBody (pool : Pool) (name : String) (info : Bytes) : Except Fault (Body Attribute) :=
  match AttributeKind.ofName? name with
  | none => .error ⟨0, .noTypedForm name⟩
  | some kind =>
    match Body.ofPayload kind info with
    | .ok body => .ok (body.map (Attribute.ofPayload pool))
    | .error fault => .error fault

/-- The first attribute of the given name. -/
def findAttribute? (attributes : List Attribute) (pool : Pool) (name : String) :
    Option Attribute :=
  attributes.find? fun a => a.name pool = name

end ClassPrune
