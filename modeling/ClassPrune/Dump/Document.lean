import ClassPrune.Dump.Describe
import ClassPrune.Text.Json

/-!
# The dump as a document

The contents of a class as a JSON document: the header, the constants, the members and the
attributes with their states and lengths. The attributes of code are nested in it.
-/

namespace ClassPrune

open Text (Json)

/-- The length of an attribute's payload; zero when it cannot be written. -/
def Attribute.dumpLength (a : Attribute) : Nat :=
  match a.payload with
  | .ok payload => payload.length
  | .error _ => 0

namespace Document

/-- The fields that describe one attribute. -/
def attributeFields (p : Pool) (a : Attribute) : List (String × Json) :=
  [("name", .text (a.name p)), ("state", .text a.state), ("length", .number a.dumpLength)]

mutual

/-- An attribute. -/
def ofAttribute (p : Pool) : Attribute → Json
  | a@⟨_, _, _, some (.code ⟨_, _, _, _, attributes⟩)⟩ =>
    .object (attributeFields p a ++
      Json.optionalList "attributes" (ofAttributes p attributes))
  | a@⟨_, _, _, some (.record _)⟩ => .object (attributeFields p a)
  | a@⟨_, _, _, some (.leaf _)⟩ => .object (attributeFields p a)
  | a@⟨_, _, _, none⟩ => .object (attributeFields p a)

/-- A list of attributes. -/
def ofAttributes (p : Pool) : List Attribute → List Json
  | [] => []
  | a :: more => ofAttribute p a :: ofAttributes p more

end

/-- A field or a method. -/
def ofMember (p : Pool) (m : Member) : Json :=
  .object ([("name", .text (m.name p)), ("descriptor", .text (m.descriptor p)),
    ("type", .text (m.type p).source), ("accessFlags", .number m.flags.toNat)]
    ++ Json.optionalList "attributes" (ofAttributes p m.attributes))

/-- A constant in its slot. -/
def ofEntry (p : Pool) (slot : PoolIndex × EntryId) : Json :=
  .object [("index", .number slot.1.toNat), ("tag", .text (p.cell slot.2).entry.tag.name),
    ("value", .text (p.describe slot.2))]

/-- The constants; there is no list when there are none. -/
def ofPool (p : Pool) : Json :=
  if p.occupied.isEmpty then .null else .list (p.occupied.map (ofEntry p))

/-- A class. -/
def ofClass (k : ClassFile) : Json :=
  .object ([("name", .text k.className), ("kind", .text k.sort)]
    ++ (if k.superName = "" then [] else [("superClass", .text k.superName)])
    ++ Json.optionalList "interfaces" (k.interfaceNames.map .text)
    ++ [("accessFlags", .number k.flags.toNat),
      ("version", .object [("major", .number k.major.toNat), ("minor", .number k.minor.toNat)]),
      ("constantPool", ofPool k.pool)]
    ++ Json.optionalList "fields" (k.fields.map (ofMember k.pool))
    ++ Json.optionalList "methods" (k.methods.map (ofMember k.pool))
    ++ Json.optionalList "attributes" (ofAttributes k.pool k.attributes))

end Document

/-- The dump of a class as a JSON document. -/
def ClassFile.documentDump (k : ClassFile) : String := (Document.ofClass k).render 0 ++ "\n"

end ClassPrune
