import ClassPrune.Dump.Describe

/-!
# The dump in lines

The contents of a class with one record per line and tabs between its parts: the header, the
constants, the members and the attributes. What belongs to a record is indented under it.
-/

namespace ClassPrune

namespace Lines

/-- A record: its parts, and how many tabs it is indented. -/
structure Record where
  depth : Nat
  parts : List String
  deriving DecidableEq, Repr

/-- The line of a record: its parts with tabs between them. -/
def Record.text (r : Record) : String :=
  String.ofList (List.replicate r.depth '\t') ++ "\t".intercalate r.parts

/-- Flags in hexadecimal. -/
def flags (f : AccessFlags) : String := s!"0x{Text.hex 4 f.toNat}"

/-- The length of an attribute's payload, or why it cannot be written. -/
def length (a : Attribute) : String :=
  match a.payload with
  | .ok payload => toString payload.length
  | .error error => s!"error: {error.message}"

/-- The record of an attribute. -/
def ofHead (p : Pool) (depth : Nat) (a : Attribute) : Record :=
  ⟨depth, ["attribute", a.name p, a.state, length a]⟩

/-- The record of a code body. -/
def ofCode (depth : Nat) (c : Code Attribute) : Record :=
  ⟨depth,
    ["code", toString c.code.length, s!"stack {c.maxStack.toNat}", s!"locals {c.maxLocals.toNat}"]⟩

mutual

/-- The records of an attribute and of what is nested in it. -/
def ofAttribute (p : Pool) (depth : Nat) : Attribute → List Record
  | a@⟨_, _, _, some (.code ⟨maxStack, maxLocals, code, handlers, attributes⟩)⟩ =>
    ofHead p depth a :: ofCode (depth + 1) ⟨maxStack, maxLocals, code, handlers, attributes⟩ ::
      ofAttributes p (depth + 1) attributes
  | a@⟨_, _, _, some (.record components)⟩ =>
    ofHead p depth a :: ofComponents p depth components
  | a@⟨_, _, _, some (.leaf _)⟩ => [ofHead p depth a]
  | a@⟨_, _, _, none⟩ => [ofHead p depth a]

/-- The records of a list of attributes. -/
def ofAttributes (p : Pool) (depth : Nat) : List Attribute → List Record
  | [] => []
  | a :: more => ofAttribute p depth a ++ ofAttributes p depth more

/-- The records of the components of a record declaration. -/
def ofComponents (p : Pool) (depth : Nat) : List (Component Attribute) → List Record
  | [] => []
  | ⟨nameIndex, descriptorIndex, attributes⟩ :: more =>
    ⟨depth + 1, ["component", p.utf8 nameIndex, p.utf8 descriptorIndex]⟩ ::
      (ofAttributes p (depth + 2) attributes ++ ofComponents p depth more)

end

/-- The records of a field or a method. -/
def ofMember (p : Pool) (word : String) (m : Member) : List Record :=
  ⟨0, [word, m.name p, m.descriptor p, flags m.flags, (m.type p).source]⟩ ::
    ofAttributes p 1 m.attributes

/-- The record of a constant in its slot. -/
def ofEntry (p : Pool) (slot : PoolIndex × EntryId) : Record :=
  ⟨0, ["pool", toString slot.1.toNat, (p.cell slot.2).entry.tag.name, p.describe slot.2]⟩

/-- The records of a class. -/
def ofClass (k : ClassFile) : List Record :=
  ⟨0, [k.sort, k.className, s!"{k.major.toNat}.{k.minor.toNat}", flags k.flags]⟩ ::
    ((if k.superName = "" then [] else [⟨0, ["super", k.superName]⟩])
      ++ k.interfaceNames.map (fun name => ⟨0, ["implements", name]⟩)
      ++ k.pool.occupied.map (ofEntry k.pool)
      ++ k.fields.flatMap (ofMember k.pool "field")
      ++ k.methods.flatMap (ofMember k.pool "method")
      ++ ofAttributes k.pool 0 k.attributes)

end Lines

/-- The dump of a class in lines. -/
def ClassFile.lineDump (k : ClassFile) : String :=
  String.join ((Lines.ofClass k).map fun r => r.text ++ "\n")

end ClassPrune
