import ClassPrune.Class.Basic

/-!
# Holders

The structures of a class that carry attributes: the class itself, its fields and methods, the
code bodies of methods and the components of records. A `HolderRef` says where one stands.

- `ClassFile.holders`: every holder, outermost first.
- `ClassFile.sections`: the attributes of every holder.
- `ClassFile.attributesAt`, `ClassFile.setAttributesAt`: the attributes of one holder.
-/

namespace ClassPrune

/-- Where a holder stands in a class. -/
inductive HolderRef where
  | onClass
  | field (ordinal : Nat)
  | method (ordinal : Nat)
  /-- The code body of an attribute of a method. -/
  | code (method ordinal : Nat)
  /-- A component of the record body of an attribute of the class. -/
  | component (record ordinal : Nat)
  deriving DecidableEq, Repr

/-- What kind of structure the holder is. -/
def HolderRef.context : HolderRef → Context
  | .onClass => .onClass
  | .field _ => .onField
  | .method _ => .onMethod
  | .code _ _ => .onCode
  | .component _ _ => .onComponent

/-- The attribute with a changed code body. -/
def Attribute.mapCode (a : Attribute) (f : Code Attribute → Code Attribute) : Attribute :=
  match a.body with
  | some (.code c) => { a with body := some (.code (f c)) }
  | _ => a

/-- The attribute with changed record components. -/
def Attribute.mapComponents (a : Attribute)
    (f : List (Component Attribute) → List (Component Attribute)) : Attribute :=
  match a.body with
  | some (.record components) => { a with body := some (.record (f components)) }
  | _ => a

namespace ClassFile

/-- The code bodies of method number `i`. -/
def codeRefs (i : Nat) (m : Member) : List HolderRef :=
  m.attributes.zipIdx.filterMap fun (a, j) => a.code?.map fun _ => .code i j

/-- The components in the record bodies of class attribute number `i`. -/
def componentRefs (i : Nat) (a : Attribute) : List HolderRef :=
  match a.components? with
  | some components => (List.range components.length).map (.component i)
  | none => []

/-- Every holder: the class, each field, each method followed by its code bodies, and each
record component. -/
def holders (k : ClassFile) : List HolderRef :=
  .onClass :: ((List.range k.fields.length).map .field
    ++ k.methods.zipIdx.flatMap (fun (m, i) => .method i :: codeRefs i m)
    ++ k.attributes.zipIdx.flatMap (fun (a, i) => componentRefs i a))

/-- The attributes of every holder, in the order of `holders`, each list with the kind of its
holder. -/
def sections (k : ClassFile) : List (Context × List Attribute) :=
  (.onClass, k.attributes) :: (k.fields.map (fun f => (.onField, f.attributes))
    ++ k.methods.flatMap (fun m =>
      (.onMethod, m.attributes) ::
        m.attributes.filterMap fun a => a.code?.map fun c => (.onCode, c.attributes))
    ++ k.attributes.flatMap (fun a =>
      (a.components?.getD []).map fun c => (.onComponent, c.attributes)))

/-- The attributes of a holder. -/
def attributesAt (k : ClassFile) : HolderRef → List Attribute
  | .onClass => k.attributes
  | .field i => ((k.fields[i]?).map Member.attributes).getD []
  | .method i => ((k.methods[i]?).map Member.attributes).getD []
  | .code i j =>
    (((k.methods[i]?).bind fun m => m.attributes[j]?).bind Attribute.code?).map
      Code.attributes |>.getD []
  | .component i j =>
    ((((k.attributes[i]?).bind Attribute.components?).bind fun components =>
      components[j]?).map Component.attributes).getD []

/-- The class with other attributes on a holder. -/
def setAttributesAt (k : ClassFile) (holder : HolderRef) (attributes : List Attribute) :
    ClassFile :=
  match holder with
  | .onClass => { k with attributes }
  | .field i => { k with fields := k.fields.modify i fun f => { f with attributes } }
  | .method i => { k with methods := k.methods.modify i fun m => { m with attributes } }
  | .code i j =>
    { k with methods := k.methods.modify i fun m =>
        { m with attributes := m.attributes.modify j fun a =>
            a.mapCode fun c => { c with attributes } } }
  | .component i j =>
    { k with attributes := k.attributes.modify i fun a =>
        a.mapComponents fun components => components.modify j fun c => { c with attributes } }

/-- The class with one attribute of a holder changed. -/
def modifyAttributeAt (k : ClassFile) (holder : HolderRef) (i : Nat)
    (f : Attribute → Attribute) : ClassFile :=
  k.setAttributesAt holder ((k.attributesAt holder).modify i f)

end ClassFile

end ClassPrune
