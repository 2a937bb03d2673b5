import ClassPrune.Class.Holder
import ClassPrune.Code.Standard
import ClassPrune.Strip.Report
import ClassPrune.Strip.Verdict

/-!
# Sifting

Every holder keeps the attributes on which the verdict is favourable, in their order. What is
nested in an attribute is sifted only when the attribute itself stays.

- `ClassFile.standardize`: the code of every method in standard form, before any verdict.
- `Inspector.keep`: what stays of a list of attributes.
- `Inspector.siftClass`: the class in which every holder is sifted.
- `Inspector.rosters`: the lists that are sifted, in order, from which `Inspector.drops` and
  `Inspector.lateSubstitutions` tell what sifting does.
-/

namespace ClassPrune

/-! ## Standard form -/

/-- The attribute with its code in standard form. -/
def Attribute.standardize (d : Decoder) (a : Attribute) : Attribute :=
  a.mapCode fun c => { c with code := (d.standardize c.code).code }

/-- The sum of counts. -/
def total (counts : List Nat) : Nat := counts.foldr (· + ·) 0

/-- How many reserved opcodes `Attribute.standardize` replaces. -/
def Attribute.substitutions (d : Decoder) (a : Attribute) : Nat :=
  match a.code? with
  | some c => (d.standardize c.code).substitutions
  | none => 0

/-- The class with the code of every method in standard form. -/
def ClassFile.standardize (d : Decoder) (k : ClassFile) : ClassFile :=
  { k with methods := k.methods.map fun m =>
      { m with attributes := m.attributes.map (Attribute.standardize d) } }

/-- How many reserved opcodes `ClassFile.standardize` replaces. -/
def ClassFile.substitutions (d : Decoder) (k : ClassFile) : Nat :=
  total (k.methods.flatMap fun m => m.attributes.map (Attribute.substitutions d))

/-! ## Sites -/

namespace Site

def ofClass : Site := ⟨.onClass, none⟩

def ofField : Site := ⟨.onField, none⟩

def ofMethod (m : Member) : Site := ⟨.onMethod, some m⟩

def ofCode (m : Member) : Site := ⟨.onCode, some m⟩

def ofComponent : Site := ⟨.onComponent, none⟩

end Site

/-- The attributes of one holder, and how reports call the holder. -/
structure Roster where
  site : Site
  label : String
  attributes : List Attribute

namespace Inspector

/-! ## One list -/

/-- Whether a verdict reads instructions that are not in standard form yet: code that does not
belong to a method directly, under a known name that may stand there. -/
def readsLate (i : Inspector) (site : Site) (a : Attribute) : Bool :=
  site.context != .onMethod && !site.forbidsCode &&
    (a.kind? i.pool).any fun kind => kind.permitted site.context

/-- The attribute as the verdict leaves it. -/
def settle (i : Inspector) (site : Site) (a : Attribute) : Attribute :=
  if i.readsLate site a then a.standardize i.decoder else a

/-- What stays of a list of attributes. -/
def keep (i : Inspector) (site : Site) (attributes : List Attribute) : List Attribute :=
  (attributes.filter fun a => (i.verdict? site a).isNone).map (i.settle site)

/-- How reports call an attribute: by its name, or by the index of a name that is not text. -/
def attributeLabel (i : Inspector) (a : Attribute) : String :=
  let name := a.name i.pool
  if name = "" then s!"#{a.nameIndex.toNat}" else name

/-- What is removed from a roster. -/
def rosterDrops (i : Inspector) (r : Roster) : List Drop :=
  r.attributes.filterMap fun a =>
    (i.verdict? r.site a).map fun violation => ⟨r.label, i.attributeLabel a, violation⟩

/-- How many reserved opcodes the verdicts on a roster replace. -/
def rosterSubstitutions (i : Inspector) (r : Roster) : Nat :=
  total (r.attributes.map fun a => if i.readsLate r.site a then a.substitutions i.decoder else 0)

/-! ## Members and classes -/

/-- The field with its attributes sifted. -/
def siftField (i : Inspector) (f : Member) : Member :=
  { f with attributes := i.keep .ofField f.attributes }

/-- The method with its attributes sifted, and with those of its code. -/
def siftMethod (i : Inspector) (m : Member) : Member :=
  { m with attributes := (i.keep (.ofMethod m) m.attributes).map fun a =>
      a.mapCode fun c => { c with attributes := i.keep (.ofCode m) c.attributes } }

/-- The attributes of a class, sifted together with those of its record components. -/
def siftClassAttributes (i : Inspector) (attributes : List Attribute) : List Attribute :=
  (i.keep .ofClass attributes).map fun a =>
    a.mapComponents fun components =>
      components.map fun c => { c with attributes := i.keep .ofComponent c.attributes }

/-- The class with every holder sifted. -/
def siftClass (i : Inspector) (k : ClassFile) : ClassFile :=
  { k with
    fields := k.fields.map i.siftField
    methods := k.methods.map i.siftMethod
    attributes := i.siftClassAttributes k.attributes }

/-- How reports call a method. -/
def methodLabel (i : Inspector) (m : Member) : String :=
  s!"method {m.name i.pool}{m.descriptor i.pool}"

/-- The lists of a field. -/
def fieldRoster (i : Inspector) (f : Member) : Roster :=
  ⟨.ofField, s!"field {f.name i.pool}", f.attributes⟩

/-- The lists of a method: its own, and those of the code that stays. -/
def methodRosters (i : Inspector) (m : Member) : List Roster :=
  ⟨.ofMethod m, i.methodLabel m, m.attributes⟩ ::
    (i.keep (.ofMethod m) m.attributes).filterMap fun a =>
      a.code?.map fun c => ⟨.ofCode m, s!"code of {i.methodLabel m}", c.attributes⟩

/-- The lists of the record components that stay. -/
def componentRosters (i : Inspector) (attributes : List Attribute) : List Roster :=
  (i.keep .ofClass attributes).flatMap fun a =>
    (a.components?.getD []).map fun c =>
      ⟨.ofComponent, s!"record component {i.pool.utf8 c.nameIndex}", c.attributes⟩

/-- The lists that are sifted, in order. -/
def rosters (i : Inspector) (k : ClassFile) : List Roster :=
  ⟨.ofClass, s!"class {k.className}", k.attributes⟩ ::
    (k.fields.map i.fieldRoster ++ k.methods.flatMap i.methodRosters
      ++ i.componentRosters k.attributes)

/-- What sifting removes from a class, in order. -/
def drops (i : Inspector) (k : ClassFile) : List Drop :=
  (i.rosters k).flatMap i.rosterDrops

/-- How many reserved opcodes sifting replaces in a class. -/
def lateSubstitutions (i : Inspector) (k : ClassFile) : Nat :=
  total ((i.rosters k).map i.rosterSubstitutions)

end Inspector

end ClassPrune
