import ClassPrune.Strip.Reach
import ClassPrune.Strip.Sifting

/-!
# Stripping

Removes from a class the attributes that are illegal, so that it can be loaded. Indices never
move: a dynamic constant that falls out of use is replaced by the number zero in its slot, and
the bootstrap methods go when nothing is left that could name one.

- `ClassFile.strip`: the stripped class and the report.
-/

namespace ClassPrune

namespace Pool

/-- Whether a constant names a bootstrap method. -/
def isDynamic (p : Pool) (id : EntryId) : Bool :=
  match (p.cell id).entry.tag with
  | .dynamic | .invokeDynamic => true
  | _ => false

/-- The dynamic constants that were in use and no longer are. -/
def disused (p : Pool) (before after : Marks) : List PoolIndex :=
  p.occupied.filterMap fun (index, id) =>
    if before.has index && !after.has index && p.isDynamic id then some index else none

/-- Puts a new constant, the number zero, into a slot that a one-slot constant occupies. -/
def fillSlot (p : Pool) (index : PoolIndex) : Pool :=
  let ⟨cells, slots⟩ := p
  let id := cells.size
  { cells := cells.push ⟨.integer 0, index⟩
    slots := slots.setIfInBounds (index.toNat - 1) (some id) }

/-- Puts the number zero into each of the slots. -/
def fill (p : Pool) (indices : List PoolIndex) : Pool := indices.foldl fillSlot p

/-- Whether some constant names a bootstrap method. -/
def hasDynamic (p : Pool) : Bool := p.occupied.any fun (_, id) => p.isDynamic id

end Pool

namespace ClassFile

/-- Whether the attribute is called as the bootstrap methods are. -/
def isBootstrapMethods (pool : Pool) (a : Attribute) : Bool :=
  a.name pool = AttributeKind.bootstrapMethods.name

/-- The class without its bootstrap methods. -/
def removeBootstrapMethods (k : ClassFile) : ClassFile :=
  { k with attributes := k.attributes.filter fun a => !isBootstrapMethods k.pool a }

/-- The class without illegal attributes, and what was changed. -/
def strip (profile : Profile) (k : ClassFile) : ClassFile × Report :=
  let i := Inspector.ofPool profile k.pool
  let standard := k.standardize i.decoder
  let sifted := i.siftClass standard
  let filled := k.pool.disused (i.reached .beforeSifting standard) (i.reached .afterSifting sifted)
  let patched := { sifted with pool := k.pool.fill filled }
  let removes := !filled.isEmpty && !patched.pool.hasDynamic &&
    patched.attributes.any (isBootstrapMethods patched.pool)
  (if removes then patched.removeBootstrapMethods else patched,
    { dropped := i.drops standard
      filled
      bootstrapMethodsRemoved := removes
      substitutions := k.substitutions i.decoder + i.lateSubstitutions standard })

end ClassFile

end ClassPrune
