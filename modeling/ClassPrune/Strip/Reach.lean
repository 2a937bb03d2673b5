import ClassPrune.Class.Holder
import ClassPrune.Pool.Reachable
import ClassPrune.Strip.Verdict

/-!
# What a class uses of its pool

The constants that a class reaches from its header, its members, its attributes and its
instructions, closed under the references between constants.

- `Inspector.roots`: the indices that the class itself stores.
- `Inspector.reached`: everything that can be reached from them.
-/

namespace ClassPrune

/-- When the use of the pool is looked at. -/
inductive Stage where
  | beforeSifting
  | afterSifting
  deriving DecidableEq, Repr

namespace Inspector

/-- The pool operands of the code in an attribute. The code of a method counts at all times.
Any other code counts once a verdict has read its instructions, and that is so when the name of
the attribute is known. -/
def operands (i : Inspector) (stage : Stage) (context : Context) (a : Attribute) :
    List PoolIndex :=
  match a.code? with
  | none => []
  | some c =>
    if context = .onMethod ∨ (stage = .afterSifting ∧ (a.kind? i.pool).isSome) then
      match i.decoder.decode c.code with
      | .ok insns => poolOperands insns
      | .error _ => []
    else []

/-- The indices that one attribute stores: its name, its body and its instructions. -/
def attributeRoots (i : Inspector) (stage : Stage) (context : Context) (a : Attribute) :
    List PoolIndex :=
  a.nameIndex :: ((a.body.map Body.references).getD [] ++ i.operands stage context a)

/-- The indices that a class stores. -/
def roots (i : Inspector) (stage : Stage) (k : ClassFile) : List PoolIndex :=
  k.thisClass :: k.superClass :: (k.interfaces
    ++ (k.fields ++ k.methods).flatMap (fun m => [m.nameIndex, m.descriptorIndex])
    ++ k.sections.flatMap fun (context, attributes) =>
      attributes.flatMap (i.attributeRoots stage context))

/-- The slots that a class reaches. -/
def reached (i : Inspector) (stage : Stage) (k : ClassFile) : Marks :=
  i.pool.reachable (i.roots stage k)

end Inspector

end ClassPrune
