import ClassPrune.Strip.Violation

/-!
# Reports

What stripping changed in a class.
-/

namespace ClassPrune

/-- One attribute that was removed. -/
structure Drop where
  /-- The holder that it was removed from. -/
  holder : String
  /-- The name of the attribute. -/
  name : String
  violation : Violation
  deriving DecidableEq, Repr

/-- The removal in one line. -/
def Drop.text (d : Drop) : String := s!"{d.holder}: {d.name}: {d.violation.message}"

/-- What stripping changed. -/
structure Report where
  dropped : List Drop
  /-- The slots whose dynamic constant fell out of use and was replaced by the number zero. -/
  filled : List PoolIndex
  bootstrapMethodsRemoved : Bool
  /-- How many reserved opcodes were replaced. -/
  substitutions : Nat
  deriving DecidableEq, Repr

/-- Whether anything was changed. -/
def Report.changed (r : Report) : Bool :=
  !r.dropped.isEmpty || !r.filled.isEmpty || r.bootstrapMethodsRemoved || r.substitutions > 0

end ClassPrune
