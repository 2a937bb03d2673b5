import ClassPrune.Pool.Basic

/-!
# Pools that change in place

A pool as a program holds it. The table has a place for index zero too, which is made with the table
or, at the latest, by the first call that appends. A constant is told its index where it is, and
what a call has written stays written when the call then fails.

- `PoolTable.size`, `PoolTable.get`: what the slots hold.
- `PoolTable.append`, `PoolTable.replace`: the calls, write by write.
- `PoolTable.ofPool`: the table of a pool that was read.
-/

namespace ClassPrune

/-- The constants made so far and the slots. Slot `i` of the pool is `slots[i]`; slot zero and the
upper slot of a two-slot constant are empty. -/
structure PoolTable where
  cells : Array Cell := #[]
  slots : Array (Option EntryId) := #[]
  deriving DecidableEq, Repr

namespace PoolTable

/-- A table that nothing was done with, not even to make slot zero. -/
def bare : PoolTable := {}

/-- A table without constants. -/
def new : PoolTable := { slots := #[none] }

/-- The table of a pool: slot zero, and the slots of the pool. -/
def ofPool (p : Pool) : PoolTable := { cells := p.cells, slots := #[none] ++ p.slots }

/-- One more than the highest index. -/
def size (t : PoolTable) : Nat := if t.slots.isEmpty then 1 else t.slots.size

/-- The constant named `id`. -/
def cell (t : PoolTable) (id : EntryId) : Cell := t.cells[id]?.getD default

/-- The constant in slot `index`. -/
def get (t : PoolTable) (index : PoolIndex) : Except PoolError EntryId :=
  if index < 1 then .error (.outOfRange index t.size)
  else match t.slots[index.toNat]? with
    | some (some id) => .ok id
    | _ => .error (.outOfRange index t.size)

/-- A change in place, which may fail halfway. -/
abbrev Change := EStateM PoolError PoolTable

/-- Makes slot zero, unless it is there. -/
def setUp : Change Unit :=
  modify fun t => if t.slots.isEmpty then { t with slots := #[none] } else t

/-- Tells a constant its index. -/
def assign (id : EntryId) (index : PoolIndex) : Change Unit :=
  modify fun t => { t with cells := t.cells.modify id fun c => { c with index } }

/-- Adds a slot behind the last one. -/
def push (slot : Option EntryId) : Change Unit :=
  modify fun t => { t with slots := t.slots.push slot }

/-- Puts a constant behind the last slot and tells it that index. A two-slot constant also takes
the slot after it. -/
def append (id : EntryId) : Change PoolIndex := do
  setUp
  let t ← getThe PoolTable
  let next := t.slots.size
  let entry := (t.cell id).entry
  if next + entry.width > 0xFFFF then throw .full
  assign id (UInt16.ofNat next)
  push (some id)
  if entry.isWide then push none
  return UInt16.ofNat next

/-- Puts a constant into an occupied slot and tells it that index. -/
def replace (index : PoolIndex) (id : EntryId) : Change Unit := do
  let t ← getThe PoolTable
  let old := (t.cell (← ofExcept (t.get index))).entry
  let new := (t.cell id).entry
  if old.isWide != new.isWide then throw (.widthMismatch index new.tag old.tag)
  assign id index
  modify fun t => { t with slots := t.slots.setIfInBounds index.toNat (some id) }

end PoolTable

end ClassPrune
