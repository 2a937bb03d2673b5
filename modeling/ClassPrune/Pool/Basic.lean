import ClassPrune.Pool.Entry

/-!
# The constant pool

Constants have an identity of their own: a slot of the pool, a name given by a caller and the
references of other constants may all mean the same constant. A `Pool` therefore keeps two
things, the constants made so far (`cells`, named by `EntryId`) and the slots that some of them
occupy. Each constant remembers the index that it was last given, and a reference is written as
that index.

- `Pool.create`: a new constant, in no slot yet.
- `Pool.append`, `Pool.replace`: put a constant into a slot. A refused change changes nothing.
- `Pool.find?`, `Pool.occupied`: what the slots hold.
-/

namespace ClassPrune

/-- Names one constant, whether or not it is in a slot. -/
abbrev EntryId := Nat

/-- A constant and the index that it was last given; zero before the first. -/
structure Cell where
  entry : Entry (Option EntryId)
  index : PoolIndex := 0
  deriving DecidableEq, Repr

instance : Inhabited Cell := ⟨⟨.integer 0, 0⟩⟩

/-- The constants made so far and the slots. Slot `i + 1` of the pool is `slots[i]`; index zero
has no slot, and the upper slot of a two-slot constant is empty. -/
structure Pool where
  cells : Array Cell := #[]
  slots : Array (Option EntryId) := #[]
  deriving DecidableEq, Repr

namespace Pool

/-- A pool without constants. -/
def empty : Pool := {}

/-- One more than the highest index: the count that a file gives. -/
def size (p : Pool) : Nat := p.slots.size + 1

/-- The constant named `id`. -/
def cell (p : Pool) (id : EntryId) : Cell := p.cells[id]?.getD default

/-- The constant in slot `index`, if there is one. -/
def find? (p : Pool) (index : PoolIndex) : Option EntryId :=
  if index = 0 then none else (p.slots[index.toNat - 1]?).join

/-- The contents of slot `index`, if it is occupied. -/
def entry? (p : Pool) (index : PoolIndex) : Option (Entry (Option EntryId)) :=
  (p.find? index).map fun id => (p.cell id).entry

/-- The kind of the constant in slot `index`, if there is one. -/
def tag? (p : Pool) (index : PoolIndex) : Option Tag :=
  (p.entry? index).map Entry.tag

/-- The constant in slot `index`. -/
def get (p : Pool) (index : PoolIndex) : Except PoolError EntryId :=
  match p.find? index with
  | some id => .ok id
  | none => .error (.outOfRange index p.size)

/-- The occupied slots in increasing order. -/
def occupied (p : Pool) : List (PoolIndex × EntryId) :=
  p.slots.toList.zipIdx.filterMap fun (slot, i) => slot.map fun id => (UInt16.ofNat (i + 1), id)

/-- How many slots are occupied. -/
def count (p : Pool) : Nat := p.occupied.length

/-- A new constant, in no slot. -/
def create (p : Pool) (entry : Entry (Option EntryId)) : EntryId × Pool :=
  (p.cells.size, { p with cells := p.cells.push ⟨entry, 0⟩ })

/-- Changes the contents of a constant, in place. -/
def update (p : Pool) (id : EntryId) (entry : Entry (Option EntryId)) : Pool :=
  { p with cells := p.cells.modify id fun c => { c with entry } }

/-- Puts a constant behind the last slot and gives it that index. A two-slot constant also takes
the slot after it. -/
def append (p : Pool) (id : EntryId) : Except PoolError (PoolIndex × Pool) :=
  let entry := (p.cell id).entry
  if p.size + entry.width > 0xFFFF then .error .full
  else
    let index := UInt16.ofNat p.size
    let ⟨cells, slots⟩ := p
    let slots := slots.push (some id)
    .ok (index, { cells := cells.modify id fun c => { c with index }
                  slots := if entry.isWide then slots.push none else slots })

/-- Puts a constant into an occupied slot and gives it that index. The constant that stood there
keeps its own index. -/
def replace (p : Pool) (index : PoolIndex) (id : EntryId) : Except PoolError Pool := do
  let old := (p.cell (← p.get index)).entry
  let new := (p.cell id).entry
  if old.isWide != new.isWide then throw (.widthMismatch index new.tag old.tag)
  let ⟨cells, slots⟩ := p
  return { cells := cells.modify id fun c => { c with index }
           slots := slots.setIfInBounds (index.toNat - 1) (some id) }

/-- The constants that `id` refers to, without the unbound references. -/
def referenced (p : Pool) (id : EntryId) : List EntryId :=
  (p.cell id).entry.references.filterMap fun r => r

/-- The indices of the constants that the constant in slot `index` refers to. -/
def linkedIndices (p : Pool) (index : PoolIndex) : List PoolIndex :=
  match p.find? index with
  | some id => (p.referenced id).map fun r => (p.cell r).index
  | none => []

/-- The slots of `p` with all constants of `older` kept alive beside its own: the names of
`older` keep their meaning. -/
def alongside (p older : Pool) : Pool :=
  let shift (id : EntryId) : EntryId := older.cells.size + id
  let move (c : Cell) : Cell :=
    match c.entry.mapRefs (fun _ r => Except.ok (r.map shift)) with
    | .ok entry => { c with entry }
    | .error (_ : Empty) => c
  { cells := older.cells ++ p.cells.map move, slots := p.slots.map (Option.map shift) }

end Pool

end ClassPrune
