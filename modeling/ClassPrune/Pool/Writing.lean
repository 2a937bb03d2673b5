import ClassPrune.Pool.Basic

/-!
# Writing the constant pool

A reference is written as the index that the referenced constant was last given. A constant is
refused, in this order, when it claims another slot, when one of its references is unbound, and
when a referenced constant has no index; the first slot that is refused decides.
-/

namespace ClassPrune.Pool

/-- The index of a referenced constant. -/
def assignedIndex (p : Pool) (id : EntryId) : Except WriteError PoolIndex :=
  let c := p.cell id
  if c.index = 0 then .error (.unassigned c.entry.tag) else .ok c.index

/-- The constant `c` with its references as indices. -/
def resolved (p : Pool) (c : Cell) : Except WriteError (Entry PoolIndex) :=
  c.entry.mapRefs fun _ r =>
    match r with
    | some id => p.assignedIndex id
    | none => .error (.unresolved c.entry.tag c.index)

/-- The bytes of the constant `c`. -/
def encodeCell (p : Pool) (c : Cell) : Except WriteError Bytes := do
  if c.entry.references.any Option.isNone then throw (.unresolved c.entry.tag c.index)
  match c.entry with
  | .utf8 raw => if raw.length > 0xFFFF then throw (.utf8TooLong c.index raw.length)
  | _ => pure ()
  let entry ← p.resolved c
  return entry.encode

/-- The bytes of the constant in slot `index`. -/
def encodeSlot (p : Pool) (index : PoolIndex) (id : EntryId) : Except WriteError Bytes := do
  let c := p.cell id
  if c.index ≠ index then throw (.misplaced index c.index)
  p.encodeCell c

/-- The bytes of the constants in the given slots. -/
def encodeSlots (p : Pool) : List (PoolIndex × EntryId) → Except WriteError Bytes
  | [] => .ok []
  | (index, id) :: more => do
    let front ← p.encodeSlot index id
    let back ← p.encodeSlots more
    return front ++ back

/-- The bytes of the pool: the count, then the constants in the order of their slots. -/
def encode (p : Pool) : Except WriteError Bytes := do
  if p.size > 0xFFFF then throw (.tooMany p.size)
  let entries ← p.encodeSlots p.occupied
  return Bytes.ofU2 (UInt16.ofNat p.size) ++ entries

end ClassPrune.Pool
