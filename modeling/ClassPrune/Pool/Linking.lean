import ClassPrune.Pool.Basic

/-!
# Reading the constant pool

The pool of a file is read in two passes. The first reads the constants with their raw indices
and lays out the slots; the second binds every raw index to the constant in that slot, which may
come before or after the one that refers to it.

- `readEntries`: the first pass.
- `Pool.resolve`, `Pool.link`: the second pass.
- `Place`, `ParseError`: a fault, and the part of the class file that it spoils.
-/

namespace ClassPrune

/-- The part of a class file in which a fault was seen. -/
inductive Place where
  /-- Header, interfaces, the shape of the pool, or the end of the file. -/
  | file
  | poolEntry (index : Nat)
  | field (ordinal : Nat)
  | method (ordinal : Nat)
  | classAttributes
  deriving DecidableEq, Repr

/-- How a message names the part, before the fault itself. -/
def Place.message : Place → String
  | .file => ""
  | .poolEntry index => s!"failed to read constant pool entry {index}: "
  | .field ordinal => s!"failed to read field {ordinal}: "
  | .method ordinal => s!"failed to read method {ordinal}: "
  | .classAttributes => "failed to read class attributes: "

/-- Why a byte string is no class file. -/
structure ParseError where
  place : Place
  fault : Fault
  deriving DecidableEq, Repr

def ParseError.message (e : ParseError) : String := e.place.message ++ e.fault.message

/-- A computation that consumes the bytes of a class file. -/
abbrev FileReader (α : Type) := StateT Cursor (Except ParseError) α

/-- Reads a value that belongs to `place`. -/
def Reader.within {α : Type} (place : Place) (r : Reader α) : FileReader α := fun c =>
  match r c with
  | .ok v => .ok v
  | .error fault => .error ⟨place, fault⟩

/-- A constant as the first pass leaves it: its slot, where it stood, and its raw indices. -/
structure Located where
  index : Nat
  offset : Nat
  entry : Entry PoolIndex
  deriving DecidableEq, Repr

/-- One constant, which is to stand in slot `index`. -/
def readLocated (index : Nat) : FileReader Located := do
  let offset ← Reader.position.within .file
  let entry ← Entry.read.within (.poolEntry index)
  return ⟨index, offset, entry⟩

/-- The constants from slot `index` up to, not including, slot `index + room`. -/
def readEntries : (room index : Nat) → FileReader (List Located)
  | 0, _ => pure []
  | 1, index => do
    let l ← readLocated index
    if l.entry.isWide then throw ⟨.file, ⟨l.offset, .noSecondSlot l.entry.tag index⟩⟩
    return [l]
  | room + 2, index => do
    let l ← readLocated index
    let more ←
      if l.entry.isWide then readEntries room (index + 2) else readEntries (room + 1) (index + 1)
    return l :: more

/-- The slots that the given constants fill, in order; `id` names the first of them. -/
def layout : (id : EntryId) → List Located → List (Option EntryId)
  | _, [] => []
  | id, l :: ls =>
    if l.entry.isWide then some id :: none :: layout (id + 1) ls
    else some id :: layout (id + 1) ls

namespace Pool

/-- Binds a raw index: the slot must be occupied by a constant of the kind wanted. -/
def resolve (slots : Array (Option EntryId)) (entries : Array Located) (target : Target)
    (index : PoolIndex) : Except LinkError (Option EntryId) :=
  let found : Option EntryId := if index = 0 then none else (slots[index.toNat - 1]?).join
  match found.bind fun id => (entries[id]?).map fun l => (id, l.entry.tag) with
  | none => .error (.outOfRange index (slots.size + 1))
  | some (id, tag) =>
    if target.accepts tag then .ok (some id) else .error (.wrongKind index tag)

/-- Binds the references of one constant. -/
def linkEntry (slots : Array (Option EntryId)) (entries : Array Located) (l : Located) :
    Except ParseError Cell :=
  match l.entry.mapRefs (resolve slots entries) with
  | .ok entry => .ok ⟨entry, UInt16.ofNat l.index⟩
  | .error why => .error ⟨.file, ⟨l.offset, .badLink l.entry.tag l.index why⟩⟩

/-- The pool with the given constants, their references bound. -/
def link (entries : List Located) : Except ParseError Pool := do
  let slots := (layout 0 entries).toArray
  let cells ← entries.mapM (linkEntry slots entries.toArray)
  return { cells := cells.toArray, slots }

/-- The pool as it stands in a file. -/
def read : FileReader Pool := do
  let start ← Reader.position.within .file
  let count ← Reader.u2.within .file
  if count = 0 then throw ⟨.file, ⟨start, .zeroPoolCount⟩⟩
  let entries ← readEntries (count.toNat - 1) 1
  link entries

end Pool

end ClassPrune
