import ClassPrune.Code.Decoding

/-!
# Code arrays that change in place

The pass that puts code arrays in standard form, as it goes from one to the next. An array is
changed where it is, and the replaced opcodes are counted in one place for all arrays. What was
decoded from an array is kept for whoever asks for it later, and so is the reason why nothing was.

- `CodeStore.normalize`: one array, write by write.
- `CodeStore.visit`, `CodeStore.normalizeAll`: one array after the other, failed or not.
- `CodeStore.instructions`: the instructions of an array, from what was kept as far as possible.
-/

namespace ClassPrune

/-- Names one code array. -/
abbrev CodeId := Nat

/-- Why there are no instructions for a code array. -/
inductive CodeFault where
  | undecodable (error : DecodeError)
  /-- The instructions were decoded, but cannot be written. -/
  | unwritable (error : EncodeError)
  deriving DecidableEq, Repr

/-- Code arrays, what is known of them, and how many opcodes were replaced in all of them. -/
structure CodeStore where
  code : CodeId → Bytes
  decoded : CodeId → Option (List Instruction) := fun _ => none
  broken : CodeId → Option CodeFault := fun _ => none
  substitutions : Nat := 0

namespace CodeStore

/-- The arrays of a list, each named by where it stands. -/
def ofCodes (codes : List Bytes) : CodeStore := { code := fun id => codes.getD id [] }

/-- The map with another value for one name. -/
def put {α : Type} (f : CodeId → α) (id : CodeId) (value : α) : CodeId → α :=
  fun other => if other = id then value else f other

/-- Changes an array in place, and counts what was replaced in it. -/
def write (id : CodeId) (code : Bytes) (count : Nat) : EStateM CodeFault CodeStore Unit :=
  modify fun s =>
    { s with code := put s.code id code, substitutions := s.substitutions + count }

/-- Keeps the instructions of an array. -/
def keep (id : CodeId) (insns : List Instruction) : EStateM CodeFault CodeStore Unit :=
  modify fun s => { s with decoded := put s.decoded id (some insns) }

/-- Puts an array in standard form, and keeps its instructions. -/
def normalize (d : Decoder) (id : CodeId) : EStateM CodeFault CodeStore Unit := do
  let s ← getThe CodeStore
  let (steps, error?) := d.run (s.code id)
  -- replaced opcodes are told one by one, before it is known whether the end is reached
  let count := (steps.filterMap Step.substitution).length
  match error? with
  | some error => throw (.undecodable error)
  | none =>
    let insns := steps.flatMap Step.insns
    if count > 0 then
      match encodeCode insns with
      | .error error => throw (.unwritable error)
      | .ok written => write id written count
    keep id insns

/-- The arrays after one of them was normalized, or its fault kept. -/
def visit (d : Decoder) (s : CodeStore) (id : CodeId) : CodeStore :=
  match (normalize d id).run s with
  | .ok _ s' => s'
  | .error fault s' => { s' with broken := put s'.broken id (some fault) }

/-- The arrays after several of them were normalized. -/
def normalizeAll (d : Decoder) (s : CodeStore) (ids : List CodeId) : CodeStore :=
  ids.foldl (visit d) s

/-- The instructions of an array. One that was not visited yet is visited now. -/
def instructions (d : Decoder) (id : CodeId) : EStateM CodeFault CodeStore (List Instruction) := do
  let s ← getThe CodeStore
  match s.broken id, s.decoded id with
  | some fault, _ => throw fault
  | none, some insns => return insns
  | none, none =>
    let s := s.visit d id
    set s
    match s.broken id with
    | some fault => throw fault
    | none => return (s.decoded id).getD []

/-- The operands of the instructions that were kept for an array. -/
def operands (s : CodeStore) (id : CodeId) : List PoolIndex := (s.decoded id).elim [] poolOperands

end CodeStore

end ClassPrune
