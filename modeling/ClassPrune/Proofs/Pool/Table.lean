import ClassPrune.Pool.Table
import ClassPrune.Proofs.Pool.History

/-!
# Calls that change a pool in place

A table in which calls write one thing after the other does what the calls do to pools: a call that
succeeds leads to the table of the new pool, and one that fails has not written anything yet. Only
slot zero is made before the room is measured; but then there is room.

- `Pool.find?_append`, `Pool.find?_replace_of_ne`: what a call leaves where it is, and
  `Pool.find?_run` for any list of calls.
- `PoolTable.Holds`: the table holds the pool.
- `PoolTable.Holds.append`, `PoolTable.Holds.replace`: the calls agree, write by write.
- `PoolTable.Holds.run`: so do all lists of calls (`Holds.apply` is the step).
- `PoolTable.updates_stable`: what a call changes in a table with any history.
-/

namespace ClassPrune

theorem Entry.width_ne_iff {ρ : Type} {e e' : Entry ρ} :
    e.width ≠ e'.width ↔ e.isWide ≠ e'.isWide := by
  rw [Entry.width, Entry.width]
  cases e.isWide <;> cases e'.isWide <;> decide

namespace Pool

variable {p q : Pool} {index i : PoolIndex} {id : EntryId}

/-- What a slot names after a constant was put into slots. Slot zero names nothing. -/
theorem find?_assigned {slots : List (Option EntryId)} :
    (p.assigned id index slots).find? i = if i = 0 then none else (slots[i.toNat - 1]?).join := by
  rw [find?, assigned]
  simp only [List.getElem?_toArray]

/-- What stands below the size stays there. -/
theorem find?_append (h : p.append id = .ok (index, q)) (hlt : i.toNat < p.size) :
    q.find? i = p.find? i := by
  obtain ⟨-, -, rfl⟩ := append_eq_ok.mp h
  rw [find?_assigned, find?]
  by_cases hzero : i = 0
  · rw [if_pos hzero, if_pos hzero]
  · have hpos := toNat_ne_zero hzero
    have hold : i.toNat - 1 < p.slots.toList.length := by
      rw [size] at hlt
      rw [Array.length_toList]
      omega
    rw [if_neg hzero, if_neg hzero, List.getElem?_append_left hold, Array.getElem?_toList]

/-- A size that leaves room is an index. -/
theorem toNat_ofNat_size (h : p.size + (p.cell id).entry.width ≤ 0xFFFF) :
    (UInt16.ofNat p.size).toNat = p.size :=
  UInt16.toNat_ofNat_of_lt' (by rw [UInt16.size]; omega)

/-- An appended constant is found at the index that was given out, -/
theorem find?_append_self (h : p.append id = .ok (index, q)) : q.find? index = some id := by
  obtain ⟨hroom, rfl, rfl⟩ := append_eq_ok.mp h
  have hindex : (UInt16.ofNat p.size).toNat = p.slots.size + 1 := toNat_ofNat_size hroom
  refine find?_eq_some_iff.mpr ⟨fun hzero => ?_, ?_⟩
  · rw [hzero] at hindex
    exact Nat.succ_ne_zero _ hindex.symm
  · show (p.slots.toList ++ p.taken id)[(UInt16.ofNat p.size).toNat - 1]? = _
    rw [hindex, Nat.add_sub_cancel, List.getElem?_append_right (Nat.le_of_eq Array.length_toList),
      Array.length_toList, Nat.sub_self, taken]
    split <;> rfl

/-- What stands in another slot stays there. -/
theorem find?_replace_of_ne (h : p.replace index id = .ok q) (hne : i ≠ index) :
    q.find? i = p.find? i := by
  obtain ⟨old, hold, -, rfl⟩ := replace_eq_ok.mp h
  obtain ⟨hindex, -⟩ := find?_eq_some_iff.mp hold
  rw [find?_assigned, find?]
  by_cases hzero : i = 0
  · rw [if_pos hzero, if_pos hzero]
  · rw [if_neg hzero, if_neg hzero, List.getElem?_set_ne (slot_ne hindex hzero hne.symm),
      Array.getElem?_toList]

/-- and one that replaced another at the index of that one. -/
theorem find?_replace_self (h : p.replace index id = .ok q) : q.find? index = some id := by
  obtain ⟨old, hold, -, rfl⟩ := replace_eq_ok.mp h
  obtain ⟨hindex, hget⟩ := find?_eq_some_iff.mp hold
  refine find?_eq_some_iff.mpr ⟨hindex, ?_⟩
  exact List.getElem?_set_self (List.getElem?_eq_some_iff.mp hget).1

theorem size_append (h : p.append id = .ok (index, q)) :
    q.size = p.size + (p.cell id).entry.width := by
  obtain ⟨-, -, rfl⟩ := append_eq_ok.mp h
  rw [size_assigned, List.length_append, length_taken, Array.length_toList, size]
  omega

theorem size_replace (h : p.replace index id = .ok q) : q.size = p.size := by
  obtain ⟨old, -, -, rfl⟩ := replace_eq_ok.mp h
  rw [size_assigned, List.length_set, Array.length_toList, size]

/-- A constant is not appended exactly when there is no room for it. -/
theorem append_eq_error {e : PoolError} :
    p.append id = .error e ↔ e = .full ∧ 0xFFFF < p.size + (p.cell id).entry.width := by
  show (if p.size + (p.cell id).entry.width > 0xFFFF then Except.error PoolError.full
    else _) = _ ↔ _
  by_cases hfull : p.size + (p.cell id).entry.width > 0xFFFF
  · rw [if_pos hfull, Except.error.injEq, eq_comm, iff_self_and]
    exact fun _ => hfull
  · rw [if_neg hfull]
    constructor
    · intro h
      cases h
    · rintro ⟨-, hlt⟩
      exact absurd hlt hfull

/-- A constant is not replaced exactly when there is none, or one of another width. -/
theorem exists_replace_eq_error :
    (∃ e, p.replace index id = .error e) ↔ p.find? index = none ∨
      ∃ old, p.find? index = some old ∧ (p.cell old).entry.isWide ≠ (p.cell id).entry.isWide := by
  constructor
  · rintro ⟨e, he⟩
    cases hold : p.find? index with
    | none => exact .inl rfl
    | some old =>
      refine .inr ⟨old, rfl, fun hwidth => ?_⟩
      rw [replace_eq_ok.mpr ⟨old, hold, hwidth, rfl⟩] at he
      cases he
  · intro h
    cases hok : p.replace index id with
    | error e => exact ⟨e, rfl⟩
    | ok q =>
      obtain ⟨old, hold, hwidth, -⟩ := replace_eq_ok.mp hok
      rcases h with hnone | ⟨old', hold', hne⟩
      · rw [hold] at hnone
        cases hnone
      · rw [hold] at hold'
        cases hold'
        exact absurd hwidth hne

/-! ## Indices that were given out -/

/-- One call leaves what stands at an index, unless it replaces just that. -/
theorem find?_apply (h : p.find? index = some id) {call : Call}
    (hcall : ∀ new, call ≠ .replace index new) : (call.apply p).find? index = some id := by
  cases call with
  | make cell => exact h
  | edit other entry => exact h
  | append new =>
    rw [Call.apply]
    split
    · rename_i next q hok
      rw [find?_append hok (toNat_lt_size h), h]
    · exact h
  | replace other new =>
    have hne : index ≠ other := by
      rintro rfl
      exact hcall new rfl
    rw [Call.apply]
    split
    · rename_i q hok
      rw [find?_replace_of_ne hok hne, h]
    · exact h

/-- **What stands at an index stays there** over any list of calls that do not replace it. -/
theorem find?_run (h : p.find? index = some id) {calls : List Call}
    (hcalls : ∀ new, .replace index new ∉ calls) : (p.run calls).find? index = some id := by
  induction calls generalizing p with
  | nil => exact h
  | cons call calls ih =>
    refine ih (find?_apply h fun new hnew => ?_) fun new hmem => ?_
    · exact hcalls new (hnew ▸ List.mem_cons_self)
    · exact hcalls new (List.mem_cons_of_mem _ hmem)

end Pool

namespace PoolTable

variable {t : PoolTable} {p : Pool}

/-! ## Tables and pools -/

/-- The table holds the pool. Only a table that was never appended to may lack slot zero. -/
inductive Holds : PoolTable → Pool → Prop
  | bare (cells : Array Cell) : Holds { cells } { cells }
  | setUp (p : Pool) : Holds (ofPool p) p

theorem Holds.cell_eq (h : t.Holds p) (id : EntryId) : t.cell id = p.cell id := by
  cases h <;> rfl

theorem size_slots_ofPool (p : Pool) : (ofPool p).slots.size = p.size := by
  show (#[none] ++ p.slots).size = p.slots.size + 1
  rw [Array.size_append]
  exact Nat.add_comm 1 _

theorem not_isEmpty_ofPool (p : Pool) : ¬(ofPool p).slots.isEmpty = true := by
  rw [Array.isEmpty_iff_size_eq_zero, size_slots_ofPool]
  exact Nat.succ_ne_zero _

theorem Holds.size_eq (h : t.Holds p) : t.size = p.size := by
  cases h with
  | bare cells => rfl
  | setUp p => rw [PoolTable.size, if_neg (not_isEmpty_ofPool p), size_slots_ofPool]

/-- Index zero has a slot of its own in the table. -/
theorem getElem?_slots_ofPool (p : Pool) {i : Nat} (hi : i ≠ 0) :
    (ofPool p).slots[i]? = p.slots[i - 1]? := by
  show (#[none] ++ p.slots)[i]? = _
  rw [Array.getElem?_append_right (Nat.one_le_iff_ne_zero.mpr hi)]
  rfl

/-- The table and the pool answer look-ups alike. -/
theorem Holds.get_eq (h : t.Holds p) (index : PoolIndex) : t.get index = p.get index := by
  have hsize := h.size_eq
  rw [get, Pool.get, Pool.find?, hsize]
  by_cases hzero : index = 0
  · subst hzero
    rfl
  · have hpos := Pool.toNat_ne_zero hzero
    have hone : ¬index < 1 := by
      rw [UInt16.lt_iff_toNat_lt]
      exact Nat.not_lt.mpr (Nat.one_le_iff_ne_zero.mpr hpos)
    rw [if_neg hone, if_neg hzero]
    cases h with
    | bare cells => rfl
    | setUp p =>
      rw [getElem?_slots_ofPool p hpos]
      cases p.slots[index.toNat - 1]? with
      | none => rfl
      | some slot => cases slot <;> rfl

/-! ## Calls -/

/-- Making slot zero is all that is ever to be done before a constant is put into the table. -/
theorem Holds.setUp_run (h : t.Holds p) : PoolTable.setUp.run t = .ok () (ofPool p) := by
  cases h with
  | bare cells => rfl
  | setUp p =>
    show EStateM.Result.ok () (if (ofPool p).slots.isEmpty then _ else ofPool p) = _
    rw [if_neg (not_isEmpty_ofPool p)]

section InPlace

variable {α : Type}

/-- The outcome in place, when there is an outcome for pools: the table of the new pool, or the old
table. -/
def inPlace (t : PoolTable) : Except PoolError (α × Pool) → EStateM.Result PoolError PoolTable α
  | .ok (a, q) => .ok a (ofPool q)
  | .error e => .error e t

/-- In place, success leads to the table of the new pool, -/
theorem inPlace_eq_ok {x : Except PoolError (α × Pool)} {a : α} {t' : PoolTable} :
    t.inPlace x = .ok a t' ↔ ∃ q, x = .ok (a, q) ∧ t' = ofPool q := by
  constructor
  · intro h
    match x, h with
    | .ok (a, q), rfl => exact ⟨q, rfl, rfl⟩
  · rintro ⟨q, rfl, rfl⟩
    rfl

/-- and an error leaves the table that there was. -/
theorem inPlace_eq_error {x : Except PoolError (α × Pool)} {e : PoolError} {t' : PoolTable} :
    t.inPlace x = .error e t' ↔ x = .error e ∧ t' = t := by
  constructor
  · intro h
    match x, h with
    | .error e, rfl => exact ⟨rfl, rfl⟩
  · rintro ⟨rfl, rfl⟩
    rfl

end InPlace

/-- All that is written once slot zero is there. -/
theorem append_run {u : PoolTable} (h : setUp.run t = .ok () u) (id : EntryId) :
    (append id).run t = if 0xFFFF < u.slots.size + (u.cell id).entry.width then .error .full u
      else .ok (UInt16.ofNat u.slots.size)
        { cells := u.cells.modify id fun c => { c with index := UInt16.ofNat u.slots.size }
          slots := if (u.cell id).entry.isWide then (u.slots.push (some id)).push none
            else u.slots.push (some id) } := by
  unfold append
  rw [EStateM.run_bind, h]
  by_cases hfull : 0xFFFF < u.slots.size + (u.cell id).entry.width
  · rw [if_pos hfull]
    show EStateM.run (if _ then _ else _) u = _
    rw [if_pos hfull]
    rfl
  · rw [if_neg hfull]
    show EStateM.run (if _ then _ else _) u = _
    rw [if_neg hfull]
    show EStateM.run (if _ then _ else _) _ = _
    by_cases hwide : (u.cell id).entry.isWide = true
    · rw [if_pos hwide, if_pos hwide]
      rfl
    · rw [if_neg hwide, if_neg hwide]
      rfl

/-- **A constant is appended in place as it is to the pool**, and a call that fails has written
nothing. -/
theorem Holds.append (h : t.Holds p) (id : EntryId) :
    (append id).run t = t.inPlace (p.append id) := by
  rw [append_run h.setUp_run, size_slots_ofPool, (Holds.setUp p).cell_eq]
  by_cases hfull : 0xFFFF < p.size + (p.cell id).entry.width
  · rw [if_pos hfull, Pool.append_eq_error.mpr ⟨rfl, hfull⟩]
    cases h with
    | bare cells =>
      -- there is room behind slot zero
      have hwidth : (Pool.cell { cells } id).entry.width ≤ 2 := by
        rw [Entry.width]
        split <;> omega
      have hsize : Pool.size { cells } = 1 := rfl
      omega
    | setUp p => rfl
  · have hroom := Nat.not_lt.mp hfull
    rw [if_neg hfull, Pool.append_eq_ok.mpr ⟨hroom, rfl, rfl⟩]
    have hslots : (if (p.cell id).entry.isWide then ((ofPool p).slots.push (some id)).push none
        else (ofPool p).slots.push (some id))
        = #[none] ++ (p.slots.toList ++ p.taken id).toArray := by
      refine Array.toList_inj.mp ?_
      rw [Pool.taken]
      by_cases hwide : (p.cell id).entry.isWide = true
      · rw [if_pos hwide, if_pos hwide]
        simp [ofPool]
      · rw [if_neg hwide, if_neg hwide]
        simp [ofPool]
    rw [hslots]
    rfl

/-- All that is written once the slot was looked up. -/
theorem replace_run (t : PoolTable) (index : PoolIndex) (id : EntryId) :
    (replace index id).run t = match t.get index with
      | .error e => .error e t
      | .ok old =>
        if (t.cell old).entry.isWide ≠ (t.cell id).entry.isWide then
          .error (.widthMismatch index (t.cell id).entry.tag (t.cell old).entry.tag) t
        else .ok () { cells := t.cells.modify id fun c => { c with index }
                      slots := t.slots.setIfInBounds index.toNat (some id) } := by
  unfold replace
  show EStateM.run (ofExcept (t.get index) >>= _) t = _
  cases t.get index with
  | error e => rfl
  | ok old =>
    show EStateM.run (if ((t.cell old).entry.isWide != (t.cell id).entry.isWide) = true then _
      else _) t = _
    by_cases hwidth : (t.cell old).entry.isWide ≠ (t.cell id).entry.isWide
    · rw [if_pos (bne_iff_ne.mpr hwidth)]
      exact (if_pos hwidth).symm
    · rw [if_neg (mt bne_iff_ne.mp hwidth)]
      exact (if_neg hwidth).symm

/-- Slots of the table are those of the pool, one further. -/
theorem set_slots_ofPool (p : Pool) {i : Nat} (hi : i ≠ 0) (id : EntryId) :
    (ofPool p).slots.setIfInBounds i (some id)
      = #[none] ++ (p.slots.toList.set (i - 1) (some id)).toArray := by
  refine Array.toList_inj.mp ?_
  obtain ⟨i, rfl⟩ := Nat.exists_eq_succ_of_ne_zero hi
  simp [ofPool]

/-- **A constant is replaced in place as it is in the pool**, and a call that fails has written
nothing. -/
theorem Holds.replace (h : t.Holds p) (index : PoolIndex) (id : EntryId) :
    (replace index id).run t = t.inPlace ((p.replace index id).map fun q => ((), q)) := by
  rw [replace_run, h.get_eq]
  cases hold : p.get index with
  | error e =>
    have herror : p.replace index id = .error e := by
      rw [Pool.replace, hold]
      rfl
    rw [herror]
    rfl
  | ok old =>
    dsimp only
    rw [h.cell_eq, h.cell_eq]
    have hfind := Pool.get_eq_ok_iff.mp hold
    by_cases hwidth : (p.cell old).entry.isWide ≠ (p.cell id).entry.isWide
    · have herror : p.replace index id
          = .error (.widthMismatch index (p.cell id).entry.tag (p.cell old).entry.tag) := by
        rw [Pool.replace, hold]
        exact if_pos (bne_iff_ne.mpr hwidth)
      rw [if_pos hwidth, herror]
      rfl
    · have hok := Pool.replace_eq_ok.mpr ⟨old, hfind, not_not.mp hwidth, rfl⟩
      rw [if_neg hwidth, hok]
      cases h with
      | bare cells =>
        -- there is nothing to look up without slots
        obtain ⟨-, hget⟩ := Pool.find?_eq_some_iff.mp hfind
        cases hget
      | setUp p =>
        have hpos := Pool.toNat_ne_zero (Pool.find?_eq_some_iff.mp hfind).1
        rw [set_slots_ofPool p hpos]
        rfl

section Inversion

variable {t' : PoolTable} {index : PoolIndex} {id : EntryId} {e : PoolError}

/-- An append in the table succeeds when one in the pool does, with the same index. -/
theorem Holds.append_eq_ok (h : t.Holds p) : (PoolTable.append id).run t = .ok index t' ↔
    ∃ q, p.append id = .ok (index, q) ∧ t' = ofPool q := by
  rw [h.append, inPlace_eq_ok]

/-- It fails with the same error, and nothing was written. -/
theorem Holds.append_eq_error (h : t.Holds p) :
    (PoolTable.append id).run t = .error e t' ↔ p.append id = .error e ∧ t' = t := by
  rw [h.append, inPlace_eq_error]

theorem Holds.replace_eq_ok (h : t.Holds p) : (PoolTable.replace index id).run t = .ok () t' ↔
    ∃ q, p.replace index id = .ok q ∧ t' = ofPool q := by
  rw [h.replace, inPlace_eq_ok]
  cases p.replace index id <;> simp [Except.map]

/-- So does a replacement. -/
theorem Holds.replace_eq_error (h : t.Holds p) :
    (PoolTable.replace index id).run t = .error e t' ↔ p.replace index id = .error e ∧ t' = t := by
  rw [h.replace, inPlace_eq_error]
  cases p.replace index id <;> simp [Except.map]

end Inversion

/-! ## Lists of calls -/

/-- The table after a call, whether it succeeded or failed. -/
def apply (t : PoolTable) : Pool.Call → PoolTable
  | .make cell => { t with cells := t.cells.push cell }
  | .edit id entry => { t with cells := t.cells.modify id fun c => { c with entry } }
  | .append id =>
    match (append id).run t with
    | .ok _ t' => t'
    | .error _ t' => t'
  | .replace index id =>
    match (replace index id).run t with
    | .ok _ t' => t'
    | .error _ t' => t'

/-- The table after a list of calls. -/
def run (t : PoolTable) (calls : List Pool.Call) : PoolTable := calls.foldl apply t

/-- The tables that a program starts with. -/
inductive Initial : PoolTable → Prop
  | bare : Initial .bare
  | new : Initial .new
  | read {p : Pool} {c c' : Cursor} (accepted : Pool.read c = .ok (p, c')) : Initial (ofPool p)

/-- The tables that calls can lead to. -/
def Reachable (t : PoolTable) : Prop := ∃ start calls, Initial start ∧ start.run calls = t

/-- One call in place keeps the table and the pool together. -/
theorem Holds.apply (h : t.Holds p) (call : Pool.Call) :
    (t.apply call).Holds (call.apply p) := by
  cases call with
  | make cell =>
    cases h with
    | bare cells => exact .bare _
    | setUp p => exact Holds.setUp (Pool.Call.apply p (.make cell))
  | edit id entry =>
    cases h with
    | bare cells => exact .bare _
    | setUp p => exact Holds.setUp (Pool.Call.apply p (.edit id entry))
  | append id =>
    rw [PoolTable.apply, h.append, Pool.Call.apply]
    cases p.append id with
    | ok r => exact .setUp _
    | error e => exact h
  | replace index id =>
    rw [PoolTable.apply, h.replace, Pool.Call.apply]
    cases p.replace index id with
    | ok q => exact .setUp _
    | error e => exact h

/-- **Any list of calls in place keeps the table and the pool together.** -/
theorem Holds.run (h : t.Holds p) (calls : List Pool.Call) : (t.run calls).Holds (p.run calls) := by
  induction calls generalizing t p with
  | nil => exact h
  | cons call calls ih => exact ih (h.apply call)

/-- **An index that was given out keeps its constant** over any list of calls that do not replace
it. -/
theorem Holds.get_run (h : t.Holds p) {index : PoolIndex} {id : EntryId}
    (hget : t.get index = .ok id) {calls : List Pool.Call}
    (hcalls : ∀ new, .replace index new ∉ calls) : (t.run calls).get index = .ok id := by
  rw [h.get_eq, Pool.get_eq_ok_iff] at hget
  rw [(h.run calls).get_eq, Pool.get_eq_ok_iff]
  exact Pool.find?_run hget hcalls

theorem Initial.holds (h : Initial t) : ∃ p, Pool.Initial p ∧ t.Holds p := by
  cases h with
  | bare => exact ⟨_, .empty, .bare #[]⟩
  | new => exact ⟨_, .empty, .setUp .empty⟩
  | read accepted => exact ⟨_, .read accepted, .setUp _⟩

/-- And every table with a history holds a pool. -/
theorem Reachable.holds (h : t.Reachable) : ∃ p, t.Holds p := by
  obtain ⟨start, calls, hstart, rfl⟩ := h
  obtain ⟨p, -, hp⟩ := hstart.holds
  exact ⟨_, hp.run calls⟩

/-! ## What a call changes -/

/-- Only one constant was told an index, and nothing else about it changed. -/
structure Told (t t' : PoolTable) (index : PoolIndex) (id : EntryId) : Prop where
  cell_of_ne : ∀ i, i ≠ id → t'.cell i = t.cell i
  entry_eq : (t'.cell id).entry = (t.cell id).entry
  index_eq : id < t.cells.size → (t'.cell id).index = index

/-- What changes when a constant is appended. -/
structure Appended (t t' : PoolTable) (index : PoolIndex) (id : EntryId) : Prop where
  index_eq : index.toNat = t.size
  size_eq : t'.size = t.size + (t.cell id).entry.width
  get_iff : ∀ i e, i.toNat < t.size → (t'.get i = .ok e ↔ t.get i = .ok e)
  get_self : t'.get index = .ok id
  told : Told t t' index id

/-- What changes when a constant takes the place of another. -/
structure Replaced (t t' : PoolTable) (index : PoolIndex) (id : EntryId) : Prop where
  size_eq : t'.size = t.size
  slot_of_ne : ∀ i, i ≠ index.toNat → t'.slots[i]? = t.slots[i]?
  get_self : t'.get index = .ok id
  told : Told t t' index id

namespace Holds

variable {q : Pool} {index : PoolIndex} {id : EntryId}

theorem get_eq_ok_iff (h : t.Holds p) : t.get index = .ok id ↔ p.find? index = some id := by
  rw [h.get_eq, Pool.get_eq_ok_iff]

/-- Without a constant a slot is empty or missing. -/
theorem slot_eq_none_iff (h : t.Holds p) :
    (t.slots[index.toNat]?).join = none ↔ p.find? index = none := by
  rw [Pool.find?]
  by_cases hzero : index = 0
  · subst hzero
    cases h with
    | bare cells => exact iff_of_true rfl rfl
    | setUp p =>
      have hslot : (ofPool p).slots[0]? = some none :=
        Array.getElem?_append_left Nat.zero_lt_one
      exact iff_of_true (congrArg Option.join hslot) rfl
  · have hpos := Pool.toNat_ne_zero hzero
    rw [if_neg hzero]
    cases h with
    | bare cells => exact iff_of_true rfl rfl
    | setUp p => rw [getElem?_slots_ofPool p hpos]

theorem told (h : t.Holds p) (slots : List (Option EntryId)) :
    Told t (ofPool (p.assigned id index slots)) index id := by
  have hnew := Holds.setUp (p.assigned id index slots)
  refine ⟨fun i hne => ?_, ?_, fun hmade => ?_⟩
  · rw [hnew.cell_eq, h.cell_eq, Pool.cell_assigned_of_ne hne]
  · rw [hnew.cell_eq, h.cell_eq, Pool.entry_assigned]
  · rw [hnew.cell_eq]
    refine Pool.index_assigned_self ?_
    cases h <;> exact hmade

/-- All that an append changes, -/
theorem appended (h : t.Holds p) (hok : p.append id = .ok (index, q)) :
    Appended t (ofPool q) index id := by
  have hnew := Holds.setUp q
  obtain ⟨hroom, hindex, hq⟩ := Pool.append_eq_ok.mp hok
  refine ⟨?_, ?_, fun i e hlt => ?_, ?_, ?_⟩
  · rw [h.size_eq, hindex]
    exact Pool.toNat_ofNat_size hroom
  · rw [hnew.size_eq, h.size_eq, h.cell_eq, Pool.size_append hok]
  · rw [h.size_eq] at hlt
    rw [hnew.get_eq_ok_iff, h.get_eq_ok_iff, Pool.find?_append hok hlt]
  · rw [hnew.get_eq_ok_iff, Pool.find?_append_self hok]
  · rw [hq]
    exact h.told _

/-- and all that a replacement does. -/
theorem replaced (h : t.Holds p) (hok : p.replace index id = .ok q) :
    Replaced t (ofPool q) index id := by
  have hnew := Holds.setUp q
  obtain ⟨old, hold, -, hq⟩ := Pool.replace_eq_ok.mp hok
  refine ⟨?_, fun i hne => ?_, ?_, ?_⟩
  · rw [hnew.size_eq, h.size_eq, Pool.size_replace hok]
  · obtain ⟨hindex, hget⟩ := Pool.find?_eq_some_iff.mp hold
    cases h with
    | bare cells => cases hget
    | setUp p =>
      have hpos := Pool.toNat_ne_zero hindex
      have hslots : (ofPool q).slots = (ofPool p).slots.setIfInBounds index.toNat (some id) := by
        rw [set_slots_ofPool p hpos, hq]
        rfl
      rw [hslots, Array.getElem?_setIfInBounds_ne hne.symm]
  · rw [hnew.get_eq_ok_iff, Pool.find?_replace_self hok]
  · rw [hq]
    exact h.told _

end Holds

/-- **Indices are stable, and a call that fails leaves no trace**, in a table with any history. A
constant is appended at the old size, with room for its width, and what stands below stays there. A
constant that takes the place of another changes no other slot. Nothing is appended exactly when the
table would grow beyond the limit, and nothing replaced exactly when the slot is empty or missing or
has another width; every slot, and the index of every constant, is then what it was. -/
theorem updates_stable {t : PoolTable} (h : t.Reachable) (index : PoolIndex) (id : EntryId) :
    (∀ next t', (append id).run t = .ok next t' → Appended t t' next id) ∧
    ((∃ e t', (append id).run t = .error e t') ↔ 0xFFFF < t.size + (t.cell id).entry.width) ∧
    (∀ e t', (append id).run t = .error e t' → t' = t) ∧
    (∀ t', (replace index id).run t = .ok () t' → Replaced t t' index id) ∧
    ((∃ e t', (replace index id).run t = .error e t') ↔ (t.slots[index.toNat]?).join = none ∨
      ∃ old, t.get index = .ok old ∧ (t.cell old).entry.width ≠ (t.cell id).entry.width) ∧
    (∀ e t', (replace index id).run t = .error e t' → t' = t) := by
  obtain ⟨p, hp⟩ := h.holds
  refine ⟨?_, ?_, ?_, ?_, ?_, ?_⟩
  · intro next t' hrun
    obtain ⟨q, hok, rfl⟩ := hp.append_eq_ok.mp hrun
    exact hp.appended hok
  · simp only [hp.append_eq_error, Pool.append_eq_error, hp.size_eq, hp.cell_eq]
    simp
  · intro e t' hrun
    exact (hp.append_eq_error.mp hrun).2
  · intro t' hrun
    obtain ⟨q, hok, rfl⟩ := hp.replace_eq_ok.mp hrun
    exact hp.replaced hok
  · simp only [hp.replace_eq_error, exists_and_left, exists_eq, and_true,
      Pool.exists_replace_eq_error, hp.slot_eq_none_iff, hp.get_eq_ok_iff, hp.cell_eq,
      Entry.width_ne_iff]
  · intro e t' hrun
    exact (hp.replace_eq_error.mp hrun).2

/-- A long behind slot zero, which it made, and an integer that stands in another pool. -/
def wideTable : PoolTable :=
  PoolTable.bare.run [.make ⟨.long 5, 0⟩, .make ⟨.integer 7, 9⟩, .append 0]

/-- The integer cannot take the place of the long, and keeps its index. -/
theorem updates_stable_wideTable :
    Appended wideTable (wideTable.apply (.append 1)) 3 1 ∧
    (∃ e t', (replace 1 1).run wideTable = .error e t') ∧
    ∀ e t', (replace 1 1).run wideTable = .error e t' → (t'.cell 1).index = 9 := by
  have hreachable : wideTable.Reachable := ⟨_, _, .bare, rfl⟩
  obtain ⟨happend, -, -, -, herror, hfailed⟩ := updates_stable hreachable 1 1
  refine ⟨happend _ _ rfl, herror.mpr (.inr ⟨0, rfl, by decide⟩), fun e t' hrun => ?_⟩
  rw [hfailed e t' hrun]
  rfl

end PoolTable

end ClassPrune
