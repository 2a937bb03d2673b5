import ClassPrune.Proofs.Pool.Filling
import ClassPrune.Proofs.Pool.Resolution
import ClassPrune.Proofs.Pool.Writing

/-!
# Pools over their whole history

A program may put the same constant into several slots, take it out of one by putting another in
its place, and go on after a call that was refused. Whatever it does, the slots stay regular.

- `Pool.Call`, `Pool.run`: what a program may do with a pool, and the pool after a list of calls.
- `Pool.append_eq_ok`, `Pool.replace_eq_ok`: all that a call that succeeds does.
- `Pool.Arranged`: what every call preserves (`Arranged.apply`), and so every list of calls.
- `Pool.Claimed`: the constant in a slot claims the slot. A call preserves this when the constant
  that it is given stands in no other slot (`Claimed.apply`).
- `Pool.WellFormed.foldlM_replaceByZero`: filling slots is such a list of calls, none of which is
  refused.
- `Pool.regular_run`: the slots of a pool with any history.
- `Pool.encode_run`: when a pool with any history can be written, and what is wrong with it when it
  cannot.
-/

namespace ClassPrune

namespace Pool

/-! ## Calls -/

/-- What a program may do with a pool and its constants. -/
inductive Call where
  /-- A constant is made, or brought along from another pool with the index that it has there. -/
  | make (cell : Cell)
  /-- The contents of a constant are changed in place. -/
  | edit (id : EntryId) (entry : Entry (Option EntryId))
  | append (id : EntryId)
  | replace (index : PoolIndex) (id : EntryId)

/-- The pool after a call. A call that fails leaves it as it is. -/
def Call.apply (p : Pool) : Call → Pool
  | .make cell => { p with cells := p.cells.push cell }
  | .edit id entry => p.update id entry
  | .append id =>
    match p.append id with
    | .ok (_, q) => q
    | .error _ => p
  | .replace index id =>
    match p.replace index id with
    | .ok q => q
    | .error _ => p

/-- The call names a constant that was made, and an edit leaves its kind as it is. -/
def Call.Allowed (p : Pool) : Call → Prop
  | .make _ => True
  | .edit id entry => entry.tag = (p.cell id).entry.tag
  | .append id => id < p.cells.size
  | .replace _ id => id < p.cells.size

instance (p : Pool) : DecidablePred (Call.Allowed p)
  | .make _ => .isTrue trivial
  | .edit id entry => inferInstanceAs (Decidable (entry.tag = (p.cell id).entry.tag))
  | .append id => inferInstanceAs (Decidable (id < p.cells.size))
  | .replace _ id => inferInstanceAs (Decidable (id < p.cells.size))

/-- The call is given no constant that already occupies another slot. -/
def Call.Unshared (p : Pool) : Call → Prop
  | .append id => ∀ index, p.find? index ≠ some id
  | .replace index id => ∀ i, p.find? i = some id → i = index
  | _ => True

/-- The pool after a list of calls. -/
def run (p : Pool) (calls : List Call) : Pool := calls.foldl Call.apply p

/-- Each call meets `Q` in the pool that it is made on. -/
def Along (Q : Pool → Call → Prop) : Pool → List Call → Prop
  | _, [] => True
  | p, call :: calls => Q p call ∧ Along Q (call.apply p) calls

instance decidableAlong {Q : Pool → Call → Prop} [∀ p call, Decidable (Q p call)] :
    ∀ p calls, Decidable (Along Q p calls)
  | _, [] => .isTrue trivial
  | p, call :: calls =>
    have : Decidable (Along Q (call.apply p) calls) := decidableAlong (call.apply p) calls
    inferInstanceAs (Decidable (Q p call ∧ Along Q (call.apply p) calls))

/-- The pools that a program starts with: an empty one, or one that was read. -/
inductive Initial : Pool → Prop
  | empty : Initial .empty
  | read {p : Pool} {c c' : Cursor} (accepted : Pool.read c = .ok (p, c')) : Initial p

/-! ## Calls that succeed -/

/-- The pool with other slots, and with a constant that was given an index. -/
def assigned (p : Pool) (id : EntryId) (index : PoolIndex) (slots : List (Option EntryId)) :
    Pool where
  cells := p.cells.modify id fun c => { c with index }
  slots := slots.toArray

/-- The slots that a constant takes. -/
def taken (p : Pool) (id : EntryId) : List (Option EntryId) :=
  if (p.cell id).entry.isWide then [some id, none] else [some id]

section Assigned

variable {p : Pool} {id : EntryId} {index : PoolIndex} {slots : List (Option EntryId)}

/-- A write to the array of slots is a write to their list. -/
theorem setIfInBounds_slots (p : Pool) (i : Nat) (slot : Option EntryId) :
    p.slots.setIfInBounds i slot = (p.slots.toList.set i slot).toArray :=
  Array.toList_inj.mp Array.toList_setIfInBounds

theorem size_assigned : (p.assigned id index slots).size = slots.length + 1 := rfl

theorem size_cells_assigned : (p.assigned id index slots).cells.size = p.cells.size :=
  Array.size_modify

/-- Only the constant that was put into slots learns its index. -/
theorem cell_assigned_of_ne {i : EntryId} (h : i ≠ id) :
    (p.assigned id index slots).cell i = p.cell i := by
  show ((p.cells.modify id _)[i]?).getD default = _
  rw [Array.getElem?_modify, if_neg (Ne.symm h)]
  rfl

theorem entry_assigned (i : EntryId) :
    ((p.assigned id index slots).cell i).entry = (p.cell i).entry := by
  by_cases h : i = id
  · subst h
    show (((p.cells.modify i _)[i]?).getD default).entry = _
    rw [Array.getElem?_modify, if_pos rfl, cell]
    cases p.cells[i]? <;> rfl
  · rw [cell_assigned_of_ne h]

theorem index_assigned_self (h : id < p.cells.size) :
    ((p.assigned id index slots).cell id).index = index := by
  show (((p.cells.modify id _)[id]?).getD default).index = _
  rw [Array.getElem?_modify, if_pos rfl, Array.getElem?_eq_getElem h]
  rfl

theorem length_taken : (p.taken id).length = (p.cell id).entry.width := by
  rw [taken, Entry.width]
  split <;> rfl

/-- **A constant is appended exactly when there is room for it**; it takes the slots behind the
last one. -/
theorem append_eq_ok {q : Pool} :
    p.append id = .ok (index, q) ↔ p.size + (p.cell id).entry.width ≤ 0xFFFF ∧
      index = UInt16.ofNat p.size ∧ q = p.assigned id index (p.slots.toList ++ p.taken id) := by
  have hslots : (if (p.cell id).entry.isWide then (p.slots.push (some id)).push none
      else p.slots.push (some id)) = (p.slots.toList ++ p.taken id).toArray := by
    refine Array.toList_inj.mp ?_
    rw [taken]
    by_cases hwide : (p.cell id).entry.isWide = true
    · rw [if_pos hwide, if_pos hwide, Array.toList_push, Array.toList_push, List.append_assoc]
      rfl
    · rw [if_neg hwide, if_neg hwide, Array.toList_push]
  show (if p.size + (p.cell id).entry.width > 0xFFFF then _ else _) = _ ↔ _
  rw [ite_error_eq_ok, Nat.not_lt, assigned, ← hslots]
  refine and_congr_right fun _ => ?_
  constructor
  · intro h
    obtain ⟨rfl, rfl⟩ := Prod.mk.inj (Except.ok.inj h)
    exact ⟨rfl, rfl⟩
  · rintro ⟨rfl, rfl⟩
    rfl

/-- **A constant is replaced exactly when there is one of the same width**; nothing but the slot
and the index of the new constant changes. -/
theorem replace_eq_ok {q : Pool} :
    p.replace index id = .ok q ↔ ∃ old, p.find? index = some old ∧
      (p.cell old).entry.isWide = (p.cell id).entry.isWide ∧
      q = p.assigned id index (p.slots.toList.set (index.toNat - 1) (some id)) := by
  rw [assigned, ← setIfInBounds_slots, replace, bind_eq_ok]
  refine exists_congr fun old => ?_
  rw [get_eq_ok_iff]
  refine and_congr_right fun _ => ?_
  show (if ((p.cell old).entry.isWide != (p.cell id).entry.isWide) = true then Except.error _
    else Except.ok _) = _ ↔ _
  rw [ite_error_eq_ok, bne_iff_ne, not_not]
  refine and_congr_right fun _ => ?_
  constructor
  · intro h
    exact (Except.ok.inj h).symm
  · rintro rfl
    rfl

end Assigned

/-! ## What every call preserves -/

/-- The slots are within the limit and in order, and hold constants that were made. -/
structure Arranged (p : Pool) : Prop where
  size_le : p.size ≤ 0xFFFF
  layout : p.LaidOut p.slots.toList
  made : ∀ id, some id ∈ p.slots.toList → id < p.cells.size

/-- A pool that was read is arranged. -/
theorem WellFormed.arranged {p : Pool} (h : p.WellFormed) : p.Arranged := by
  refine ⟨h.size_le, h.layout, fun id hid => ?_⟩
  obtain ⟨i, hi⟩ := List.mem_iff_getElem?.mp hid
  exact h.lt_size (find?_of_getElem? h.size_le hi)

/-- Slots that are laid out may be put behind others. -/
theorem LaidOut.append {p : Pool} {front back : List (Option EntryId)} (h : p.LaidOut front)
    (hback : p.LaidOut back) : p.LaidOut (front ++ back) := by
  induction h with
  | nil => exact hback
  | narrow width _ ih => exact .narrow width ih
  | wide width _ ih => exact .wide width ih

theorem taken_laidOut (p : Pool) (id : EntryId) : p.LaidOut (p.taken id) := by
  rw [taken]
  by_cases hwide : (p.cell id).entry.isWide = true
  · rw [if_pos hwide]
    exact .wide hwide .nil
  · rw [if_neg hwide]
    exact .narrow (Bool.eq_false_iff.mpr hwide) .nil

theorem mem_taken {p : Pool} {id id' : EntryId} : some id' ∈ p.taken id ↔ id' = id := by
  rw [taken]
  split <;> simp

/-- New constants leave those that were made as they are. -/
theorem cell_push {p : Pool} {cell : Cell} {id : EntryId} (h : id < p.cells.size) :
    ({ p with cells := p.cells.push cell } : Pool).cell id = p.cell id := by
  show ((p.cells.push cell)[id]?).getD default = _
  rw [Array.getElem?_push_lt h, Pool.cell, Array.getElem?_eq_getElem h]

/-- An update changes a constant, not its index, -/
theorem index_update (p : Pool) (id i : EntryId) (entry : Entry (Option EntryId)) :
    ((p.update id entry).cell i).index = (p.cell i).index := by
  show (((p.cells.modify id _)[i]?).getD default).index = ((p.cells[i]?).getD default).index
  rw [Array.getElem?_modify]
  split
  · cases p.cells[i]? <;> rfl
  · rfl

/-- and not the number of slots that it takes. -/
theorem isWide_update {p : Pool} {id : EntryId} {entry : Entry (Option EntryId)}
    (h : entry.tag = (p.cell id).entry.tag) (i : EntryId) :
    ((p.update id entry).cell i).entry.isWide = (p.cell i).entry.isWide := by
  show (((p.cells.modify id _)[i]?).getD default).entry.isWide
    = ((p.cells[i]?).getD default).entry.isWide
  rw [Array.getElem?_modify]
  by_cases hi : id = i
  · subst hi
    rw [if_pos rfl]
    rw [cell] at h
    cases hcell : p.cells[id]? with
    | none => rfl
    | some c =>
      rw [hcell] at h
      exact congrArg Tag.isWide h
  · rw [if_neg hi]

namespace Arranged

variable {p q : Pool} {index : PoolIndex} {id : EntryId}

/-- An append that succeeds leaves the pool arranged: it only adds the slots of one constant behind
the others. -/
theorem append (h : p.Arranged) (hid : id < p.cells.size) (hok : p.append id = .ok (index, q)) :
    q.Arranged := by
  obtain ⟨hroom, -, rfl⟩ := append_eq_ok.mp hok
  refine ⟨?_, ?_, ?_⟩
  · rw [size_assigned, List.length_append, length_taken, Array.length_toList]
    rw [size] at hroom
    omega
  · show LaidOut _ (p.slots.toList ++ p.taken id)
    exact (h.layout.append (taken_laidOut p id)).congr fun i _ => by
      rw [entry_assigned]
  · intro i hi
    rw [size_cells_assigned]
    rcases List.mem_append.mp hi with hi | hi
    · exact h.made i hi
    · rw [mem_taken.mp hi]
      exact hid

/-- So does a replacement that succeeds, since the new constant is as wide as the old one. -/
theorem replace (h : p.Arranged) (hid : id < p.cells.size) (hok : p.replace index id = .ok q) :
    q.Arranged := by
  obtain ⟨old, hold, hwidth, rfl⟩ := replace_eq_ok.mp hok
  obtain ⟨-, hget⟩ := find?_eq_some_iff.mp hold
  refine ⟨?_, ?_, ?_⟩
  · rw [size_assigned, List.length_set, Array.length_toList]
    exact h.size_le
  · show LaidOut _ (p.slots.toList.set (index.toNat - 1) (some id))
    refine h.layout.set (fun i _ => ?_) hget ?_
    · rw [entry_assigned]
    · rw [entry_assigned, hwidth]
  · intro i hi
    rw [size_cells_assigned]
    rcases List.mem_or_eq_of_mem_set hi with hi | hi
    · exact h.made i hi
    · rw [Option.some.inj hi]
      exact hid

/-- **One call keeps the slots in order**, whether it succeeds or fails. -/
theorem apply (h : p.Arranged) {call : Call} (hcall : call.Allowed p) :
    (call.apply p).Arranged := by
  cases call with
  | make cell =>
    refine ⟨h.size_le, ?_, fun id hid => ?_⟩
    · show LaidOut _ p.slots.toList
      exact h.layout.congr fun id hid => by rw [Call.apply, cell_push (h.made id hid)]
    · show id < (p.cells.push cell).size
      rw [Array.size_push]
      exact Nat.lt_succ_of_lt (h.made id hid)
  | edit id entry =>
    refine ⟨h.size_le, ?_, fun i hi => ?_⟩
    · show LaidOut _ p.slots.toList
      exact h.layout.congr fun i _ => isWide_update hcall i
    · show i < (p.cells.modify id _).size
      rw [Array.size_modify]
      exact h.made i hi
  | append id =>
    rw [Call.apply]
    split
    · rename_i index q hok
      exact h.append hcall hok
    · exact h
  | replace index id =>
    rw [Call.apply]
    split
    · rename_i q hok
      exact h.replace hcall hok
    · exact h

/-- **Any list of calls keeps the slots in order.** -/
theorem run (h : p.Arranged) {calls : List Call} (hcalls : p.Along Call.Allowed calls) :
    (p.run calls).Arranged := by
  induction calls generalizing p with
  | nil => exact h
  | cons call calls ih =>
    obtain ⟨hcall, hcalls⟩ := hcalls
    exact ih (h.apply hcall) hcalls

end Arranged

/-! ## Claims -/

theorem mem_slots_of_find? {p : Pool} {index : PoolIndex} {id : EntryId}
    (h : p.find? index = some id) : some id ∈ p.slots.toList :=
  List.mem_of_getElem? (find?_eq_some_iff.mp h).2

/-- The constant in a slot claims the slot. -/
def Claimed (p : Pool) : Prop :=
  ∀ index id, p.find? index = some id → (p.cell id).index = index

theorem getElem?_taken {p : Pool} {id id' : EntryId} {i : Nat}
    (h : (p.taken id)[i]? = some (some id')) : i = 0 ∧ id' = id := by
  rw [taken] at h
  match i with
  | 0 => split at h <;> exact ⟨rfl, (Option.some.inj (Option.some.inj h)).symm⟩
  | 1 => split at h <;> cases h
  | i + 2 => split at h <;> cases h

namespace Claimed

variable {p q : Pool} {index : PoolIndex} {id : EntryId}

/-- The appended constant claims its slot, if it stood nowhere before. -/
theorem append (h : p.Claimed) (hid : id < p.cells.size) (hfresh : ∀ i, p.find? i ≠ some id)
    (hok : p.append id = .ok (index, q)) : q.Claimed := by
  obtain ⟨-, rfl, rfl⟩ := append_eq_ok.mp hok
  intro i k hfind
  obtain ⟨hne, hget⟩ := find?_eq_some_iff.mp hfind
  have hget : (p.slots.toList ++ p.taken id)[i.toNat - 1]? = some (some k) := hget
  by_cases hlt : i.toNat - 1 < p.slots.toList.length
  · -- an old slot, in which the constant did not stand
    rw [List.getElem?_append_left hlt] at hget
    have hold : p.find? i = some k := find?_eq_some_iff.mpr ⟨hne, hget⟩
    have hk : k ≠ id := by
      rintro rfl
      exact hfresh i hold
    rw [cell_assigned_of_ne hk]
    exact h i k hold
  · rw [List.getElem?_append_right (by omega)] at hget
    obtain ⟨hzero, rfl⟩ := getElem?_taken hget
    rw [index_assigned_self hid]
    have hpos := toNat_ne_zero hne
    have hsize : p.size = i.toNat := by
      rw [Array.length_toList] at hlt hzero
      rw [size]
      omega
    rw [hsize, UInt16.ofNat_toNat]

/-- So does a constant that replaced another one; elsewhere it must not have stood. -/
theorem replace (h : p.Claimed) (hid : id < p.cells.size)
    (hfresh : ∀ i, p.find? i = some id → i = index) (hok : p.replace index id = .ok q) :
    q.Claimed := by
  obtain ⟨old, hold, -, rfl⟩ := replace_eq_ok.mp hok
  obtain ⟨hne, hlt⟩ := find?_eq_some_iff.mp hold
  intro i k hfind
  obtain ⟨hi, hget⟩ := find?_eq_some_iff.mp hfind
  have hget : (p.slots.toList.set (index.toNat - 1) (some id))[i.toNat - 1]? = some (some k) := hget
  by_cases hsame : i = index
  · subst hsame
    rw [List.getElem?_set_self (List.getElem?_eq_some_iff.mp hlt).1] at hget
    cases hget
    exact index_assigned_self hid
  · rw [List.getElem?_set_ne (slot_ne hne hi (Ne.symm hsame))] at hget
    have hfind' : p.find? i = some k := find?_eq_some_iff.mpr ⟨hi, hget⟩
    have hk : k ≠ id := by
      rintro rfl
      exact hsame (hfresh i hfind')
    rw [cell_assigned_of_ne hk]
    exact h i k hfind'

/-- One call keeps the claims, when its constant stands in no other slot. -/
theorem apply (h : p.Claimed) (harranged : p.Arranged) {call : Call} (hcall : call.Allowed p)
    (hunshared : call.Unshared p) : (call.apply p).Claimed := by
  cases call with
  | make cell =>
    intro i k hfind
    have hfind : p.find? i = some k := hfind
    have hk := harranged.made k (mem_slots_of_find? hfind)
    rw [Call.apply, cell_push hk]
    exact h i k hfind
  | edit id entry =>
    intro i k hfind
    rw [Call.apply, index_update]
    exact h i k hfind
  | append id =>
    rw [Call.apply]
    split
    · rename_i index q hok
      exact h.append hcall hunshared hok
    · exact h
  | replace index id =>
    rw [Call.apply]
    split
    · rename_i q hok
      exact h.replace hcall hunshared hok
    · exact h

/-- By induction on the calls, as long as no constant is given to two slots. -/
theorem run (h : p.Claimed) (harranged : p.Arranged) {calls : List Call}
    (hcalls : p.Along Call.Allowed calls) (hunshared : p.Along Call.Unshared calls) :
    (p.run calls).Claimed := by
  induction calls generalizing p with
  | nil => exact h
  | cons call calls ih =>
    obtain ⟨hcall, hcalls⟩ := hcalls
    obtain ⟨hone, hunshared⟩ := hunshared
    exact ih (h.apply harranged hcall hone) (harranged.apply hcall) hcalls hunshared

end Claimed

/-! ## Filling as a list of calls -/

/-- Asks for a new number zero in the place of what a slot holds. -/
def replaceByZero (p : Pool) (index : PoolIndex) : Except PoolError Pool :=
  let (id, q) := p.create (.integer 0)
  q.replace index id

/-- A new constant learns its index when it enters a slot. -/
theorem modify_cells_push (cells : Array Cell) (entry : Entry (Option EntryId))
    (index : PoolIndex) : (cells.push ⟨entry, 0⟩).modify cells.size (fun c => { c with index })
      = cells.push ⟨entry, index⟩ := by
  refine Array.ext_getElem? fun i => ?_
  rw [Array.getElem?_modify, Array.getElem?_push, Array.getElem?_push]
  by_cases hi : i = cells.size
  · rw [if_pos hi.symm, if_pos hi, if_pos hi]
    rfl
  · rw [if_neg (Ne.symm hi), if_neg hi, if_neg hi]

/-- Filling a fillable slot is such a call. It is never refused, since the slot is occupied and both
constants take one slot. -/
theorem WellFormed.replaceByZero_eq {p : Pool} {index : PoolIndex} (h : p.WellFormed)
    (hfill : p.Fillable index) : p.replaceByZero index = .ok (p.fillSlot index) := by
  obtain ⟨old, hfind, hnarrow, -⟩ := hfill.exists_find? h
  refine replace_eq_ok.mpr ⟨old, hfind, ?_, ?_⟩
  · have hnew : ((p.create (.integer 0)).2.cell p.cells.size).entry = .integer 0 := by
      show (((p.cells.push _)[p.cells.size]?).getD default).entry = _
      rw [Array.getElem?_push_size]
      rfl
    show ((p.create (.integer 0)).2.cell old).entry.isWide
      = ((p.create (.integer 0)).2.cell p.cells.size).entry.isWide
    rw [hnew, create, cell_push (h.lt_size hfind), hnarrow]
    rfl
  · show Pool.mk (p.cells.push ⟨.integer 0, index⟩) (p.slots.setIfInBounds _ _) = _
    rw [← modify_cells_push, setIfInBounds_slots]
    rfl

/-- Filling many slots is one call after the other, by induction on the slots: those that are still
to be filled stay fillable. -/
theorem WellFormed.foldlM_replaceByZero {p : Pool} (h : p.WellFormed) {indices : List PoolIndex}
    (hfill : ∀ index ∈ indices, p.Fillable index) :
    indices.foldlM replaceByZero p = .ok (p.fill indices) := by
  induction indices generalizing p with
  | nil => rfl
  | cons first indices ih =>
    have hfirst := hfill first List.mem_cons_self
    have hfilled := fillSlot_filled h hfirst
    rw [List.foldlM_cons, h.replaceByZero_eq hfirst]
    exact ih hfilled.wellFormed fun index hindex =>
      hfilled.fillable (hfill index (List.mem_cons_of_mem _ hindex))

/-! ## Regular slots -/

/-- A pool starts with its slots in order, and with the claims in order. -/
theorem Initial.arranged {p : Pool} (h : Initial p) : p.Arranged ∧ p.Claimed := by
  cases h with
  | empty =>
    have hnone (index : PoolIndex) : Pool.empty.find? index = none := by
      rw [find?]
      split <;> rfl
    refine ⟨⟨by decide, .nil, fun id hid => by cases hid⟩, fun index id hfind => ?_⟩
    rw [hnone] at hfind
    cases hfind
  | read accepted =>
    obtain ⟨front, -, -, hwell, -⟩ := read_sound accepted
    exact ⟨hwell.arranged, fun index id hfind => hwell.claims hfind⟩

/-- A two-slot constant stands at an index. -/
def WideAt (p : Pool) (index : PoolIndex) : Prop :=
  p.tag? index = some .long ∨ p.tag? index = some .double

theorem wideAt_iff {p : Pool} {index : PoolIndex} :
    p.WideAt index ↔ ∃ id, p.find? index = some id ∧ (p.cell id).entry.isWide = true := by
  rw [WideAt, tag?, entry?]
  cases p.find? index with
  | none => simp
  | some id =>
    simp only [Option.map_some, Option.some.injEq, exists_eq_left', Entry.isWide]
    cases (p.cell id).entry.tag <;> simp [Tag.isWide]

/-- Slot zero is empty, and every second slot of a long or double. All other slots are occupied. -/
structure Regular (p : Pool) : Prop where
  size_pos : 1 ≤ p.size
  size_le : p.size ≤ 65535
  zero : p.find? 0 = none
  one : 1 < p.size → p.find? 1 ≠ none
  gap : ∀ index : PoolIndex, 2 ≤ index.toNat → index.toNat < p.size →
    (p.find? index = none ↔ p.WideAt (index - 1))
  /-- A long or double is never in the last slot. -/
  room : ∀ index, p.WideAt index → index.toNat + 1 < p.size

/-- A wide constant never stands in the last slot. -/
theorem LaidOut.succ_lt {p : Pool} {slots : List (Option EntryId)} (h : p.LaidOut slots) {i : Nat}
    {id : EntryId} (hget : slots[i]? = some (some id)) (hwide : (p.cell id).entry.isWide = true) :
    i + 1 < slots.length := by
  induction h generalizing i with
  | nil => cases hget
  | narrow width _ ih =>
    rw [List.length_cons]
    cases i with
    | zero =>
      cases hget
      rw [width] at hwide
      cases hwide
    | succ i => exact Nat.succ_lt_succ (ih hget)
  | wide width _ ih =>
    rw [List.length_cons, List.length_cons]
    match i with
    | 0 => omega
    | 1 => cases hget
    | i + 2 =>
      have hlt := ih (i := i) hget
      omega

/-- The slots of an arranged pool are regular. -/
theorem Arranged.regular {p : Pool} (h : p.Arranged) : p.Regular := by
  refine ⟨Nat.le_add_left 1 _, h.size_le, find?_zero p, ?_, ?_, ?_⟩
  · intro hsize hnone
    have hone : (1 : PoolIndex).toNat < p.size := hsize
    rcases (h.layout.find?_eq_none_iff hone).mp hnone with hzero | ⟨id, hfind, -⟩
    · exact absurd hzero (by decide)
    · cases hfind
  · intro index htwo hlt
    rw [h.layout.find?_eq_none_iff hlt, wideAt_iff, or_iff_right]
    rintro rfl
    exact absurd htwo (by decide)
  · intro index hwide
    obtain ⟨id, hfind, hwide⟩ := wideAt_iff.mp hwide
    obtain ⟨hne, hget⟩ := find?_eq_some_iff.mp hfind
    have hlt := h.layout.succ_lt hget hwide
    have hpos := toNat_ne_zero hne
    rw [Array.length_toList] at hlt
    rw [size]
    omega

/-- **The slots of a pool are regular at any time**, whatever was done with the pool since it was
made or read. As long as no call is given a constant that already occupies another slot, the
constant in a slot claims that slot. -/
theorem regular_run {p : Pool} (h : Initial p) {calls : List Call}
    (hcalls : p.Along Call.Allowed calls) :
    (p.run calls).Regular ∧ (p.Along Call.Unshared calls → ∀ index id,
      (p.run calls).find? index = some id → ((p.run calls).cell id).index = index) := by
  obtain ⟨harranged, hclaimed⟩ := h.arranged
  refine ⟨(harranged.run hcalls).regular, fun hunshared => ?_⟩
  exact hclaimed.run harranged hcalls hunshared

/-- A long, a text behind it, and an integer that cannot take the place of the long or of its
second slot, but does take that of the text. -/
def someCalls : List Call :=
  [.make ⟨.long 5, 0⟩, .append 0, .make ⟨.utf8 [0x78], 0⟩, .append 1, .make ⟨.integer 7, 9⟩,
    .replace 1 2, .replace 2 2, .replace 3 2]

theorem someCalls_allowed : Pool.empty.Along Call.Allowed someCalls := by decide

/-- No constant is put into a slot while it stands in another one. -/
theorem someCalls_unshared : Pool.empty.Along Call.Unshared someCalls := by
  refine ⟨trivial, ?_, trivial, ?_, trivial, ?_, ?_, ?_, trivial⟩
  · exact fun index hfind => absurd (mem_slots_of_find? hfind) (by decide)
  · exact fun index hfind => absurd (mem_slots_of_find? hfind) (by decide)
  · exact fun index hfind => absurd (mem_slots_of_find? hfind) (by decide)
  · exact fun index hfind => absurd (mem_slots_of_find? hfind) (by decide)
  · exact fun index hfind => absurd (mem_slots_of_find? hfind) (by decide)

/-- When the long is appended once more, the slots stay regular, but it claims only its second
place. -/
theorem regular_run_someCalls :
    ((Pool.empty.run someCalls).Regular ∧ ∀ index id,
      (Pool.empty.run someCalls).find? index = some id →
        ((Pool.empty.run someCalls).cell id).index = index) ∧
      (Pool.empty.run (someCalls ++ [.append 0])).Regular ∧
      (Pool.empty.run (someCalls ++ [.append 0])).find? 1 = some 0 ∧
      ((Pool.empty.run (someCalls ++ [.append 0])).cell 0).index = 4 := by
  have hagain : Pool.empty.Along Call.Allowed (someCalls ++ [.append 0]) := by decide
  obtain ⟨hregular, hclaims⟩ := regular_run .empty someCalls_allowed
  exact ⟨⟨hregular, hclaims someCalls_unshared⟩, (regular_run .empty hagain).1, by decide,
    by decide⟩

/-! ## Writing -/

/-- **A pool with any history can be written exactly when the constant in every occupied slot is
ready.** Otherwise the first slot that is refused decides, in the order of the indices. What is
written is the constants of the slots, each reference as the index of the moment. -/
theorem encode_run {p q : Pool} (h : Initial p) {calls : List Call}
    (hcalls : p.Along Call.Allowed calls) (hq : p.run calls = q) :
    ((∃ bytes, q.encode = .ok bytes) ↔ ∀ index id, q.find? index = some id → q.Ready index id) ∧
    (∀ e, q.encode = .error e ↔ ∃ index id, q.find? index = some id ∧ q.Refused index id e ∧
      ∀ index' id', index' < index → q.find? index' = some id' → q.Ready index' id') ∧
    ∀ bytes, q.encode = .ok bytes → bytes = Bytes.ofU2 (UInt16.ofNat q.size)
      ++ q.occupied.flatMap fun slot => (q.written slot.2).encode := by
  subst hq
  have hsize := (h.arranged.1.run hcalls).size_le
  refine ⟨⟨?_, ?_⟩, fun e => encode_eq_error_iff hsize, ?_⟩
  · rintro ⟨bytes, hbytes⟩
    exact ((encode_eq_ok_iff hsize).mp hbytes).1
  · intro hready
    exact ⟨_, (encode_eq_ok_iff hsize).mpr ⟨hready, rfl⟩⟩
  · intro bytes hbytes
    exact ((encode_eq_ok_iff hsize).mp hbytes).2

/-- A text and a class of that name. -/
def classCalls : List Call :=
  [.make ⟨.utf8 [0x78], 0⟩, .append 0, .make ⟨.named .classRef (some 0), 0⟩, .append 1]

/-- Another text takes the slot of the first, and the class is written with the index that the old
text keeps. Once the new text stands in a second slot, it claims only that one. -/
def renamedCalls : List Call := classCalls ++ [.make ⟨.utf8 [0x79], 0⟩, .replace 1 2]

/-- A pair of a text without an index and of nothing. -/
def unboundCalls : List Call :=
  classCalls ++ [.make ⟨.utf8 [0x79], 0⟩, .make ⟨.nameAndType (some 2) none, 0⟩, .append 3]

/-- A pool whose class name was replaced, one with a constant in two slots, and one with a reference
that was never bound. -/
theorem encode_run_classCalls :
    ((Pool.empty.run renamedCalls).encode = .ok [0, 3, 1, 0, 1, 0x79, 7, 0, 1] ∧
      ∀ index id, (Pool.empty.run renamedCalls).find? index = some id →
        (Pool.empty.run renamedCalls).Ready index id) ∧
    (Pool.empty.run (renamedCalls ++ [.append 2])).encode = .error (.misplaced 1 3) ∧
    (∃ index id, (Pool.empty.run unboundCalls).find? index = some id ∧
      (Pool.empty.run unboundCalls).Refused index id (.unresolved .nameAndType 3) ∧
        ∀ index' id', index' < index → (Pool.empty.run unboundCalls).find? index' = some id' →
          (Pool.empty.run unboundCalls).Ready index' id') := by
  have hbytes : (Pool.empty.run renamedCalls).encode = .ok [0, 3, 1, 0, 1, 0x79, 7, 0, 1] := by rfl
  have hrenamed : Pool.empty.Along Call.Allowed renamedCalls := by decide
  have hunbound : Pool.empty.Along Call.Allowed unboundCalls := by decide
  obtain ⟨hready, -, -⟩ := encode_run .empty hrenamed rfl
  obtain ⟨-, hrefused, -⟩ := encode_run .empty hunbound rfl
  exact ⟨⟨hbytes, hready.mp ⟨_, hbytes⟩⟩, by rfl, (hrefused _).mp (by rfl)⟩

end Pool

end ClassPrune
