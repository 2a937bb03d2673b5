import ClassPrune.Proofs.Pool.Lookup
import ClassPrune.Strip.Basic

/-!
# Filling slots

Filling puts the number zero into slots whose constants no other constant can name. The slots
around them do not notice: nothing that stays refers to what was replaced.

- `Pool.Fillable`: the slot holds a one-slot constant that no reference may name.
- `Pool.Filled`: what filling gives. Exactly the filled slots hold other constants than before,
  and the pool stays well formed.
- `Pool.fill_filled`: by induction on the slots, from what one slot does (`Pool.fillSlot_filled`).
- `Pool.find?_fill_of_not_mem`, `Pool.entry?_fill_of_not_mem`: a slot that is not filled holds the
  very same constant as before. A filled slot holds the number zero (`Pool.entry?_fill_of_mem`).
- `Pool.Filled.agreeOff`: texts and class names are as before everywhere.
-/

namespace ClassPrune

namespace Pool

/-- The slot holds a one-slot constant that no reference may name. -/
def Fillable (p : Pool) (index : PoolIndex) : Prop :=
  ∃ e, p.constant? index = some e ∧ e.isWide = false ∧
    ∀ target : Target, target.accepts e.tag = false

/-- The constants after filling: the number zero in the filled slots, all else as before. -/
structure Filled (p : Pool) (indices : List PoolIndex) (q : Pool) : Prop where
  wellFormed : q.WellFormed
  size_eq : q.size = p.size
  constant?_filled : ∀ index ∈ indices, q.constant? index = some (.integer 0)
  constant?_kept : ∀ index, index ∉ indices → q.constant? index = p.constant? index

/-! ## One slot -/

section fillSlot

variable {p : Pool} {index : PoolIndex}

theorem size_fillSlot (p : Pool) (index : PoolIndex) : (p.fillSlot index).size = p.size := by
  rw [size, size, fillSlot]
  simp

theorem cell_fillSlot_new (p : Pool) (index : PoolIndex) :
    (p.fillSlot index).cell p.cells.size = ⟨.integer 0, index⟩ := by
  rw [cell, fillSlot]
  simp

theorem cell_fillSlot_old {id : EntryId} (h : id ≠ p.cells.size) :
    (p.fillSlot index).cell id = p.cell id := by
  rw [cell, cell, fillSlot]
  show ((p.cells.push _)[id]?).getD default = _
  rw [Array.getElem?_push, if_neg h]

/-- The filled slot names the new cell, -/
theorem find?_fillSlot_self {id : EntryId} (h : p.find? index = some id) :
    (p.fillSlot index).find? index = some p.cells.size := by
  obtain ⟨hne, hget⟩ := find?_eq_some_iff.mp h
  have hlt := (List.getElem?_eq_some_iff.mp hget).1
  refine find?_eq_some_iff.mpr ⟨hne, ?_⟩
  show ((p.slots.setIfInBounds (index.toNat - 1) (some p.cells.size)).toList)[index.toNat - 1]? = _
  rw [Array.toList_setIfInBounds, List.getElem?_set_self hlt]

/-- and the other slots name what they named. -/
theorem find?_fillSlot_of_ne {i : PoolIndex} (h : p.find? index ≠ none) (hne : i ≠ index) :
    (p.fillSlot index).find? i = p.find? i := by
  have hindex : index ≠ 0 := by
    intro hzero
    exact h (by rw [hzero, find?_zero])
  rw [find?, find?]
  by_cases hzero : i = 0
  · rw [if_pos hzero, if_pos hzero]
  · rw [if_neg hzero, if_neg hzero]
    show (p.slots.setIfInBounds (index.toNat - 1) (some p.cells.size))[i.toNat - 1]?.join = _
    rw [Array.getElem?_setIfInBounds_ne (slot_ne hindex hzero hne.symm)]

/-- The constant in a slot is one of those made so far. -/
theorem WellFormed.lt_size (h : p.WellFormed) {i : PoolIndex} {id : EntryId}
    (hfind : p.find? i = some id) : id < p.cells.size := by
  by_contra hlt
  have hclaim := h.claims hfind
  have hcell : p.cell id = default := by
    rw [cell, Array.getElem?_eq_none (Nat.le_of_not_lt hlt)]
    rfl
  rw [hcell] at hclaim
  exact (find?_eq_some_iff.mp hfind).1 hclaim.symm

theorem WellFormed.ne_size (h : p.WellFormed) {i : PoolIndex} {id : EntryId}
    (hfind : p.find? i = some id) : id ≠ p.cells.size :=
  Nat.ne_of_lt (h.lt_size hfind)

/-- The layout depends on how many slots the constants take, and on nothing else about them. -/
theorem LaidOut.congr {q : Pool} {slots : List (Option EntryId)} (h : p.LaidOut slots)
    (hcells : ∀ id, some id ∈ slots → (q.cell id).entry.isWide = (p.cell id).entry.isWide) :
    q.LaidOut slots := by
  induction h with
  | nil => exact .nil
  | narrow width _ ih =>
    refine .narrow ?_ (ih fun id hid => hcells id (List.mem_cons_of_mem _ hid))
    rw [hcells _ List.mem_cons_self, width]
  | wide width _ ih =>
    refine .wide ?_ (ih fun id hid =>
      hcells id (List.mem_cons_of_mem _ (List.mem_cons_of_mem _ hid)))
    rw [hcells _ List.mem_cons_self, width]

/-- Another constant of the same width in a slot leaves the layout as it is. -/
theorem LaidOut.set {q : Pool} {slots : List (Option EntryId)} (h : p.LaidOut slots)
    (hcells : ∀ id, some id ∈ slots → (q.cell id).entry.isWide = (p.cell id).entry.isWide)
    {i : Nat} {old new : EntryId} (hget : slots[i]? = some (some old))
    (hwidth : (q.cell new).entry.isWide = (p.cell old).entry.isWide) :
    q.LaidOut (slots.set i (some new)) := by
  induction h generalizing i with
  | nil => cases hget
  | narrow width rest ih =>
    have hrest := fun id hid => hcells id (List.mem_cons_of_mem _ hid)
    cases i with
    | zero =>
      cases hget
      exact .narrow (hwidth.trans width) (rest.congr hrest)
    | succ i =>
      refine .narrow ?_ (ih hrest hget)
      rw [hcells _ List.mem_cons_self, width]
  | wide width rest ih =>
    have hrest := fun id hid => hcells id (List.mem_cons_of_mem _ (List.mem_cons_of_mem _ hid))
    match i with
    | 0 =>
      cases hget
      exact .wide (hwidth.trans width) (rest.congr hrest)
    | 1 => cases hget
    | i + 2 =>
      refine .wide ?_ (ih hrest hget)
      rw [hcells _ List.mem_cons_self, width]

/-- The slot of a fillable constant, and why nothing refers to it. -/
theorem Fillable.exists_find? (hfill : p.Fillable index) (h : p.WellFormed) :
    ∃ id, p.find? index = some id ∧ (p.cell id).entry.isWide = false ∧
      ∀ target : Target, target.accepts (p.cell id).entry.tag = false := by
  obtain ⟨e, hconst, hwide, haccepts⟩ := hfill
  obtain ⟨id, hfind, hresolved⟩ := h.constant?_eq_some_iff.mp hconst
  have htag := (Entry.mapRefs_relinked hresolved).tag_eq
  refine ⟨id, hfind, ?_, ?_⟩
  · rw [Entry.isWide, ← htag]
    exact hwide
  · intro target
    rw [← htag]
    exact haccepts target

/-- A reference of a constant that stays is bound as before. -/
theorem WellFormed.bound_fillSlot (h : p.WellFormed) (hfill : p.Fillable index) {t : Target}
    {r : Option EntryId} (hbound : p.Bound t r) : ∃ id, r = some id ∧ id ≠ p.cells.size ∧
      (p.fillSlot index).find? (p.cell id).index = some id ∧
        t.accepts (p.cell id).entry.tag = true := by
  obtain ⟨id, rfl, hfind, haccepts⟩ := hbound
  obtain ⟨old, hold, -, hnone⟩ := hfill.exists_find? h
  refine ⟨id, rfl, h.ne_size hfind, ?_, haccepts⟩
  have hne : (p.cell id).index ≠ index := by
    intro heq
    rw [heq, hold] at hfind
    cases hfind
    rw [hnone t] at haccepts
    cases haccepts
  rw [find?_fillSlot_of_ne (by rw [hold]; exact Option.some_ne_none _) hne]
  exact hfind

/-- A slot holds the new constant, or what it held before. -/
theorem find?_fillSlot_cases {old : EntryId} (hold : p.find? index = some old) {i : PoolIndex}
    {id : EntryId} (hfind : (p.fillSlot index).find? i = some id) :
    (i = index ∧ id = p.cells.size) ∨ p.find? i = some id := by
  by_cases hi : i = index
  · subst hi
    rw [find?_fillSlot_self hold] at hfind
    exact .inl ⟨rfl, (Option.some.inj hfind).symm⟩
  · have hsome : p.find? index ≠ none := by
      rw [hold]
      exact Option.some_ne_none _
    rw [find?_fillSlot_of_ne hsome hi] at hfind
    exact .inr hfind

/-- A pool stays well formed when a slot is filled to which nothing may refer. -/
theorem WellFormed.fillSlot (h : p.WellFormed) (hfill : p.Fillable index) :
    (p.fillSlot index).WellFormed := by
  obtain ⟨old, hold, hnarrow, -⟩ := hfill.exists_find? h
  refine ⟨?_, ?_, ?_, ?_⟩
  · rw [size_fillSlot]
    exact h.size_le
  · -- a narrow constant takes the place of a narrow one
    obtain ⟨-, hget⟩ := find?_eq_some_iff.mp hold
    have hlayout : (p.fillSlot index).LaidOut
        (p.slots.toList.set (index.toNat - 1) (some p.cells.size)) := by
      refine h.layout.set ?_ hget (by rw [cell_fillSlot_new, hnarrow]; rfl)
      intro id hid
      obtain ⟨i, hi⟩ := List.mem_iff_getElem?.mp hid
      rw [cell_fillSlot_old (h.ne_size (find?_of_getElem? h.size_le hi))]
    show (p.fillSlot index).LaidOut (p.slots.setIfInBounds _ _).toList
    rw [Array.toList_setIfInBounds]
    exact hlayout
  · intro i id hfind
    obtain ⟨rfl, rfl⟩ | hfind := find?_fillSlot_cases hold hfind
    · rw [cell_fillSlot_new]
    · rw [cell_fillSlot_old (h.ne_size hfind)]
      exact h.claims hfind
  · intro i id hfind t r hlink
    obtain ⟨rfl, rfl⟩ | hfind := find?_fillSlot_cases hold hfind
    · rw [cell_fillSlot_new] at hlink
      cases hlink
    · -- nothing refers to the slot, so what was bound stays bound
      rw [cell_fillSlot_old (h.ne_size hfind)] at hlink
      obtain ⟨target, rfl, hne, htarget, haccepts⟩ :=
        h.bound_fillSlot hfill (h.bound hfind hlink)
      refine ⟨target, rfl, ?_, ?_⟩
      · rw [cell_fillSlot_old hne]
        exact htarget
      · rw [cell_fillSlot_old hne]
        exact haccepts

/-- What filling one slot does. -/
theorem fillSlot_filled (h : p.WellFormed) (hfill : p.Fillable index) :
    p.Filled [index] (p.fillSlot index) := by
  obtain ⟨old, hold, -, -⟩ := hfill.exists_find? h
  refine ⟨h.fillSlot hfill, size_fillSlot p index, ?_, ?_⟩
  · intro i hi
    obtain rfl := List.mem_singleton.mp hi
    refine constant?_of_find? (find?_fillSlot_self hold) ?_
    rw [cell_fillSlot_new]
    rfl
  · intro i hi
    have hne : i ≠ index := fun heq => hi (List.mem_singleton.mpr heq)
    have hfind := find?_fillSlot_of_ne (by rw [hold]; exact Option.some_ne_none _) hne
    rw [constant?, constant?, hfind]
    cases hcell : p.find? i with
    | none => rfl
    | some id =>
      show ((p.fillSlot index).resolved ((p.fillSlot index).cell id)).toOption
        = (p.resolved (p.cell id)).toOption
      rw [cell_fillSlot_old (h.ne_size hcell), resolved, resolved]
      -- every reference is written as the same index as before
      rw [Entry.mapRefs_congr]
      intro t r hlink
      obtain ⟨target, rfl, hne, -, -⟩ := h.bound_fillSlot hfill (h.bound hcell hlink)
      show (p.fillSlot index).assignedIndex target = p.assignedIndex target
      rw [assignedIndex, assignedIndex, cell_fillSlot_old hne]

end fillSlot

/-! ## Many slots -/

/-- Filling some slots leaves the others as fillable as they were. -/
theorem Filled.fillable {p q : Pool} {indices : List PoolIndex} (h : p.Filled indices q)
    {index : PoolIndex} (hfill : p.Fillable index) : q.Fillable index := by
  by_cases hmem : index ∈ indices
  · refine ⟨.integer 0, h.constant?_filled index hmem, rfl, ?_⟩
    intro target
    cases target <;> rfl
  · obtain ⟨e, hconst, hrest⟩ := hfill
    rw [← h.constant?_kept index hmem] at hconst
    exact ⟨e, hconst, hrest⟩

/-- **Filling changes the filled slots and nothing else.** -/
theorem fill_filled {p : Pool} (h : p.WellFormed) {indices : List PoolIndex}
    (hfill : ∀ index ∈ indices, p.Fillable index) : p.Filled indices (p.fill indices) := by
  induction indices generalizing p with
  | nil => exact ⟨h, rfl, fun index hindex => (nomatch hindex), fun _ _ => rfl⟩
  | cons first indices ih =>
    have hfirst := fillSlot_filled h (hfill first List.mem_cons_self)
    have hrest := ih hfirst.wellFormed fun index hindex =>
      hfirst.fillable (hfill index (List.mem_cons_of_mem _ hindex))
    refine ⟨hrest.wellFormed, hrest.size_eq.trans hfirst.size_eq, ?_, ?_⟩
    · intro index hindex
      -- a slot may be listed twice; then the later filling counts
      by_cases hmem : index ∈ indices
      · exact hrest.constant?_filled index hmem
      · rcases List.mem_cons.mp hindex with rfl | hin
        · refine (hrest.constant?_kept index hmem).trans ?_
          exact hfirst.constant?_filled index (List.mem_singleton.mpr rfl)
        · exact absurd hin hmem
    · intro index hindex
      rw [List.mem_cons, not_or] at hindex
      obtain ⟨hne, hmem⟩ := hindex
      refine (hrest.constant?_kept index hmem).trans ?_
      exact hfirst.constant?_kept index fun hin => hne (List.mem_singleton.mp hin)

/-- A constant that a slot keeps has its identity and its contents as before. -/
theorem cell_fill_of_not_mem {p : Pool} (h : p.WellFormed) {indices : List PoolIndex}
    (hfill : ∀ index ∈ indices, p.Fillable index) {index : PoolIndex} (hmem : index ∉ indices) :
    (p.fill indices).find? index = p.find? index ∧
      ∀ id, p.find? index = some id → (p.fill indices).cell id = p.cell id := by
  induction indices generalizing p with
  | nil => exact ⟨rfl, fun _ _ => rfl⟩
  | cons first indices ih =>
    rw [List.mem_cons, not_or] at hmem
    obtain ⟨hne, hmem⟩ := hmem
    have hfirst := fillSlot_filled h (hfill first List.mem_cons_self)
    obtain ⟨old, hold, -, -⟩ := (hfill first List.mem_cons_self).exists_find? h
    have hfind : (p.fillSlot first).find? index = p.find? index :=
      find?_fillSlot_of_ne (by simp [hold]) hne
    obtain ⟨hrestFind, hrestCell⟩ := ih hfirst.wellFormed (fun i hi =>
      hfirst.fillable (hfill i (List.mem_cons_of_mem _ hi))) hmem
    refine ⟨hrestFind.trans hfind, fun id hid => ?_⟩
    exact (hrestCell id (hfind.trans hid)).trans (cell_fillSlot_old (h.ne_size hid))

theorem find?_fill_of_not_mem {p : Pool} (h : p.WellFormed) {indices : List PoolIndex}
    (hfill : ∀ index ∈ indices, p.Fillable index) {index : PoolIndex} (hmem : index ∉ indices) :
    (p.fill indices).find? index = p.find? index :=
  (cell_fill_of_not_mem h hfill hmem).1

theorem entry?_fill_of_not_mem {p : Pool} (h : p.WellFormed) {indices : List PoolIndex}
    (hfill : ∀ index ∈ indices, p.Fillable index) {index : PoolIndex} (hmem : index ∉ indices) :
    Pool.entry? (p.fill indices) index = p.entry? index := by
  obtain ⟨hfind, hcell⟩ := cell_fill_of_not_mem h hfill hmem
  rw [ entry?, entry?, hfind]
  cases hid : p.find? index with
  | none => rfl
  | some id => simp only [Option.map_some, hcell id hid]

/-- A constant without references stands in the pool as a file gives it. -/
theorem WellFormed.entry?_of_integer {p : Pool} (h : p.WellFormed) {index : PoolIndex}
    {bits : UInt32} (hconst : p.constant? index = some (.integer bits)) :
    p.entry? index = some (.integer bits) := by
  obtain ⟨id, hfind, hresolved⟩ := h.constant?_eq_some_iff.mp hconst
  have hentry : (p.cell id).entry = .integer bits := by
    rw [resolved] at hresolved
    cases hkind : (p.cell id).entry with
    | integer _ =>
      rw [hkind] at hresolved
      cases hresolved
      rfl
    | utf8 _ | float _ | long _ | double _ =>
      rw [hkind] at hresolved
      cases hresolved
    | named _ _ | methodHandle _ _ | computed _ _ _ =>
      rw [hkind] at hresolved
      obtain ⟨_, -, hmake⟩ := Entry.bind_one_eq_ok.mp hresolved
      cases hmake
    | member _ _ _ | nameAndType _ _ =>
      rw [hkind] at hresolved
      obtain ⟨_, _, -, -, hmake⟩ := Entry.bind_pair_eq_ok.mp hresolved
      cases hmake
  rw [ entry?, hfind, Option.map_some, hentry]

/-- A filled slot holds the number zero. -/
theorem entry?_fill_of_mem {p : Pool} (h : p.WellFormed) {indices : List PoolIndex}
    (hfill : ∀ index ∈ indices, p.Fillable index) {index : PoolIndex} (hmem : index ∈ indices) :
    Pool.entry? (p.fill indices) index = some (.integer 0) := by
  have hfilled := fill_filled h hfill
  exact hfilled.wellFormed.entry?_of_integer (hfilled.constant?_filled index hmem)

/-- A pool can be written exactly when its constants can. -/
theorem WellFormed.storable_iff {p : Pool} (h : p.WellFormed) :
    p.Storable ↔ ∀ index e, p.constant? index = some e → e.Storable := by
  constructor
  · intro hstorable index e hconst
    obtain ⟨id, hfind, hresolved⟩ := h.constant?_eq_some_iff.mp hconst
    exact (Entry.mapRefs_relinked hresolved).storable_iff.mpr (hstorable hfind)
  · intro hconst index id hfind
    obtain ⟨e, he⟩ := h.exists_resolved hfind
    exact (Entry.mapRefs_relinked he).storable_iff.mp (hconst index e (constant?_of_find? hfind he))

namespace Filled

variable {p q : Pool} {indices : List PoolIndex}

/-- The number zero has a place in the format, so the pool is as storable as it was. -/
theorem storable (hq : p.Filled indices q) (h : p.WellFormed) (hstorable : p.Storable) :
    q.Storable := by
  refine hq.wellFormed.storable_iff.mpr fun index e hconst => ?_
  by_cases hmem : index ∈ indices
  · rw [hq.constant?_filled index hmem] at hconst
    cases hconst
    trivial
  · rw [hq.constant?_kept index hmem] at hconst
    exact h.storable_iff.mp hstorable index e hconst

/-- A constant that no reference may name has no text and is no class. -/
theorem text_of_unaccepted {e : Entry PoolIndex}
    (h : ∀ target : Target, target.accepts e.tag = false) : e.text = "" ∧ e.className? = none := by
  cases e with
  | utf8 raw => cases h .text
  | named kind text =>
    cases kind with
    | classRef => cases h .classRef
    | _ => exact ⟨rfl, rfl⟩
  | _ => exact ⟨rfl, rfl⟩

/-- Texts and class names are as before, and so are the kinds outside the filled slots. -/
theorem agreeOff (hq : p.Filled indices q) (h : p.WellFormed)
    (hfill : ∀ index ∈ indices, p.Fillable index) : AgreeOff indices p q := by
  have hutf8 : q.utf8 = p.utf8 := by
    funext index
    rw [hq.wellFormed.utf8_eq, h.utf8_eq]
    by_cases hmem : index ∈ indices
    · -- neither the old constant nor the number has a text
      obtain ⟨e, hconst, -, haccepts⟩ := hfill index hmem
      rw [hq.constant?_filled index hmem, hconst]
      show "" = e.text
      rw [(text_of_unaccepted haccepts).1]
    · rw [hq.constant?_kept index hmem]
  refine ⟨hutf8, ?_, ?_⟩
  · funext index
    rw [hq.wellFormed.className_eq, h.className_eq, hutf8]
    by_cases hmem : index ∈ indices
    · obtain ⟨e, hconst, -, haccepts⟩ := hfill index hmem
      rw [hq.constant?_filled index hmem, hconst]
      show "" = ((e.className?).map p.utf8).getD ""
      rw [(text_of_unaccepted haccepts).2]
      rfl
    · rw [hq.constant?_kept index hmem]
  · intro index hmem
    rw [hq.wellFormed.tag?_eq, h.tag?_eq, hq.constant?_kept index hmem]

/-- The number zero takes as many bytes as the dynamic constants and call sites that it replaces. -/
theorem length_encode {p q : Pool} {indices : List PoolIndex} (hq : p.Filled indices q)
    (h : p.WellFormed) (hstorable : p.Storable)
    (hcomputed : ∀ index ∈ indices, ∃ kind bootstrap nameType,
      p.constant? index = some (.computed kind bootstrap nameType)) {front front' : Bytes}
    (hfront : p.encode = .ok front) (hfront' : q.encode = .ok front') :
    front'.length = front.length := by
  refine length_encode_congr h hq.wellFormed hstorable (hq.storable h hstorable) hq.size_eq
    (fun index => ?_) hfront hfront'
  by_cases hmem : index ∈ indices
  · obtain ⟨kind, bootstrap, nameType, hconst⟩ := hcomputed index hmem
    rw [hq.constant?_filled index hmem, hconst]
    rfl
  · rw [hq.constant?_kept index hmem]

end Filled

end Pool

end ClassPrune
