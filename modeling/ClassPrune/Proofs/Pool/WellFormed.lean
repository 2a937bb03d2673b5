import ClassPrune.Pool.Lookup
import ClassPrune.Pool.Writing
import ClassPrune.Proofs.Pool.Entry
import Mathlib.Algebra.GroupWithZero.Nat

/-!
# Well-formed pools

A pool keeps constants with an identity of their own, a file keeps a list of constants that name
each other by index. This module relates the two.

- `Pool.WellFormed`: every slot holds a constant that claims the slot, and every reference is
  bound to the constant that occupies the slot of its index.
- `Pool.constant?`: what a file says about a slot, references as indices.
- `Pool.Spells`: the slots of a pool spell a list of constants, one after the other. A well-formed
  pool spells exactly one list (`Pool.WellFormed.exists_image`), and what it spells is what is
  written (`Pool.encode_of_image`) and what look-ups see (`Pool.constant?_of_image`).
- `Pool.SameConstants`: two pools agree slot by slot. Look-ups by index cannot tell such pools
  apart when they are well formed.
- `Pool.length_encode_congr`: pools take equally many bytes when their slots do.
-/

namespace ClassPrune

namespace Pool

/-! ## Well-formedness -/

/-- The upper slot of each two-slot constant is empty, and no other slot is. -/
inductive LaidOut (p : Pool) : List (Option EntryId) → Prop
  | nil : LaidOut p []
  | narrow {id : EntryId} {slots : List (Option EntryId)}
    (width : (p.cell id).entry.isWide = false) (rest : LaidOut p slots) :
    LaidOut p (some id :: slots)
  | wide {id : EntryId} {slots : List (Option EntryId)}
    (width : (p.cell id).entry.isWide = true) (rest : LaidOut p slots) :
    LaidOut p (some id :: none :: slots)

/-- A reference is bound to a constant of a kind that fits, and this constant occupies the slot
whose index it claims. -/
def Bound (p : Pool) (target : Target) (r : Option EntryId) : Prop :=
  ∃ id, r = some id ∧ p.find? (p.cell id).index = some id ∧
    target.accepts (p.cell id).entry.tag = true

/-- Slots and constants agree about who stands where. -/
structure WellFormed (p : Pool) : Prop where
  size_le : p.size ≤ 0xFFFF
  layout : p.LaidOut p.slots.toList
  /-- The constant in a slot claims that slot. -/
  claims : ∀ {index : PoolIndex} {id : EntryId}, p.find? index = some id →
    (p.cell id).index = index
  /-- No reference is unbound, or bound to a constant that is not in its slot. -/
  bound : ∀ {index : PoolIndex} {id : EntryId}, p.find? index = some id →
    ∀ {t : Target} {r : Option EntryId}, (t, r) ∈ (p.cell id).entry.links → p.Bound t r

/-- Every constant of the pool has a place in the format. -/
def Storable (p : Pool) : Prop :=
  ∀ {index : PoolIndex} {id : EntryId}, p.find? index = some id → (p.cell id).entry.Storable

/-! ## Slots by number -/

theorem toNat_ne_zero {i : PoolIndex} (h : i ≠ 0) : i.toNat ≠ 0 :=
  fun hzero => h (UInt16.toNat_inj.mp hzero)

/-- Different indices have different slots. -/
theorem slot_ne {i j : PoolIndex} (hi : i ≠ 0) (hj : j ≠ 0) (hne : i ≠ j) :
    i.toNat - 1 ≠ j.toNat - 1 := by
  have h₁ := toNat_ne_zero hi
  have h₂ := toNat_ne_zero hj
  have h₃ : i.toNat ≠ j.toNat := fun heq => hne (UInt16.toNat_inj.mp heq)
  omega

/-- Slots are numbered from one. -/
theorem find?_eq_some_iff {p : Pool} {index : PoolIndex} {id : EntryId} :
    p.find? index = some id ↔ index ≠ 0 ∧ p.slots.toList[index.toNat - 1]? = some (some id) := by
  rw [find?]
  by_cases hzero : index = 0
  · simp [hzero]
  · rw [if_neg hzero, Option.join_eq_some_iff]
    simp [hzero]

theorem find?_zero (p : Pool) : p.find? 0 = none := rfl

/-- A constant in slot `i`, counted from zero, is found under its index. -/
theorem find?_of_getElem? {p : Pool} (hsize : p.size ≤ 0xFFFF) {i : Nat} {id : EntryId}
    (h : p.slots.toList[i]? = some (some id)) : p.find? (UInt16.ofNat (i + 1)) = some id := by
  have hlt : i < p.slots.size := by
    have := (List.getElem?_eq_some_iff.mp h).1
    simpa using this
  have hindex : (UInt16.ofNat (i + 1)).toNat = i + 1 := by
    rw [size] at hsize
    rw [UInt16.toNat_ofNat', Nat.mod_eq_of_lt (by omega)]
  refine find?_eq_some_iff.mpr ⟨?_, ?_⟩
  · intro hzero
    rw [hzero] at hindex
    cases hindex
  · rw [hindex]
    exact h

theorem toNat_lt_size {p : Pool} {index : PoolIndex} {id : EntryId}
    (h : p.find? index = some id) : index.toNat < p.size := by
  obtain ⟨-, hget⟩ := find?_eq_some_iff.mp h
  have hlt := (List.getElem?_eq_some_iff.mp hget).1
  rw [Array.length_toList] at hlt
  rw [size]
  omega

/-- The occupied slots are those in which something is found. -/
theorem mem_occupied_iff {p : Pool} (hsize : p.size ≤ 0xFFFF) {index : PoolIndex} {id : EntryId} :
    (index, id) ∈ p.occupied ↔ p.find? index = some id := by
  rw [occupied, List.mem_filterMap]
  constructor
  · rintro ⟨⟨slot, i⟩, hmem, heq⟩
    have hget := List.mem_zipIdx_iff_getElem?.mp hmem
    cases slot with
    | none => cases heq
    | some id' =>
      cases heq
      exact find?_of_getElem? hsize hget
  · intro hfind
    obtain ⟨hne, hget⟩ := find?_eq_some_iff.mp hfind
    refine ⟨(some id, index.toNat - 1), List.mem_zipIdx_iff_getElem?.mpr hget, ?_⟩
    have hpos := toNat_ne_zero hne
    have hindex : UInt16.ofNat (index.toNat - 1 + 1) = index := by
      rw [Nat.sub_add_cancel (by omega), UInt16.ofNat_toNat]
    show some (UInt16.ofNat (index.toNat - 1 + 1), id) = some (index, id)
    rw [hindex]

/-- The occupied slots are listed in increasing order. -/
theorem occupied_ascending {p : Pool} (hsize : p.size ≤ 0xFFFF) :
    p.occupied.Pairwise fun slot slot' => slot.1 < slot'.1 := by
  have hnumbers : p.slots.toList.zipIdx.Pairwise fun slot slot' => slot.2 < slot'.2 := by
    rw [← List.pairwise_map (f := Prod.snd), List.zipIdx_map_snd]
    exact List.pairwise_lt_range'
  rw [occupied, List.pairwise_filterMap]
  refine hnumbers.imp_of_mem fun {slot slot'} hslot hslot' hlt => ?_
  intro found hfound found' hfound'
  obtain ⟨id, -, rfl⟩ := Option.map_eq_some_iff.mp hfound
  obtain ⟨id', -, rfl⟩ := Option.map_eq_some_iff.mp hfound'
  have hbound := List.snd_lt_of_mem_zipIdx hslot
  have hbound' := List.snd_lt_of_mem_zipIdx hslot'
  rw [size] at hsize
  rw [Array.length_toList] at hbound hbound'
  show UInt16.ofNat (slot.2 + 1) < UInt16.ofNat (slot'.2 + 1)
  rw [UInt16.lt_iff_toNat_lt, UInt16.toNat_ofNat_of_lt' (by show _ < 65536; omega),
    UInt16.toNat_ofNat_of_lt' (by show _ < 65536; omega)]
  omega

/-! ## What a file says -/

/-- The constant in a slot as a file gives it, its references as indices. -/
def constant? (p : Pool) (index : PoolIndex) : Option (Entry PoolIndex) :=
  (p.find? index).bind fun id => (p.resolved (p.cell id)).toOption

/-- Two pools hold the same constants in the same slots. -/
structure SameConstants (p q : Pool) : Prop where
  size_eq : p.size = q.size
  constant_eq : ∀ index, p.constant? index = q.constant? index

/-- A bound reference is written as the index of the slot that it leads to. -/
theorem Bound.assigned {p : Pool} {t : Target} {r : Option EntryId} (h : p.Bound t r) :
    ∃ id, r = some id ∧ p.assignedIndex id = .ok (p.cell id).index := by
  obtain ⟨id, rfl, hfind, -⟩ := h
  refine ⟨id, rfl, ?_⟩
  have hne := (find?_eq_some_iff.mp hfind).1
  simp only [assignedIndex, if_neg hne]

/-- In a well-formed pool each constant has a form in the file. -/
theorem WellFormed.exists_resolved {p : Pool} (h : p.WellFormed) {index : PoolIndex}
    {id : EntryId} (hfind : p.find? index = some id) : ∃ e, p.resolved (p.cell id) = .ok e := by
  refine Entry.mapRefs_total fun t r hlink => ?_
  obtain ⟨target, rfl, hassigned⟩ := (h.bound hfind hlink).assigned
  exact ⟨_, hassigned⟩

theorem constant?_of_find? {p : Pool} {index : PoolIndex} {id : EntryId} {e : Entry PoolIndex}
    (hfind : p.find? index = some id) (hresolved : p.resolved (p.cell id) = .ok e) :
    p.constant? index = some e := by
  rw [constant?, hfind]
  show (p.resolved (p.cell id)).toOption = some e
  rw [hresolved]
  rfl

/-- A file says of a slot what the constant in it resolves to. -/
theorem WellFormed.constant?_eq_some_iff {p : Pool} (h : p.WellFormed) {index : PoolIndex}
    {e : Entry PoolIndex} :
    p.constant? index = some e ↔ ∃ id, p.find? index = some id ∧
      p.resolved (p.cell id) = .ok e := by
  constructor
  · intro hconst
    cases hfind : p.find? index with
    | none =>
      rw [constant?, hfind] at hconst
      cases hconst
    | some id =>
      obtain ⟨e', hresolved⟩ := h.exists_resolved hfind
      have heq := constant?_of_find? hfind hresolved
      rw [hconst] at heq
      cases heq
      exact ⟨id, rfl, hresolved⟩
  · rintro ⟨id, hfind, hresolved⟩
    exact constant?_of_find? hfind hresolved

/-! ## Spelling -/

/-- The given slots, the first being slot `index`, hold the given constants one after the
other. -/
inductive Spells (p : Pool) : Nat → List (Option EntryId) → List (Entry PoolIndex) → Prop
  | nil {index : Nat} : Spells p index [] []
  | narrow {index : Nat} {id : EntryId} {e : Entry PoolIndex} {slots : List (Option EntryId)}
    {es : List (Entry PoolIndex)} (claims : (p.cell id).index = UInt16.ofNat index)
    (resolved : p.resolved (p.cell id) = .ok e) (width : e.isWide = false)
    (rest : Spells p (index + 1) slots es) : Spells p index (some id :: slots) (e :: es)
  | wide {index : Nat} {id : EntryId} {e : Entry PoolIndex} {slots : List (Option EntryId)}
    {es : List (Entry PoolIndex)} (claims : (p.cell id).index = UInt16.ofNat index)
    (resolved : p.resolved (p.cell id) = .ok e) (width : e.isWide = true)
    (rest : Spells p (index + 2) slots es) : Spells p index (some id :: none :: slots) (e :: es)

/-- The list of constants that a pool is written as. -/
def Image (p : Pool) (es : List (Entry PoolIndex)) : Prop := p.Spells 1 p.slots.toList es

/-- The constant in slot `i` of a list of constants, counted from zero. -/
def slotOf? : List (Entry PoolIndex) → Nat → Option (Entry PoolIndex)
  | [], _ => none
  | e :: es, i =>
    if i = 0 then some e else if i < e.width then none else slotOf? es (i - e.width)

/-- How many slots constants take. -/
def slotCount : List (Entry PoolIndex) → Nat
  | [] => 0
  | e :: es => e.width + slotCount es

theorem width_narrow {ρ : Type} {e : Entry ρ} (h : e.isWide = false) : e.width = 1 := by
  rw [Entry.width, if_neg (by simp [h])]

theorem width_wide {ρ : Type} {e : Entry ρ} (h : e.isWide = true) : e.width = 2 := by
  rw [Entry.width, if_pos h]

/-- Behind the slots of the first constant come those of the others. -/
theorem slotOf?_cons_add (e : Entry PoolIndex) (es : List (Entry PoolIndex)) (i : Nat) :
    slotOf? (e :: es) (i + e.width) = slotOf? es i := by
  have hpos : 0 < e.width := by
    rw [Entry.width]
    split <;> decide
  rw [slotOf?, if_neg (by omega), if_neg (by omega), Nat.add_sub_cancel]

theorem Spells.length_slots {p : Pool} {index : Nat} {slots : List (Option EntryId)}
    {es : List (Entry PoolIndex)} (h : p.Spells index slots es) : slots.length = slotCount es := by
  induction h with
  | nil => rfl
  | narrow _ _ width _ ih =>
    rw [List.length_cons, slotCount, ih, width_narrow width]
    omega
  | wide _ _ width _ ih =>
    rw [List.length_cons, List.length_cons, slotCount, ih, width_wide width]
    omega

theorem Image.size_eq {p : Pool} {es : List (Entry PoolIndex)} (h : p.Image es) :
    p.size = slotCount es + 1 := by
  have hlen := h.length_slots
  rw [Array.length_toList] at hlen
  rw [size, hlen]

/-- Slot by slot, a spelling is empty where its list of constants has no constant, and holds a
constant that claims the slot elsewhere. -/
theorem Spells.getElem? {p : Pool} {index : Nat} {slots : List (Option EntryId)}
    {es : List (Entry PoolIndex)} (h : p.Spells index slots es) (i : Nat) :
    (slots[i]?.join = none ∧ slotOf? es i = none) ∨
      ∃ id e, slots[i]? = some (some id) ∧ slotOf? es i = some e ∧
        p.resolved (p.cell id) = .ok e ∧ (p.cell id).index = UInt16.ofNat (index + i) := by
  induction h generalizing i with
  | nil => exact .inl ⟨rfl, rfl⟩
  | @narrow index id e slots es claims resolved width _ ih =>
    cases i with
    | zero => exact .inr ⟨id, e, rfl, rfl, resolved, claims⟩
    | succ i =>
      have hslot : slotOf? (e :: es) (i + 1) = slotOf? es i := by
        rw [← width_narrow width, slotOf?_cons_add]
      rw [hslot, List.getElem?_cons_succ, show index + (i + 1) = index + 1 + i by omega]
      exact ih i
  | @wide index id e slots es claims resolved width _ ih =>
    match i with
    | 0 => exact .inr ⟨id, e, rfl, rfl, resolved, claims⟩
    | 1 =>
      refine .inl ⟨rfl, ?_⟩
      rw [slotOf?, if_neg (by decide), if_pos (by rw [width_wide width]; decide)]
    | i + 2 =>
      have hslot : slotOf? (e :: es) (i + 2) = slotOf? es i := by
        rw [← width_wide width, slotOf?_cons_add]
      rw [hslot, List.getElem?_cons_succ, List.getElem?_cons_succ,
        show index + (i + 2) = index + 2 + i by omega]
      exact ih i

/-- Look-ups see what the pool spells. -/
theorem constant?_of_image {p : Pool} {es : List (Entry PoolIndex)} (h : p.Image es)
    (index : PoolIndex) :
    p.constant? index = if index = 0 then none else slotOf? es (index.toNat - 1) := by
  by_cases hzero : index = 0
  · rw [if_pos hzero, hzero, constant?, find?_zero]
    rfl
  · rw [if_neg hzero]
    rcases h.getElem? (index.toNat - 1) with ⟨hempty, hnone⟩ | ⟨id, e, hslot, hsome, hres, -⟩
    · have hfind : p.find? index = none := by
        rw [find?, if_neg hzero, ← Array.getElem?_toList]
        exact hempty
      rw [hnone, constant?, hfind]
      rfl
    · rw [hsome]
      exact constant?_of_find? (find?_eq_some_iff.mpr ⟨hzero, hslot⟩) hres

/-- Pools that spell the same constants agree slot by slot. -/
theorem sameConstants_of_image {p q : Pool} {es : List (Entry PoolIndex)} (hp : p.Image es)
    (hq : q.Image es) : p.SameConstants q := by
  refine ⟨hp.size_eq.trans hq.size_eq.symm, fun index => ?_⟩
  rw [constant?_of_image hp, constant?_of_image hq]

/-- Every link of every constant leads to a constant of a kind that fits. -/
def WellLinked (es : List (Entry PoolIndex)) : Prop :=
  ∀ e ∈ es, ∀ {t : Target} {index : PoolIndex}, (t, index) ∈ e.links →
    index ≠ 0 ∧ ∃ e', slotOf? es (index.toNat - 1) = some e' ∧ t.accepts e'.tag = true

/-- Slots that are laid out spell a list, if each constant claims its slot and resolves. -/
theorem spells_of_laidOut {p : Pool} {slots : List (Option EntryId)} (hlaid : p.LaidOut slots)
    {index : Nat} (hslot : ∀ {i id}, slots[i]? = some (some id) →
      (p.cell id).index = UInt16.ofNat (index + i) ∧ ∃ e, p.resolved (p.cell id) = .ok e) :
    ∃ es, p.Spells index slots es := by
  induction hlaid generalizing index with
  | nil => exact ⟨[], .nil⟩
  | @narrow id slots width _ ih =>
    obtain ⟨hclaims, e, he⟩ := @hslot 0 id rfl
    have hrest : ∀ {i id}, slots[i]? = some (some id) →
        (p.cell id).index = UInt16.ofNat (index + 1 + i) ∧
          ∃ e, p.resolved (p.cell id) = .ok e := by
      intro i id' hi
      rw [show index + 1 + i = index + (i + 1) by omega]
      exact hslot hi
    obtain ⟨es, hes⟩ := ih hrest
    have hwidth : e.isWide = false := by
      rw [Entry.isWide, (Entry.mapRefs_relinked he).tag_eq]
      exact width
    exact ⟨e :: es, .narrow hclaims he hwidth hes⟩
  | @wide id slots width _ ih =>
    obtain ⟨hclaims, e, he⟩ := @hslot 0 id rfl
    have hrest : ∀ {i id}, slots[i]? = some (some id) →
        (p.cell id).index = UInt16.ofNat (index + 2 + i) ∧
          ∃ e, p.resolved (p.cell id) = .ok e := by
      intro i id' hi
      rw [show index + 2 + i = index + (i + 2) by omega]
      exact hslot hi
    obtain ⟨es, hes⟩ := ih hrest
    have hwidth : e.isWide = true := by
      rw [Entry.isWide, (Entry.mapRefs_relinked he).tag_eq]
      exact width
    exact ⟨e :: es, .wide hclaims he hwidth hes⟩

/-- A well-formed pool spells a list of constants. -/
theorem WellFormed.exists_image {p : Pool} (h : p.WellFormed) : ∃ es, p.Image es := by
  refine spells_of_laidOut h.layout fun {i id} hi => ?_
  have hfind := find?_of_getElem? h.size_le hi
  rw [Nat.add_comm 1 i]
  exact ⟨h.claims hfind, h.exists_resolved hfind⟩

theorem exists_slotOf?_of_mem {e : Entry PoolIndex} {es : List (Entry PoolIndex)} (h : e ∈ es) :
    ∃ i, slotOf? es i = some e := by
  induction es with
  | nil => cases h
  | cons e' es ih =>
    rcases List.mem_cons.mp h with rfl | htail
    · exact ⟨0, rfl⟩
    · obtain ⟨i, hi⟩ := ih htail
      exact ⟨i + e'.width, by rw [slotOf?_cons_add, hi]⟩

/-- Every constant of the image stands in a slot. -/
theorem exists_find?_of_mem_image {p : Pool} (hsize : p.size ≤ 0xFFFF)
    {es : List (Entry PoolIndex)} (himage : p.Image es) {e : Entry PoolIndex} (hmem : e ∈ es) :
    ∃ index id, p.find? index = some id ∧ p.resolved (p.cell id) = .ok e := by
  obtain ⟨i, hi⟩ := exists_slotOf?_of_mem hmem
  rcases himage.getElem? i with ⟨-, hnone⟩ | ⟨id, e', hslot, hsome, hres, -⟩
  · rw [hi] at hnone
    cases hnone
  · rw [hi] at hsome
    cases hsome
    exact ⟨_, id, find?_of_getElem? hsize hslot, hres⟩

/-- What a well-formed pool spells is well linked. -/
theorem WellFormed.wellLinked {p : Pool} (h : p.WellFormed) {es : List (Entry PoolIndex)}
    (himage : p.Image es) : WellLinked es := by
  intro e hmem t index hlink
  obtain ⟨at_, id, hfind, hres⟩ := exists_find?_of_mem_image h.size_le himage hmem
  obtain ⟨r, hr, hassigned⟩ := (Entry.mapRefs_relinked hres).exists_old hlink
  obtain ⟨target, rfl, hoccupies, haccepts⟩ := h.bound hfind hr
  have hne := (find?_eq_some_iff.mp hoccupies).1
  have hindex : index = (p.cell target).index := by
    simp only [assignedIndex, if_neg hne] at hassigned
    exact (Except.ok.inj hassigned).symm
  obtain ⟨e', hres'⟩ := h.exists_resolved hoccupies
  have hconst := constant?_of_find? hoccupies hres'
  rw [constant?_of_image himage, if_neg hne] at hconst
  rw [hindex]
  refine ⟨hne, e', hconst, ?_⟩
  rw [(Entry.mapRefs_relinked hres').tag_eq]
  exact haccepts

/-! ## Writing a spelling -/

/-- The bytes of constants one after the other. -/
def bytesOf (es : List (Entry PoolIndex)) : Bytes := es.flatMap Entry.encode

/-- The occupied slots of a list of slots, the first being slot `start`, counted from zero. -/
def occupiedFrom (slots : List (Option EntryId)) (start : Nat) : List (PoolIndex × EntryId) :=
  (slots.zipIdx start).filterMap fun (slot, i) =>
    slot.map fun id => (UInt16.ofNat (i + 1), id)

/-- A constant whose links have indices is written as what a file says about it. -/
theorem encodeCell_of_resolved {p : Pool} {c : Cell} {e : Entry PoolIndex}
    (hres : p.resolved c = .ok e) (hstorable : e.Storable) : p.encodeCell c = .ok e.encode := by
  have hrelinked := Entry.mapRefs_relinked hres
  have hbound : ¬ c.entry.references.any Option.isNone = true := by
    rw [List.any_eq_true]
    rintro ⟨r, hr, hnone⟩
    rw [← Entry.map_snd_links] at hr
    obtain ⟨⟨t, r'⟩, hlink, rfl⟩ := List.mem_map.mp hr
    -- an unbound reference has no index, so the constant could not have been resolved
    have hnone : r' = none := Option.isNone_iff_eq_none.mp hnone
    obtain ⟨index, -, hindex⟩ := hrelinked.exists_new hlink
    rw [hnone] at hindex
    cases hindex
  have hst := hrelinked.storable_iff.mp hstorable
  unfold encodeCell
  rw [if_neg hbound]
  cases hentry : c.entry with
  | utf8 raw =>
    rw [hentry] at hst
    have hle : raw.length ≤ 0xFFFF := hst
    dsimp only
    rw [if_neg (by omega), hres]
    rfl
  | _ =>
    rw [hres]
    rfl

/-- A constant that claims its slot is written as its form in the file. -/
theorem encodeSlot_of_resolved {p : Pool} {index : PoolIndex} {id : EntryId}
    {e : Entry PoolIndex} (hclaims : (p.cell id).index = index)
    (hres : p.resolved (p.cell id) = .ok e) (hstorable : e.Storable) :
    p.encodeSlot index id = .ok e.encode := by
  unfold encodeSlot
  show (if (p.cell id).index ≠ index then _ else _) = _
  rw [if_neg (fun hne => hne hclaims)]
  exact encodeCell_of_resolved hres hstorable

/-- The constants are written in the order of the list, one behind the other. -/
theorem encodeSlots_of_spells {p : Pool} (index : Nat) {slots : List (Option EntryId)}
    {es : List (Entry PoolIndex)} (h : p.Spells (index + 1) slots es)
    (hstorable : ∀ e ∈ es, e.Storable) :
    p.encodeSlots (occupiedFrom slots index) = .ok (bytesOf es) := by
  generalize hstart : index + 1 = start at h
  induction h generalizing index with
  | nil => rfl
  | @narrow start id e slots es claims resolved width _ ih =>
    subst hstart
    have hhead := encodeSlot_of_resolved claims resolved (hstorable e List.mem_cons_self)
    have htail := ih (index + 1) (fun e' he' => hstorable e' (List.mem_cons_of_mem _ he')) rfl
    exact bind_eq_ok.mpr ⟨_, hhead, bind_eq_ok.mpr ⟨_, htail, rfl⟩⟩
  | @wide start id e slots es claims resolved width _ ih =>
    subst hstart
    have hhead := encodeSlot_of_resolved claims resolved (hstorable e List.mem_cons_self)
    have htail := ih (index + 2) (fun e' he' => hstorable e' (List.mem_cons_of_mem _ he')) rfl
    exact bind_eq_ok.mpr ⟨_, hhead, bind_eq_ok.mpr ⟨_, htail, rfl⟩⟩

/-- A pool is written as its size and the constants that it spells. -/
theorem encode_of_image {p : Pool} {es : List (Entry PoolIndex)} (himage : p.Image es)
    (hsize : p.size ≤ 0xFFFF) (hstorable : ∀ e ∈ es, e.Storable) :
    p.encode = .ok (Bytes.ofU2 (UInt16.ofNat p.size) ++ bytesOf es) := by
  have hslots : p.encodeSlots p.occupied = .ok (bytesOf es) :=
    encodeSlots_of_spells 0 himage hstorable
  unfold encode
  show (if p.size > 0xFFFF then _ else _) = _
  rw [if_neg (by omega)]
  exact bind_eq_ok.mpr ⟨_, hslots, rfl⟩

/-- A storable pool spells constants that can be stored. -/
theorem Storable.of_image {p : Pool} (hstorable : p.Storable) (hsize : p.size ≤ 0xFFFF)
    {es : List (Entry PoolIndex)} (himage : p.Image es) : ∀ e ∈ es, e.Storable := by
  intro e hmem
  obtain ⟨index, id, hfind, hres⟩ := exists_find?_of_mem_image hsize himage hmem
  exact (Entry.mapRefs_relinked hres).storable_iff.mpr (hstorable hfind)

/-! ## Sizes -/

/-- The number of bytes of the constant in a slot, if one stands there. -/
def slotSize (es : List (Entry PoolIndex)) (i : Nat) : Nat :=
  ((slotOf? es i).map fun e => e.encode.length).getD 0

/-- Constants take the bytes of their slots. -/
theorem length_bytesOf (es : List (Entry PoolIndex)) :
    (bytesOf es).length = ((List.range (slotCount es)).map (slotSize es)).sum := by
  induction es with
  | nil => rfl
  | cons e es ih =>
    have hfront : ((List.range e.width).map (slotSize (e :: es))).sum = e.encode.length := by
      cases hwide : e.isWide with
      | true => simp [width_wide hwide, List.range_succ, slotSize, slotOf?]
      | false => simp [width_narrow hwide, List.range_succ, slotSize, slotOf?]
    -- behind the slots of `e` come those of the others
    have hback : (List.range (slotCount es)).map (slotSize (e :: es) ∘ (e.width + ·))
        = (List.range (slotCount es)).map (slotSize es) := by
      refine List.map_congr_left fun i _ => ?_
      rw [Function.comp_apply, slotSize, Nat.add_comm, slotOf?_cons_add]
      rfl
    rw [slotCount, List.range_add, List.map_append, List.sum_append, hfront, List.map_map, hback,
      ← ih]
    simp [bytesOf]

/-- Pools take equally many bytes when their constants do, slot by slot. -/
theorem length_encode_congr {p q : Pool} (hp : p.WellFormed) (hq : q.WellFormed)
    (hpStorable : p.Storable) (hqStorable : q.Storable) (hsize : q.size = p.size)
    (hslots : ∀ index, (q.constant? index).map (fun e => e.encode.length)
      = (p.constant? index).map fun e => e.encode.length) {front front' : Bytes}
    (h : p.encode = .ok front) (h' : q.encode = .ok front') : front'.length = front.length := by
  obtain ⟨es, himage⟩ := hp.exists_image
  obtain ⟨es', himage'⟩ := hq.exists_image
  have hcount : slotCount es' = slotCount es := by
    have hsizes := himage.size_eq
    have hsizes' := himage'.size_eq
    omega
  have hslot : ∀ i < slotCount es, slotSize es' i = slotSize es i := by
    intro i hi
    have hle := hp.size_le
    rw [himage.size_eq] at hle
    have hindex : (UInt16.ofNat (i + 1)).toNat = i + 1 := by
      rw [UInt16.toNat_ofNat', Nat.mod_eq_of_lt (by omega)]
    have hne : UInt16.ofNat (i + 1) ≠ 0 := by
      intro hzero
      rw [hzero] at hindex
      cases hindex
    have hsame := hslots (UInt16.ofNat (i + 1))
    rw [constant?_of_image himage, constant?_of_image himage', if_neg hne, if_neg hne, hindex,
      Nat.add_sub_cancel] at hsame
    rw [slotSize, slotSize, hsame]
  rw [encode_of_image himage hp.size_le (hpStorable.of_image hp.size_le himage)] at h
  rw [encode_of_image himage' hq.size_le (hqStorable.of_image hq.size_le himage')] at h'
  cases h
  cases h'
  rw [List.length_append, List.length_append, length_bytesOf, length_bytesOf, hcount,
    List.map_congr_left fun i hi => hslot i (List.mem_range.mp hi)]
  rfl

end Pool

end ClassPrune
