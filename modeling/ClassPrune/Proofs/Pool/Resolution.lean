import ClassPrune.Proofs.Pool.RoundTrip

/-!
# Which pools are accepted

The second pass of reading a pool decides over whole lists of constants, wherever the constants
stand that name each other.

- `Pool.LaidOut.find?_eq_none_iff`: which slots are empty.
- `Pool.Resolves`: a pool holds given constants in their slots, every reference bound to the
  constant in the slot that it names.
- `Pool.read_iff_wellLinked`: the bytes of constants are accepted exactly when the constants are
  well linked, and what is accepted resolves them.
-/

namespace ClassPrune

namespace Pool

/-! ## Empty slots -/

/-- The first slot is occupied. -/
theorem LaidOut.head_occupied {p : Pool} {slots : List (Option EntryId)} (h : p.LaidOut slots)
    (hlen : 0 < slots.length) : slots[0]?.join ≠ none := by
  cases h with
  | nil => cases hlen
  | narrow _ _ => exact Option.some_ne_none _
  | wide _ _ => exact Option.some_ne_none _

/-- Another slot is empty exactly when it is the second slot of a constant. -/
theorem LaidOut.empty_succ_iff {p : Pool} {slots : List (Option EntryId)} (h : p.LaidOut slots)
    {i : Nat} (hlt : i + 1 < slots.length) :
    slots[i + 1]?.join = none ↔
      ∃ id, slots[i]? = some (some id) ∧ (p.cell id).entry.isWide = true := by
  induction h generalizing i with
  | nil => cases hlt
  | @narrow id slots width rest ih =>
    rw [List.length_cons, Nat.add_lt_add_iff_right] at hlt
    cases i with
    | zero =>
      -- the next constant stands right behind this one
      refine ⟨fun hnone => absurd hnone (rest.head_occupied hlt), ?_⟩
      rintro ⟨id', heq, hwide⟩
      cases heq
      rw [width] at hwide
      cases hwide
    | succ i => exact ih hlt
  | @wide id slots width rest ih =>
    rw [List.length_cons, List.length_cons, Nat.add_lt_add_iff_right] at hlt
    match i with
    | 0 => exact ⟨fun _ => ⟨id, rfl, width⟩, fun _ => rfl⟩
    | 1 =>
      refine ⟨fun hnone => absurd hnone (rest.head_occupied (Nat.lt_of_succ_lt_succ hlt)), ?_⟩
      rintro ⟨id', heq, -⟩
      cases heq
    | i + 2 => exact ih (Nat.lt_of_succ_lt_succ hlt)

/-- Slot zero and the second slot of a constant are empty, and no other slot is. -/
theorem LaidOut.find?_eq_none_iff {p : Pool} (h : p.LaidOut p.slots.toList) {index : PoolIndex}
    (hlt : index.toNat < p.size) :
    p.find? index = none ↔ index = 0 ∨
      ∃ id, p.find? (index - 1) = some id ∧ (p.cell id).entry.isWide = true := by
  by_cases hzero : index = 0
  · subst hzero
    exact ⟨fun _ => .inl rfl, fun _ => rfl⟩
  have hpos := toNat_ne_zero hzero
  have hone : (1 : UInt16) ≤ index := UInt16.le_iff_toNat_le.mpr (Nat.pos_of_ne_zero hpos)
  have hprev : (index - 1).toNat = index.toNat - 1 := UInt16.toNat_sub_of_le _ _ hone
  rw [size, ← Array.length_toList] at hlt
  rw [find?, if_neg hzero, ← Array.getElem?_toList, or_iff_right hzero]
  simp only [find?_eq_some_iff, hprev]
  cases hn : index.toNat - 1 with
  | zero =>
    -- slot one is the first slot
    have hsame : index - 1 = 0 := UInt16.toNat_inj.mp (hprev.trans hn)
    refine ⟨fun hnone => absurd hnone (h.head_occupied (by omega)), ?_⟩
    rintro ⟨id, ⟨hne, -⟩, -⟩
    exact absurd hsame hne
  | succ i =>
    have hne : index - 1 ≠ 0 := by
      intro h0
      rw [h0] at hprev
      rw [hn] at hprev
      cases hprev
    rw [h.empty_succ_iff (by omega), Nat.add_sub_cancel]
    simp only [ne_eq, hne, not_false_eq_true, true_and]

/-! ## Bound references -/

/-- The pool holds the constants in their slots, and each raw index has become a reference to the
constant in the slot of that index. -/
structure Resolves (p : Pool) (es : List (Entry PoolIndex)) : Prop where
  size_eq : p.size = slotCount es + 1
  /-- The slots left empty are slot zero and the second slots. -/
  empty_iff : ∀ index : PoolIndex, index.toNat < p.size → (p.find? index = none ↔
    index = 0 ∨ ∃ id, p.find? (index - 1) = some id ∧ (p.cell id).entry.isWide = true)
  /-- A constant knows its slot. -/
  index_eq : ∀ index id, p.find? index = some id → (p.cell id).index = index
  bound : ∀ index id, p.find? index = some id → ∃ e, slotOf? es (index.toNat - 1) = some e ∧
    e.mapRefs (fun _ raw => (p.get raw).map some) = .ok (p.cell id).entry

theorem get_eq_ok_iff {p : Pool} {index : PoolIndex} {id : EntryId} :
    p.get index = .ok id ↔ p.find? index = some id := by
  rw [get]
  cases p.find? index with
  | none => simp
  | some found => simp

/-- What the second pass makes of constants resolves them. -/
theorem Links.resolves {ls : List Located} {p : Pool} (h : Links ls p) (hnum : Numbered 1 ls)
    (hcount : slotCount (entriesOf ls) < 0xFFFF) : p.Resolves (entriesOf ls) where
  size_eq := (h.image hnum).size_eq
  empty_iff _ hlt := (h.wellFormed hnum hcount).layout.find?_eq_none_iff hlt
  index_eq _ _ hfind := h.claims hnum hfind
  bound := by
    intro index id hfind
    obtain ⟨l, hl, -, hslot⟩ := h.find? hnum hfind
    refine ⟨l.entry, hslot, Entry.mapRefs_transfer (h.cell hl).1 fun {t raw r} _ hresolve => ?_⟩
    obtain ⟨target, rfl, hoccupies, -, -⟩ := h.bound_of_resolve hnum hresolve
    exact map_eq_ok.mpr ⟨target, get_eq_ok_iff.mpr hoccupies, rfl⟩

/-! ## Acceptance -/

/-- **The bytes of constants are accepted exactly when every raw index names a constant of the
kind that is asked for**, before or after the one that names it. On acceptance every reference is
bound to the constant in that slot, and nothing but the bytes of the pool is consumed. -/
theorem read_iff_wellLinked {es : List (Entry PoolIndex)} (hstorable : ∀ e ∈ es, e.Storable)
    (hcount : slotCount es < 0xFFFF) (pos : Nat) (rest : Bytes) :
    ((∃ p c, Pool.read ⟨pos, sectionBytes es ++ rest⟩ = .ok (p, c)) ↔ WellLinked es) ∧
      ∀ p c, Pool.read ⟨pos, sectionBytes es ++ rest⟩ = .ok (p, c) →
        c = ⟨pos + (sectionBytes es).length, rest⟩ ∧ p.Resolves es := by
  obtain ⟨ls, rfl, hnum, hread⟩ := read_section hstorable hcount pos rest
  refine ⟨⟨?_, ?_⟩, ?_⟩
  · rintro ⟨p, c, h⟩
    obtain ⟨hlinks, -⟩ := hread.mp h
    exact (hlinks.wellFormed hnum hcount).wellLinked (hlinks.image hnum)
  · intro hlinked
    obtain ⟨p, hlinks⟩ := exists_links hnum hlinked
    exact ⟨p, _, hread.mpr ⟨hlinks, rfl⟩⟩
  · intro p c h
    obtain ⟨hlinks, hcursor⟩ := hread.mp h
    exact ⟨hcursor, hlinks.resolves hnum hcount⟩

/-- A class, a long, a name and type, two texts, a method and its handle: the class and the name
and type name texts behind them. -/
def crossLinked : List (Entry PoolIndex) :=
  [.named .classRef 5, .long 7, .nameAndType 5 6, .utf8 [0x41], .utf8 [0x28, 0x29, 0x56],
    .member .method 1 4, .methodHandle 6 7]

/-- The same, and a string that names the second slot of the long. -/
def crossLinkedAmiss : List (Entry PoolIndex) := crossLinked ++ [.named .string 3]

theorem read_iff_wellLinked_crossLinked :
    (∃ p c, Pool.read ⟨0, sectionBytes crossLinked ++ []⟩ = .ok (p, c) ∧ p.Resolves crossLinked) ∧
      WellLinked crossLinked ∧
      ¬∃ p c, Pool.read ⟨0, sectionBytes crossLinkedAmiss ++ []⟩ = .ok (p, c) := by
  have hstorable : ∀ e ∈ crossLinked, e.Storable := by simp [crossLinked, Entry.Storable]
  have hstorable' : ∀ e ∈ crossLinkedAmiss, e.Storable := by
    simp [crossLinkedAmiss, crossLinked, Entry.Storable]
  obtain ⟨hiff, hresolves⟩ := read_iff_wellLinked hstorable (by decide) 0 []
  obtain ⟨hiff', -⟩ := read_iff_wellLinked hstorable' (by decide) 0 []
  have hread : ∃ p c, Pool.read ⟨0, sectionBytes crossLinked ++ []⟩ = .ok (p, c) := ⟨_, _, rfl⟩
  refine ⟨?_, hiff.mp hread, fun hread' => ?_⟩
  · obtain ⟨p, c, h⟩ := hread
    exact ⟨p, c, h, (hresolves p c h).2⟩
  · -- slot three is empty
    have hmem : Entry.named .string 3 ∈ crossLinkedAmiss := by decide
    obtain ⟨-, e, hslot, -⟩ := hiff'.mp hread' _ hmem List.mem_cons_self
    have hempty : slotOf? crossLinkedAmiss ((3 : PoolIndex).toNat - 1) = none := by decide
    rw [hempty] at hslot
    cases hslot

end Pool

end ClassPrune
