import ClassPrune.Pool.Linking
import ClassPrune.Proofs.Pool.WellFormed

/-!
# Reading pools

- `readEntries_sound`, `readEntries_complete`: the first pass cuts the bytes of constants into
  the constants, numbered by the slots that they take.
- `Pool.Links`: what the second pass makes of them. It is a well-formed pool that spells the
  constants (`Pool.Links.wellFormed`, `Pool.Links.image`), and there is one when they are well
  linked (`Pool.exists_links`).
- `Pool.read_sound`: what is read is well formed and is written as the bytes it was read from.
- `Pool.read_section`: reading the bytes of given constants is their second pass.
- `Pool.read_encode`: what a well-formed pool is written as is read back as a pool with the same
  constants, whatever follows.

Constants may name constants that come later, and so the second pass starts when the first one is
through. Between the passes stands the list of constants with the slots that they take
(`Numbered`), and each pass is compared with that list by itself.
-/

namespace ClassPrune

/-! ## Faults that name their place -/

theorem within_eq_ok {α : Type} {place : Place} {r : Reader α} {c c' : Cursor} {v : α} :
    r.within place c = .ok (v, c') ↔ r c = .ok (v, c') := by
  rw [Reader.within]
  cases r c with
  | error fault => simp
  | ok p => simp

theorem Reads.within {α : Type} {r : Reader α} {front : Bytes} {v : α} (h : Reads r front v)
    (place : Place) : Reads (r.within place) front v :=
  fun pos rest => within_eq_ok.mpr (h pos rest)

theorem Sound.within {α : Type} {r : Reader α} {P : Bytes → α → Prop} (h : Sound r P)
    (place : Place) : Sound (r.within place) P :=
  fun hrun => h (within_eq_ok.mp hrun)

/-! ## The first pass -/

/-- Constants numbered by the slots that they take, the first standing in slot `index`. -/
def Numbered : Nat → List Located → Prop
  | _, [] => True
  | index, l :: ls => l.index = index ∧ Numbered (index + l.entry.width) ls

/-- The constants without their places. -/
def entriesOf (ls : List Located) : List (Entry PoolIndex) := ls.map Located.entry

/-- What the first pass finds in the bytes of constants that fill `room` slots. -/
structure Cut (room index : Nat) (front : Bytes) (ls : List Located) : Prop where
  bytes_eq : front = Pool.bytesOf (entriesOf ls)
  storable : ∀ e ∈ entriesOf ls, e.Storable
  numbered : Numbered index ls
  count_eq : Pool.slotCount (entriesOf ls) = room

/-- A constant is read with the index that was reached. -/
theorem readLocated_sound (index : Nat) :
    Sound (readLocated index) fun front l =>
      front = l.entry.encode ∧ l.entry.Storable ∧ l.index = index := by
  intro c c' l h
  obtain ⟨offset, d, hoffset, h⟩ := run_bind_eq_ok.mp h
  cases within_eq_ok.mp hoffset
  obtain ⟨entry, d', hentry, h⟩ := run_bind_eq_ok.mp h
  obtain ⟨rfl, rfl⟩ := run_pure_eq_ok.mp h
  obtain ⟨front, hpass, hfront, hstorable⟩ := Entry.read_sound (within_eq_ok.mp hentry)
  exact ⟨front, hpass, hfront, hstorable, rfl⟩

/-- A constant in front of others that have been cut. -/
theorem Cut.cons {room index : Nat} {back : Bytes} {l : Located} {ls : List Located}
    (hstorable : l.entry.Storable) (hindex : l.index = index)
    (h : Cut room (index + l.entry.width) back ls) :
    Cut (l.entry.width + room) index (l.entry.encode ++ back) (l :: ls) where
  bytes_eq := by
    rw [h.bytes_eq]
    rfl
  storable := by
    intro e he
    rcases List.mem_cons.mp he with rfl | he
    · exact hstorable
    · exact h.storable e he
  numbered := ⟨hindex, h.numbered⟩
  count_eq := by
    rw [← h.count_eq]
    rfl

/-- What the first pass was given is cut into the constants that it gives. -/
theorem readEntries_sound : ∀ (room index : Nat) {c c' : Cursor} {ls : List Located},
    readEntries room index c = .ok (ls, c') →
      ∃ front, c.Passes front c' ∧ Cut room index front ls
  | 0, index, c, c', ls, h => by
    obtain ⟨rfl, rfl⟩ := run_pure_eq_ok.mp h
    exact ⟨[], .nil c, rfl, fun e he => (nomatch he), trivial, rfl⟩
  | 1, index, c, c', ls, h => by
    obtain ⟨l, d, hl, h⟩ := run_bind_eq_ok.mp h
    obtain ⟨front, hpass, rfl, hstorable, hindex⟩ := readLocated_sound index hl
    cases hwide : l.entry.isWide with
    | true =>
      -- there is no room for the second slot
      rw [hwide] at h
      cases h
    | false =>
      rw [hwide] at h
      obtain ⟨rfl, rfl⟩ := run_pure_eq_ok.mp h
      have hwidth := Pool.width_narrow hwide
      have hnil : Cut 0 (index + l.entry.width) [] [] :=
        ⟨rfl, fun e he => (nomatch he), trivial, rfl⟩
      have hcut := Cut.cons hstorable hindex hnil
      rw [hwidth, List.append_nil] at hcut
      exact ⟨_, hpass, hcut⟩
  | room + 2, index, c, c', ls, h => by
    obtain ⟨l, d, hl, h⟩ := run_bind_eq_ok.mp h
    obtain ⟨front, hpass, rfl, hstorable, hindex⟩ := readLocated_sound index hl
    cases hwide : l.entry.isWide with
    | true =>
      rw [hwide, if_pos rfl] at h
      obtain ⟨more, d', hmore, h⟩ := run_bind_eq_ok.mp h
      obtain ⟨rfl, rfl⟩ := run_pure_eq_ok.mp h
      obtain ⟨back, hpass', hback⟩ := readEntries_sound room (index + 2) hmore
      have hwidth := Pool.width_wide hwide
      rw [← hwidth] at hback
      have hcut := Cut.cons hstorable hindex hback
      rw [hwidth, Nat.add_comm 2 room] at hcut
      exact ⟨_, hpass.trans hpass', hcut⟩
    | false =>
      rw [hwide, if_neg Bool.false_ne_true] at h
      obtain ⟨more, d', hmore, h⟩ := run_bind_eq_ok.mp h
      obtain ⟨rfl, rfl⟩ := run_pure_eq_ok.mp h
      obtain ⟨back, hpass', hback⟩ := readEntries_sound (room + 1) (index + 1) hmore
      have hwidth := Pool.width_narrow hwide
      rw [← hwidth] at hback
      have hcut := Cut.cons hstorable hindex hback
      rw [hwidth, Nat.add_comm 1 (room + 1)] at hcut
      exact ⟨_, hpass.trans hpass', hcut⟩

theorem readLocated_reads (index pos : Nat) (e : Entry PoolIndex) (h : e.Storable)
    (rest : Bytes) :
    readLocated index ⟨pos, e.encode ++ rest⟩
      = .ok (⟨index, pos, e⟩, ⟨pos + e.encode.length, rest⟩) := by
  refine run_bind_eq_ok.mpr ⟨pos, _, within_eq_ok.mpr rfl, ?_⟩
  refine run_bind_eq_ok.mpr ⟨e, _, within_eq_ok.mpr (Entry.read_reads e h pos rest), ?_⟩
  rfl

/-- The bytes of storable constants are cut into them, whatever follows. -/
theorem readEntries_complete (es : List (Entry PoolIndex)) (hstorable : ∀ e ∈ es, e.Storable)
    (index pos : Nat) (rest : Bytes) :
    ∃ ls, readEntries (Pool.slotCount es) index ⟨pos, Pool.bytesOf es ++ rest⟩
        = .ok (ls, ⟨pos + (Pool.bytesOf es).length, rest⟩) ∧
      entriesOf ls = es ∧ Numbered index ls := by
  induction es generalizing index pos with
  | nil => exact ⟨[], rfl, rfl, trivial⟩
  | cons e es ih =>
    have hes : ∀ e' ∈ es, e'.Storable := fun e' he' => hstorable e' (List.mem_cons_of_mem _ he')
    have hhead := readLocated_reads index pos e (hstorable e List.mem_cons_self)
      (Pool.bytesOf es ++ rest)
    obtain ⟨ls, hls, hentries, hnumbered⟩ := ih hes (index + e.width) (pos + e.encode.length)
    have hbytes : Pool.bytesOf (e :: es) ++ rest = e.encode ++ (Pool.bytesOf es ++ rest) := by
      rw [Pool.bytesOf, List.flatMap_cons, List.append_assoc]
      rfl
    have hlength :
        (Pool.bytesOf (e :: es)).length = e.encode.length + (Pool.bytesOf es).length := by
      rw [Pool.bytesOf, List.flatMap_cons, List.length_append]
      rfl
    refine ⟨⟨index, pos, e⟩ :: ls, ?_, by rw [← hentries]; rfl, rfl, hnumbered⟩
    rw [hbytes, hlength, ← Nat.add_assoc, Pool.slotCount]
    cases hwide : e.isWide with
    | true =>
      rw [Pool.width_wide hwide, Nat.add_comm 2]
      rw [Pool.width_wide hwide] at hls
      refine run_bind_eq_ok.mpr ⟨_, _, hhead, ?_⟩
      rw [if_pos hwide]
      exact run_bind_eq_ok.mpr ⟨ls, _, hls, rfl⟩
    | false =>
      rw [Pool.width_narrow hwide, Nat.add_comm 1]
      rw [Pool.width_narrow hwide] at hls
      -- the last slot is read by an equation of its own
      cases hcount : Pool.slotCount es with
      | zero =>
        rw [hcount] at hls
        obtain ⟨hnil, hcursor⟩ := run_pure_eq_ok.mp hls
        subst hnil
        refine run_bind_eq_ok.mpr ⟨_, _, hhead, ?_⟩
        simp only [hwide]
        rw [hcursor]
        rfl
      | succ count =>
        rw [hcount] at hls
        refine run_bind_eq_ok.mpr ⟨_, _, hhead, ?_⟩
        rw [if_neg (by simp [hwide])]
        exact run_bind_eq_ok.mpr ⟨ls, _, hls, rfl⟩

/-! ## The second pass -/

/-- Slot by slot, the layout of constants holds the number of the constant that stands there. -/
theorem layout_getElem? {index : Nat} {ls : List Located} (h : Numbered index ls) (id i : Nat) :
    ((layout id ls)[i]?.join = none ∧ Pool.slotOf? (entriesOf ls) i = none) ∨
      ∃ j l, (layout id ls)[i]? = some (some (id + j)) ∧ ls[j]? = some l ∧
        Pool.slotOf? (entriesOf ls) i = some l.entry ∧ l.index = index + i := by
  induction ls generalizing index id i with
  | nil => exact .inl ⟨rfl, rfl⟩
  | cons l ls ih =>
    obtain ⟨hindex, hrest⟩ := h
    -- behind the slots of `l` the layout is that of the other constants
    have hbehind : ∀ k, (layout id (l :: ls))[k + l.entry.width]? = (layout (id + 1) ls)[k]? := by
      intro k
      cases hwide : l.entry.isWide with
      | true => rw [layout, if_pos hwide, Pool.width_wide hwide]; rfl
      | false => rw [layout, if_neg (by simp [hwide]), Pool.width_narrow hwide]; rfl
    by_cases hzero : i = 0
    · subst hzero
      refine .inr ⟨0, l, ?_, rfl, rfl, by rw [hindex, Nat.add_zero]⟩
      rw [layout]
      split <;> rfl
    by_cases hinside : i < l.entry.width
    · refine .inl ⟨?_, ?_⟩
      · cases hwide : l.entry.isWide with
        | true =>
          rw [Pool.width_wide hwide] at hinside
          rw [layout, if_pos hwide, show i = 1 by omega]
          rfl
        | false =>
          rw [Pool.width_narrow hwide] at hinside
          omega
      · rw [entriesOf, List.map_cons, Pool.slotOf?, if_neg hzero, if_pos hinside]
    · obtain ⟨k, rfl⟩ : ∃ k, i = k + l.entry.width := ⟨i - l.entry.width, by omega⟩
      have hslot : Pool.slotOf? (entriesOf (l :: ls)) (k + l.entry.width)
          = Pool.slotOf? (entriesOf ls) k := Pool.slotOf?_cons_add l.entry (entriesOf ls) k
      rw [hbehind, hslot]
      rcases ih hrest (id + 1) k with hempty | ⟨j, l', hj, hl', hslot', hindex'⟩
      · exact .inl hempty
      · refine .inr ⟨j + 1, l', ?_, hl', hslot', ?_⟩
        · rw [hj, Nat.add_assoc, Nat.add_comm 1 j]
        · rw [hindex']
          omega

namespace Pool

/-- A raw index is bound to the constant in its slot, when that is of a kind that fits. -/
theorem resolve_eq_ok {slots : Array (Option EntryId)} {entries : Array Located}
    {target : Target} {index : PoolIndex} {r : Option EntryId} :
    resolve slots entries target index = .ok r ↔
      ∃ id l, index ≠ 0 ∧ slots[index.toNat - 1]? = some (some id) ∧ entries[id]? = some l ∧
        target.accepts l.entry.tag = true ∧ r = some id := by
  constructor
  · intro h
    by_cases hzero : index = 0
    · rw [hzero] at h
      cases h
    unfold resolve at h
    simp only [if_neg hzero] at h
    split at h
    · cases h
    · rename_i id tag hfound
      obtain ⟨id', hslot, hfound⟩ := Option.bind_eq_some_iff.mp hfound
      obtain ⟨l, hl, heq⟩ := Option.map_eq_some_iff.mp hfound
      obtain ⟨rfl, rfl⟩ := Prod.mk.inj heq
      by_cases haccepts : target.accepts l.entry.tag = true
      · rw [if_pos haccepts] at h
        cases h
        exact ⟨_, l, hzero, Option.join_eq_some_iff.mp hslot, hl, haccepts, rfl⟩
      · rw [if_neg haccepts] at h
        cases h
  · rintro ⟨id, l, hne, hslot, hl, haccepts, rfl⟩
    unfold resolve
    simp only [if_neg hne, hslot, Option.join_some, Option.bind_some, hl, Option.map_some,
      haccepts, if_true]

/-- The pool that the second pass makes of numbered constants. -/
structure Links (ls : List Located) (p : Pool) : Prop where
  slots_eq : p.slots = (layout 0 ls).toArray
  cells : List.Forall₂
    (fun l c => linkEntry (layout 0 ls).toArray ls.toArray l = .ok c) ls p.cells.toList

/-- The second pass succeeds when there is a pool that links the constants. -/
theorem link_eq_ok {ls : List Located} {p : Pool} : link ls = .ok p ↔ Links ls p := by
  constructor
  · intro h
    obtain ⟨cells, hcells, h⟩ := bind_eq_ok.mp h
    cases h
    exact ⟨rfl, mapM_eq_ok.mp hcells⟩
  · rintro ⟨hslots, hcells⟩
    refine bind_eq_ok.mpr ⟨p.cells.toList, mapM_eq_ok.mpr hcells, ?_⟩
    rw [← hslots]
    rfl

theorem linkEntry_eq_ok {slots : Array (Option EntryId)} {entries : Array Located} {l : Located}
    {c : Cell} :
    linkEntry slots entries l = .ok c ↔
      l.entry.mapRefs (resolve slots entries) = .ok c.entry ∧
        c.index = UInt16.ofNat l.index := by
  unfold linkEntry
  cases h : l.entry.mapRefs (resolve slots entries) with
  | error why => simp
  | ok entry =>
    obtain ⟨entry', index'⟩ := c
    simp [eq_comm]

/-- Each constant is linked in the cell of its number. -/
theorem Links.cell {ls : List Located} {p : Pool} (h : Links ls p) {j : Nat} {l : Located}
    (hl : ls[j]? = some l) :
    l.entry.mapRefs (resolve p.slots ls.toArray) = .ok (p.cell j).entry ∧
      (p.cell j).index = UInt16.ofNat l.index := by
  obtain ⟨c, hc, hlink⟩ := exists_getElem?_of_forall₂ h.cells hl
  have hcell : p.cell j = c := by
    rw [Pool.cell, ← Array.getElem?_toList, hc]
    rfl
  rw [hcell, h.slots_eq]
  exact linkEntry_eq_ok.mp hlink

/-- The occupant of a slot is the constant that is numbered by the slot. -/
theorem Links.find? {ls : List Located} {p : Pool} (h : Links ls p) (hnum : Numbered 1 ls)
    {index : PoolIndex} {id : EntryId} (hfind : p.find? index = some id) :
    ∃ l, ls[id]? = some l ∧ l.index = index.toNat ∧
      slotOf? (entriesOf ls) (index.toNat - 1) = some l.entry := by
  obtain ⟨hne, hslot⟩ := find?_eq_some_iff.mp hfind
  have hpos := toNat_ne_zero hne
  rw [h.slots_eq, List.toList_toArray] at hslot
  rcases layout_getElem? hnum 0 (index.toNat - 1) with ⟨hempty, -⟩ | ⟨j, l, hj, hl, hle, hindex⟩
  · rw [hslot] at hempty
    cases hempty
  · rw [hslot, Nat.zero_add] at hj
    cases hj
    exact ⟨l, hl, by rw [hindex]; omega, hle⟩

/-- Each constant claims the slot that it was read for. -/
theorem Links.claims {ls : List Located} {p : Pool} (h : Links ls p) (hnum : Numbered 1 ls)
    {index : PoolIndex} {id : EntryId} (hfind : p.find? index = some id) :
    (p.cell id).index = index := by
  obtain ⟨l, hl, hindex, -⟩ := h.find? hnum hfind
  rw [(h.cell hl).2, hindex, UInt16.ofNat_toNat]

/-- A raw index is bound to the occupant of its slot. -/
theorem Links.bound_of_resolve {ls : List Located} {p : Pool} (h : Links ls p)
    (hnum : Numbered 1 ls) {t : Target} {index : PoolIndex} {r : Option EntryId}
    (hresolve : resolve p.slots ls.toArray t index = .ok r) :
    ∃ id, r = some id ∧ p.find? index = some id ∧ (p.cell id).index = index ∧
      t.accepts (p.cell id).entry.tag = true := by
  obtain ⟨id, l, hne, hslot, hentry, haccepts, rfl⟩ := resolve_eq_ok.mp hresolve
  have hfind : p.find? index = some id := by
    refine find?_eq_some_iff.mpr ⟨hne, ?_⟩
    rw [Array.getElem?_toList]
    exact hslot
  rw [List.getElem?_toArray] at hentry
  refine ⟨id, rfl, hfind, h.claims hnum hfind, ?_⟩
  rw [(Entry.mapRefs_relinked (h.cell hentry).1).tag_eq]
  exact haccepts

/-- A linked constant is written with the raw indices that it was read with. -/
theorem Links.resolved {ls : List Located} {p : Pool} (h : Links ls p) (hnum : Numbered 1 ls)
    {j : Nat} {l : Located} (hl : ls[j]? = some l) :
    p.resolved (p.cell j) = .ok l.entry := by
  refine Entry.mapRefs_inverse (h.cell hl).1 fun {t index r} _ hresolve => ?_
  obtain ⟨id, rfl, hfind, hindex, -⟩ := h.bound_of_resolve hnum hresolve
  have hne := (find?_eq_some_iff.mp hfind).1
  show p.assignedIndex id = .ok index
  rw [assignedIndex]
  simp only [hindex, if_neg hne]

/-- The slots that are made from the list of constants spell that list. -/
theorem spells_layout {p : Pool} {index id : Nat} {ls : List Located} (hnum : Numbered index ls)
    (hcell : ∀ {j l}, ls[j]? = some l → p.resolved (p.cell (id + j)) = .ok l.entry ∧
      (p.cell (id + j)).index = UInt16.ofNat l.index) :
    p.Spells index (layout id ls) (entriesOf ls) := by
  induction ls generalizing index id with
  | nil => exact .nil
  | cons l ls ih =>
    obtain ⟨hindex, hrest⟩ := hnum
    obtain ⟨hres, hclaims⟩ := hcell (j := 0) rfl
    -- the other constants start one or two slots further, with the next cell
    have htail : p.Spells (index + l.entry.width) (layout (id + 1) ls) (entriesOf ls) := by
      refine ih hrest fun {j l'} hj => ?_
      rw [show id + 1 + j = id + (j + 1) by omega]
      exact hcell hj
    rw [hindex] at hclaims
    cases hwide : l.entry.isWide with
    | true =>
      rw [Pool.width_wide hwide] at htail
      rw [layout, if_pos hwide]
      exact .wide hclaims hres hwide htail
    | false =>
      rw [Pool.width_narrow hwide] at htail
      rw [layout, if_neg (by simp [hwide])]
      exact .narrow hclaims hres hwide htail

/-- The pool spells the constants that it was linked from. -/
theorem Links.image {ls : List Located} {p : Pool} (h : Links ls p) (hnum : Numbered 1 ls) :
    p.Image (entriesOf ls) := by
  rw [Image, h.slots_eq, List.toList_toArray]
  refine spells_layout hnum fun {j l} hl => ?_
  rw [Nat.zero_add]
  exact ⟨h.resolved hnum hl, (h.cell hl).2⟩

theorem Spells.laidOut {p : Pool} {index : Nat} {slots : List (Option EntryId)}
    {es : List (Entry PoolIndex)} (h : p.Spells index slots es) : p.LaidOut slots := by
  have hwidth : ∀ {id e}, p.resolved (p.cell id) = .ok e →
      (p.cell id).entry.isWide = e.isWide := by
    intro id e hres
    rw [Entry.isWide, Entry.isWide, (Entry.mapRefs_relinked hres).tag_eq]
  induction h with
  | nil => exact .nil
  | narrow _ resolved width _ ih => exact .narrow ((hwidth resolved).trans width) ih
  | wide _ resolved width _ ih => exact .wide ((hwidth resolved).trans width) ih

/-- The second pass leaves nothing unbound and nobody out of place. -/
theorem Links.wellFormed {ls : List Located} {p : Pool} (h : Links ls p) (hnum : Numbered 1 ls)
    (hcount : slotCount (entriesOf ls) < 0xFFFF) : p.WellFormed where
  size_le := by
    rw [(h.image hnum).size_eq]
    omega
  layout := (h.image hnum).laidOut
  claims := h.claims hnum
  bound := by
    intro index id hfind t r hlink
    obtain ⟨l, hl, -, -⟩ := h.find? hnum hfind
    obtain ⟨raw, -, hresolve⟩ := (Entry.mapRefs_relinked (h.cell hl).1).exists_old hlink
    obtain ⟨target, rfl, hoccupies, hindex, haccepts⟩ := h.bound_of_resolve hnum hresolve
    refine ⟨target, rfl, ?_, haccepts⟩
    rw [hindex]
    exact hoccupies

/-- What was read can be written. -/
theorem Links.storable {ls : List Located} {p : Pool} (h : Links ls p) (hnum : Numbered 1 ls)
    (hstorable : ∀ e ∈ entriesOf ls, e.Storable) : p.Storable := by
  intro index id hfind
  obtain ⟨l, hl, -, -⟩ := h.find? hnum hfind
  have hmem : l.entry ∈ entriesOf ls := List.mem_map_of_mem (List.mem_of_getElem? hl)
  exact (Entry.mapRefs_relinked (h.cell hl).1).storable_iff.mpr (hstorable _ hmem)

/-- Well-linked constants can be linked. -/
theorem exists_links {ls : List Located} (hnum : Numbered 1 ls)
    (hlinked : WellLinked (entriesOf ls)) : ∃ p, Links ls p := by
  have hentry : ∀ l ∈ ls, ∃ c, linkEntry (layout 0 ls).toArray ls.toArray l = .ok c := by
    intro l hmem
    have hresolve : ∀ t index, (t, index) ∈ l.entry.links →
        ∃ r, resolve (layout 0 ls).toArray ls.toArray t index = .ok r := by
      intro t index hlink
      obtain ⟨hne, e, hslot, haccepts⟩ := hlinked l.entry (List.mem_map_of_mem hmem) hlink
      -- the slot is occupied, and by the constant that the layout puts there
      rcases layout_getElem? hnum 0 (index.toNat - 1) with ⟨-, hnone⟩ | ⟨j, l', hj, hl', hl'e, -⟩
      · rw [hslot] at hnone
        cases hnone
      · rw [hslot] at hl'e
        cases hl'e
        rw [Nat.zero_add] at hj
        refine ⟨some j, resolve_eq_ok.mpr ⟨j, l', hne, ?_, ?_, haccepts, rfl⟩⟩
        · rw [List.getElem?_toArray]
          exact hj
        · rw [List.getElem?_toArray]
          exact hl'
    obtain ⟨entry, hmap⟩ := Entry.mapRefs_total hresolve
    exact ⟨⟨entry, UInt16.ofNat l.index⟩, linkEntry_eq_ok.mpr ⟨hmap, rfl⟩⟩
  obtain ⟨cells, hcells⟩ := exists_forall₂ hentry
  exact ⟨⟨cells.toArray, (layout 0 ls).toArray⟩, rfl, hcells⟩

/-! ## Both passes -/

/-- **A pool that is read is well formed and is written as the bytes it was read from.** -/
theorem read_sound : Sound Pool.read fun front p =>
    p.encode = .ok front ∧ p.WellFormed ∧ p.Storable := by
  intro c c' p h
  obtain ⟨start, d, hstart, h⟩ := run_bind_eq_ok.mp h
  cases within_eq_ok.mp hstart
  obtain ⟨count, d, hcount, h⟩ := run_bind_eq_ok.mp h
  obtain ⟨front, hpass, rfl⟩ := u2_sound (within_eq_ok.mp hcount)
  by_cases hzero : count = 0
  · rw [if_pos hzero] at h
    cases h
  rw [if_neg hzero] at h
  obtain ⟨ls, d', hls, h⟩ := run_bind_eq_ok.mp h
  obtain ⟨back, hpass', hcut⟩ := readEntries_sound _ _ hls
  obtain ⟨q, hlink, h⟩ := bind_eq_ok.mp h
  obtain ⟨rfl, rfl⟩ := Prod.mk.inj (Except.ok.inj h)
  -- the second pass links what the first one cut, and the links spell it again
  have hlinks := link_eq_ok.mp hlink
  have himage := hlinks.image hcut.numbered
  have hlt := count.toNat_lt
  have hpos := toNat_ne_zero hzero
  have hsize : q.size = count.toNat := by
    rw [himage.size_eq, hcut.count_eq]
    omega
  refine ⟨_, hpass.trans hpass', ?_, ?_, hlinks.storable hcut.numbered hcut.storable⟩
  · rw [encode_of_image himage (by omega) hcut.storable, hsize, UInt16.ofNat_toNat, hcut.bytes_eq]
  · refine hlinks.wellFormed hcut.numbered ?_
    rw [hcut.count_eq]
    omega

/-- The bytes of a pool: how many slots there are, slot zero included, and the constants. -/
def sectionBytes (es : List (Entry PoolIndex)) : Bytes :=
  Bytes.ofU2 (UInt16.ofNat (slotCount es + 1)) ++ bytesOf es

/-- The bytes of constants are cut into them, and the second pass decides. -/
theorem read_section {es : List (Entry PoolIndex)} (hstorable : ∀ e ∈ es, e.Storable)
    (hcount : slotCount es < 0xFFFF) (pos : Nat) (rest : Bytes) :
    ∃ ls, entriesOf ls = es ∧ Numbered 1 ls ∧ ∀ {p : Pool} {c : Cursor},
      Pool.read ⟨pos, sectionBytes es ++ rest⟩ = .ok (p, c) ↔
        Links ls p ∧ c = ⟨pos + (sectionBytes es).length, rest⟩ := by
  obtain ⟨ls, hls, hentries, hnum⟩ := readEntries_complete es hstorable 1 (pos + 2) rest
  refine ⟨ls, hentries, hnum, fun {p c} => ?_⟩
  have hslots : (UInt16.ofNat (slotCount es + 1)).toNat = slotCount es + 1 := by
    rw [UInt16.toNat_ofNat', Nat.mod_eq_of_lt (by omega)]
  have hne : UInt16.ofNat (slotCount es + 1) ≠ 0 := by
    intro hzero
    rw [hzero] at hslots
    cases hslots
  have hhead : Reader.u2 ⟨pos, sectionBytes es ++ rest⟩
      = .ok (UInt16.ofNat (slotCount es + 1), ⟨pos + 2, bytesOf es ++ rest⟩) := by
    rw [sectionBytes, List.append_assoc]
    exact u2_reads _ pos _
  have hcursor : pos + (sectionBytes es).length = pos + 2 + (bytesOf es).length := by
    rw [sectionBytes, List.length_append, Nat.add_assoc]
    rfl
  rw [hcursor]
  constructor
  · -- both passes are functions, so the first one has cut the given constants
    intro h
    obtain ⟨start, d, hstart, h⟩ := run_bind_eq_ok.mp h
    cases within_eq_ok.mp hstart
    obtain ⟨count, d, hread, h⟩ := run_bind_eq_ok.mp h
    cases hhead.symm.trans (within_eq_ok.mp hread)
    rw [if_neg hne] at h
    obtain ⟨ls', d', hls', h⟩ := run_bind_eq_ok.mp h
    rw [hslots, Nat.add_sub_cancel] at hls'
    cases hls.symm.trans hls'
    obtain ⟨q, hlink, h⟩ := bind_eq_ok.mp h
    cases h
    exact ⟨link_eq_ok.mp hlink, rfl⟩
  · rintro ⟨hlinks, rfl⟩
    refine run_bind_eq_ok.mpr ⟨pos, _, within_eq_ok.mpr rfl, ?_⟩
    refine run_bind_eq_ok.mpr ⟨_, _, within_eq_ok.mpr hhead, ?_⟩
    rw [if_neg hne]
    refine run_bind_eq_ok.mpr ⟨ls, _, ?_, bind_eq_ok.mpr ⟨p, link_eq_ok.mpr hlinks, rfl⟩⟩
    rw [hslots, Nat.add_sub_cancel]
    exact hls

/-- **What a well-formed pool is written as is read back as the same constants**, whatever
follows. -/
theorem read_encode {p : Pool} (h : p.WellFormed) (hstorable : p.Storable) :
    ∃ front, p.encode = .ok front ∧ ∀ pos rest, ∃ q,
      Pool.read ⟨pos, front ++ rest⟩ = .ok (q, ⟨pos + front.length, rest⟩) ∧
        q.WellFormed ∧ q.Storable ∧ p.SameConstants q := by
  obtain ⟨es, himage⟩ := h.exists_image
  have hes := hstorable.of_image h.size_le himage
  have hsize := himage.size_eq
  have hle := h.size_le
  have hcount : slotCount es < 0xFFFF := by omega
  have hsection : p.encode = .ok (sectionBytes es) := by
    rw [encode_of_image himage hle hes, hsize]
    rfl
  refine ⟨_, hsection, fun pos rest => ?_⟩
  obtain ⟨ls, rfl, hnum, hread⟩ := read_section hes hcount pos rest
  obtain ⟨q, hlinks⟩ := exists_links hnum (h.wellLinked himage)
  exact ⟨q, hread.mpr ⟨hlinks, rfl⟩, hlinks.wellFormed hnum hcount, hlinks.storable hnum hes,
    sameConstants_of_image himage (hlinks.image hnum)⟩

end Pool

end ClassPrune
