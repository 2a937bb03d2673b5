import ClassPrune.Proofs.Pool.WellFormed

/-!
# When a pool can be written

A constant in a slot is either ready to be written or refused, and of several reasons to refuse it
the writer names the one that comes first. The slots are written in the order of their indices, so
that the first slot that is refused decides for the pool.

- `Entry.mapRefs_eq_map`, `Entry.mapRefs_eq_error`: replacing references, link by link.
- `Pool.Ready`, `Pool.Refused`: what the writer asks of a slot, and its answer to one that it
  refuses. A slot is one or the other (`Pool.ready_or_refused`).
- `Pool.encodeSlot_of_ready`, `Pool.encodeSlot_of_refused`: the writer at one slot.
- `Pool.encode_eq_ok_iff`, `Pool.encode_eq_error_iff`: the writer over a whole pool.
-/

namespace ClassPrune

namespace Entry

variable {ρ σ ε : Type}

/-- The constant with each reference replaced. -/
def map (g : ρ → σ) : Entry ρ → Entry σ
  | .utf8 raw => .utf8 raw
  | .integer bits => .integer bits
  | .float bits => .float bits
  | .long bits => .long bits
  | .double bits => .double bits
  | .named kind text => .named kind (g text)
  | .member kind owner nameType => .member kind (g owner) (g nameType)
  | .nameAndType name descriptor => .nameAndType (g name) (g descriptor)
  | .methodHandle kind reference => .methodHandle kind (g reference)
  | .computed kind bootstrap nameType => .computed kind bootstrap (g nameType)

/-- Where every reference can be replaced, replacing references cannot fail. -/
theorem mapRefs_ok (g : ρ → σ) (e : Entry ρ) :
    e.mapRefs (fun _ r => (.ok (g r) : Except ε σ)) = .ok (e.map g) := by
  cases e <;> rfl

/-- Where every link can be replaced, the whole constant is. -/
theorem mapRefs_eq_map {f : Target → ρ → Except ε σ} {g : ρ → σ} {e : Entry ρ}
    (h : ∀ r ∈ e.references, ∀ t, f t r = .ok (g r)) : e.mapRefs f = .ok (e.map g) := by
  rw [← mapRefs_ok g e]
  refine mapRefs_congr fun {t r} hlink => h r ?_ t
  rw [← map_snd_links]
  exact List.mem_map_of_mem hlink

/-- The first link that cannot be replaced decides. -/
theorem mapRefs_eq_error {f : Target → ρ → Except ε σ} {e : Entry ρ} {front back : List ρ} {r : ρ}
    {err : ε} (hrefs : e.references = front ++ r :: back)
    (hfront : ∀ r' ∈ front, ∀ t, ∃ v, f t r' = .ok v) (hr : ∀ t, f t r = .error err) :
    e.mapRefs f = .error err := by
  cases e with
  | utf8 _ | integer _ | float _ | long _ | double _ =>
    exact absurd hrefs (by simp [references])
  | named _ _ | methodHandle _ _ | computed _ _ _ =>
    obtain rfl : front = [] := by
      cases front with
      | nil => rfl
      | cons a front => simp [references] at hrefs
    cases hrefs
    exact bind_eq_error.mpr (.inl (hr _))
  | member _ _ _ | nameAndType _ _ =>
    cases front with
    | nil =>
      cases hrefs
      exact bind_eq_error.mpr (.inl (hr _))
    | cons a front =>
      -- the first of the two links can be replaced, so it is the second
      obtain rfl : front = [] := by
        cases front with
        | nil => rfl
        | cons b front => simp [references] at hrefs
      cases hrefs
      obtain ⟨v, hv⟩ := hfront _ List.mem_cons_self _
      exact bind_eq_error.mpr (.inr ⟨v, hv, bind_eq_error.mpr (.inl (hr _))⟩)

end Entry

namespace Pool

variable {p : Pool} {index : PoolIndex} {id : EntryId}

/-! ## One slot -/

/-- The constant `id` can be written in slot `index`: it claims the slot, its references are bound
to constants that have an index, and a text is short enough for its length. -/
structure Ready (p : Pool) (index : PoolIndex) (id : EntryId) : Prop where
  claims : (p.cell id).index = index
  bound : none ∉ (p.cell id).entry.references
  assigned : ∀ r, some r ∈ (p.cell id).entry.references → (p.cell r).index ≠ 0
  fits : ∀ raw, (p.cell id).entry = .utf8 raw → raw.length ≤ 0xFFFF

/-- The answer to a constant that cannot be written in a slot. An index of another slot comes before
everything else, an unbound reference before one without an index, and of these the first counts. -/
inductive Refused (p : Pool) (index : PoolIndex) (id : EntryId) : WriteError → Prop
  | misplaced (other : (p.cell id).index ≠ index) :
    Refused p index id (.misplaced index (p.cell id).index)
  | unresolved (claims : (p.cell id).index = index)
    (unbound : none ∈ (p.cell id).entry.references) :
    Refused p index id (.unresolved (p.cell id).entry.tag index)
  | utf8TooLong {raw : Bytes} (claims : (p.cell id).index = index)
    (text : (p.cell id).entry = .utf8 raw) (long : 0xFFFF < raw.length) :
    Refused p index id (.utf8TooLong index raw.length)
  | unassigned {front back : List (Option EntryId)} {r : EntryId}
    (claims : (p.cell id).index = index) (bound : none ∉ (p.cell id).entry.references)
    (split : (p.cell id).entry.references = front ++ some r :: back)
    (before : ∀ r', some r' ∈ front → (p.cell r').index ≠ 0) (zero : (p.cell r).index = 0) :
    Refused p index id (.unassigned (p.cell r).entry.tag)

/-- The index that a reference is written as. -/
def indexOf (p : Pool) (r : Option EntryId) : PoolIndex := r.elim 0 fun id => (p.cell id).index

/-- The constant `id` as it is written: each reference is the index that the constant it leads to
has at the time. -/
def written (p : Pool) (id : EntryId) : Entry PoolIndex := (p.cell id).entry.map p.indexOf

/-- A reference is written as the index of the constant, which it must have been given. -/
theorem assignedIndex_eq_ok {r : EntryId} (h : (p.cell r).index ≠ 0) :
    p.assignedIndex r = .ok (p.cell r).index := by
  simp only [assignedIndex, if_neg h]

theorem assignedIndex_eq_error {r : EntryId} (h : (p.cell r).index = 0) :
    p.assignedIndex r = .error (.unassigned (p.cell r).entry.tag) := by
  simp only [assignedIndex, if_pos h]

theorem not_any_isNone {refs : List (Option EntryId)} (h : none ∉ refs) :
    ¬refs.any Option.isNone = true := by
  rw [List.any_eq_true]
  rintro ⟨r, hr, hnone⟩
  rw [Option.isNone_iff_eq_none.mp hnone] at hr
  exact h hr

/-- Past the tests of the slot and of its references, a text that is short enough is written. -/
theorem encodeSlot_eq_resolved (hclaims : (p.cell id).index = index)
    (hbound : none ∉ (p.cell id).entry.references)
    (hfits : ∀ raw, (p.cell id).entry = .utf8 raw → raw.length ≤ 0xFFFF) :
    p.encodeSlot index id = (do
      let entry ← p.resolved (p.cell id)
      return entry.encode) := by
  unfold encodeSlot encodeCell
  show (if (p.cell id).index ≠ index then _ else _) = _
  rw [if_neg (fun hne => hne hclaims), if_neg (not_any_isNone hbound)]
  cases hentry : (p.cell id).entry with
  | utf8 raw =>
    have hle := hfits raw hentry
    dsimp only
    rw [if_neg (by omega)]
  | _ => rfl

/-- **A constant that is ready is written with the indices of the moment.** -/
theorem encodeSlot_of_ready (h : p.Ready index id) :
    p.encodeSlot index id = .ok (p.written id).encode := by
  have hresolved : p.resolved (p.cell id) = .ok (p.written id) := by
    refine Entry.mapRefs_eq_map fun r hr t => ?_
    cases r with
    | none => exact absurd hr h.bound
    | some r => exact assignedIndex_eq_ok (h.assigned r hr)
  rw [encodeSlot_eq_resolved h.claims h.bound h.fits, hresolved]
  rfl

/-- **A constant that is refused gives its error.** -/
theorem encodeSlot_of_refused {e : WriteError} (h : p.Refused index id e) :
    p.encodeSlot index id = .error e := by
  cases h with
  | misplaced other =>
    unfold encodeSlot
    show (if (p.cell id).index ≠ index then _ else _) = _
    rw [if_pos other]
    rfl
  | unresolved claims unbound =>
    have hany : (p.cell id).entry.references.any Option.isNone = true :=
      List.any_eq_true.mpr ⟨none, unbound, rfl⟩
    unfold encodeSlot encodeCell
    show (if (p.cell id).index ≠ index then _ else _) = _
    rw [if_neg (fun hne => hne claims), if_pos hany, claims]
    rfl
  | utf8TooLong claims text long =>
    have hbound : none ∉ (p.cell id).entry.references := by
      rw [text]
      exact List.not_mem_nil
    unfold encodeSlot encodeCell
    show (if (p.cell id).index ≠ index then _ else _) = _
    rw [if_neg (fun hne => hne claims), if_neg (not_any_isNone hbound), text]
    dsimp only
    rw [if_pos long, claims]
    rfl
  | @unassigned front back r claims bound split before zero =>
    have hresolved : p.resolved (p.cell id) = .error (.unassigned (p.cell r).entry.tag) := by
      refine Entry.mapRefs_eq_error split (fun r' hr' t => ?_) fun t => ?_
      · cases r' with
        | none => exact absurd (split ▸ List.mem_append_left _ hr') bound
        | some r' => exact ⟨_, assignedIndex_eq_ok (before r' hr')⟩
      · exact assignedIndex_eq_error zero
    have hfits : ∀ raw, (p.cell id).entry = .utf8 raw → raw.length ≤ 0xFFFF := by
      intro raw hraw
      rw [hraw] at split
      exact absurd split (by simp [Entry.references])
    rw [encodeSlot_eq_resolved claims bound hfits, hresolved]
    rfl

/-- The first reference to a constant without an index, if there is one. -/
theorem assigned_or_first (p : Pool) (refs : List (Option EntryId)) :
    (∀ r, some r ∈ refs → (p.cell r).index ≠ 0) ∨ ∃ front r back,
      refs = front ++ some r :: back ∧ (∀ r', some r' ∈ front → (p.cell r').index ≠ 0) ∧
        (p.cell r).index = 0 := by
  induction refs with
  | nil => exact .inl fun r hr => (nomatch hr)
  | cons a refs ih =>
    by_cases ha : ∃ r, a = some r ∧ (p.cell r).index = 0
    · obtain ⟨r, rfl, hzero⟩ := ha
      exact .inr ⟨[], r, refs, rfl, fun r' hr' => (nomatch hr'), hzero⟩
    · have hhead : ∀ r, some r = a → (p.cell r).index ≠ 0 := fun r hr hzero =>
        ha ⟨r, hr.symm, hzero⟩
      rcases ih with hall | ⟨front, r, back, rfl, hfront, hzero⟩
      · exact .inl fun r hr => (List.mem_cons.mp hr).elim (hhead r) (hall r)
      · refine .inr ⟨a :: front, r, back, rfl, fun r' hr' => ?_, hzero⟩
        exact (List.mem_cons.mp hr').elim (hhead r') (hfront r')

/-- A constant in a slot is ready or refused. The cases are split in the order of the tests. -/
theorem ready_or_refused (p : Pool) (index : PoolIndex) (id : EntryId) :
    p.Ready index id ∨ ∃ e, p.Refused index id e := by
  by_cases hclaims : (p.cell id).index = index
  swap
  · exact .inr ⟨_, .misplaced hclaims⟩
  by_cases hbound : none ∈ (p.cell id).entry.references
  · exact .inr ⟨_, .unresolved hclaims hbound⟩
  by_cases hlong : ∃ raw, (p.cell id).entry = .utf8 raw ∧ 0xFFFF < raw.length
  · obtain ⟨raw, htext, hlong⟩ := hlong
    exact .inr ⟨_, .utf8TooLong hclaims htext hlong⟩
  rcases p.assigned_or_first (p.cell id).entry.references with
    hassigned | ⟨front, r, back, hsplit, hfront, hzero⟩
  · refine .inl ⟨hclaims, hbound, hassigned, fun raw hraw => ?_⟩
    exact Nat.le_of_not_lt fun hlt => hlong ⟨raw, hraw, hlt⟩
  · exact .inr ⟨_, .unassigned hclaims hbound hsplit hfront hzero⟩

/-- What the writer writes was ready, -/
theorem ready_of_encodeSlot {bytes : Bytes} (h : p.encodeSlot index id = .ok bytes) :
    p.Ready index id := by
  rcases p.ready_or_refused index id with hready | ⟨e, hrefused⟩
  · exact hready
  · rw [encodeSlot_of_refused hrefused] at h
    cases h

/-- and what it does not write was refused for the reason that it gives. -/
theorem refused_of_encodeSlot {e : WriteError} (h : p.encodeSlot index id = .error e) :
    p.Refused index id e := by
  rcases p.ready_or_refused index id with hready | ⟨e', hrefused⟩
  · rw [encodeSlot_of_ready hready] at h
    cases h
  · rw [encodeSlot_of_refused hrefused] at h
    cases h
    exact hrefused

/-! ## All slots -/

/-- Slots are written exactly when all of them are ready. -/
theorem encodeSlots_eq_ok_iff {slots : List (PoolIndex × EntryId)} {bytes : Bytes} :
    p.encodeSlots slots = .ok bytes ↔ (∀ slot ∈ slots, p.Ready slot.1 slot.2) ∧
      bytes = slots.flatMap fun slot => (p.written slot.2).encode := by
  induction slots generalizing bytes with
  | nil =>
    constructor
    · intro h
      exact ⟨fun slot hslot => (nomatch hslot), (Except.ok.inj h).symm⟩
    · rintro ⟨-, rfl⟩
      rfl
  | cons slot slots ih =>
    rw [List.forall_mem_cons, List.flatMap_cons]
    constructor
    · intro h
      obtain ⟨front, hfront, h⟩ := bind_eq_ok.mp h
      obtain ⟨back, hback, h⟩ := bind_eq_ok.mp h
      cases h
      have hready := ready_of_encodeSlot hfront
      obtain ⟨hmore, rfl⟩ := ih.mp hback
      rw [encodeSlot_of_ready hready] at hfront
      cases hfront
      exact ⟨⟨hready, hmore⟩, rfl⟩
    · rintro ⟨⟨hready, hmore⟩, rfl⟩
      exact bind_eq_ok.mpr
        ⟨_, encodeSlot_of_ready hready, bind_eq_ok.mpr ⟨_, ih.mpr ⟨hmore, rfl⟩, rfl⟩⟩

/-- The first slot that is refused decides. -/
theorem encodeSlots_eq_error_iff {slots : List (PoolIndex × EntryId)} {e : WriteError} :
    p.encodeSlots slots = .error e ↔ ∃ front slot back, slots = front ++ slot :: back ∧
      (∀ slot' ∈ front, p.Ready slot'.1 slot'.2) ∧ p.Refused slot.1 slot.2 e := by
  induction slots with
  | nil =>
    constructor
    · intro h
      cases h
    · rintro ⟨front, slot, back, h, -⟩
      cases front <;> cases h
  | cons slot slots ih =>
    constructor
    · intro h
      rcases bind_eq_error.mp h with hslot | ⟨bytes, hslot, h⟩
      · exact ⟨[], slot, slots, rfl, fun slot' h => (nomatch h), refused_of_encodeSlot hslot⟩
      rcases bind_eq_error.mp h with hslots | ⟨more, -, h⟩
      · obtain ⟨front, slot', back, rfl, hfront, hrefused⟩ := ih.mp hslots
        exact ⟨slot :: front, slot', back, rfl,
          List.forall_mem_cons.mpr ⟨ready_of_encodeSlot hslot, hfront⟩, hrefused⟩
      · cases h
    · rintro ⟨front, slot', back, hsplit, hfront, hrefused⟩
      cases front with
      | nil =>
        cases hsplit
        exact bind_eq_error.mpr (.inl (encodeSlot_of_refused hrefused))
      | cons first front =>
        cases hsplit
        obtain ⟨hready, hfront⟩ := List.forall_mem_cons.mp hfront
        refine bind_eq_error.mpr (.inr ⟨_, encodeSlot_of_ready hready, bind_eq_error.mpr (.inl ?_)⟩)
        exact ih.mpr ⟨front, slot', back, rfl, hfront, hrefused⟩

/-! ## Pools -/

/-- **A pool can be written exactly when the constant in every occupied slot is ready.** -/
theorem encode_eq_ok_iff (hsize : p.size ≤ 0xFFFF) {bytes : Bytes} :
    p.encode = .ok bytes ↔ (∀ index id, p.find? index = some id → p.Ready index id) ∧
      bytes = Bytes.ofU2 (UInt16.ofNat p.size)
        ++ p.occupied.flatMap fun slot => (p.written slot.2).encode := by
  have hall : (∀ slot ∈ p.occupied, p.Ready slot.1 slot.2) ↔
      ∀ index id, p.find? index = some id → p.Ready index id := by
    simp only [Prod.forall, mem_occupied_iff hsize]
  unfold encode
  show (if p.size > 0xFFFF then _ else _) = _ ↔ _
  rw [if_neg (by omega), bind_eq_ok, ← hall]
  constructor
  · rintro ⟨rows, hrows, h⟩
    cases h
    obtain ⟨hready, rfl⟩ := encodeSlots_eq_ok_iff.mp hrows
    exact ⟨hready, rfl⟩
  · rintro ⟨hready, rfl⟩
    exact ⟨_, encodeSlots_eq_ok_iff.mpr ⟨hready, rfl⟩, rfl⟩

/-- In an ascending list, what stands in front of a member is what is smaller. -/
theorem mem_front_iff {front back : List (PoolIndex × EntryId)} {slot slot' : PoolIndex × EntryId}
    (h : (front ++ slot :: back).Pairwise fun s s' => s.1 < s'.1) :
    slot' ∈ front ↔ slot' ∈ front ++ slot :: back ∧ slot'.1 < slot.1 := by
  obtain ⟨-, hback, hcross⟩ := List.pairwise_append.mp h
  constructor
  · intro hmem
    exact ⟨List.mem_append_left _ hmem, hcross slot' hmem slot List.mem_cons_self⟩
  · rintro ⟨hmem, hlt⟩
    rcases List.mem_append.mp hmem with hfront | hmem
    · exact hfront
    · rcases List.mem_cons.mp hmem with rfl | hmem
      · exact absurd hlt (UInt16.lt_irrefl _)
      · exact absurd hlt (UInt16.lt_asymm ((List.pairwise_cons.mp hback).1 slot' hmem))

/-- **Otherwise the error is that of the first slot that is refused**, in the order of the
indices. -/
theorem encode_eq_error_iff (hsize : p.size ≤ 0xFFFF) {e : WriteError} :
    p.encode = .error e ↔ ∃ index id, p.find? index = some id ∧ p.Refused index id e ∧
      ∀ index' id', index' < index → p.find? index' = some id' → p.Ready index' id' := by
  have hascending := occupied_ascending hsize
  unfold encode
  show (if p.size > 0xFFFF then _ else _) = _ ↔ _
  rw [if_neg (by omega), bind_eq_error]
  constructor
  · rintro (hslots | ⟨rows, -, h⟩)
    · obtain ⟨front, ⟨index, id⟩, back, hsplit, hfront, hrefused⟩ :=
        encodeSlots_eq_error_iff.mp hslots
      have hmem : (index, id) ∈ p.occupied := by
        rw [hsplit]
        exact List.mem_append_right _ List.mem_cons_self
      refine ⟨index, id, (mem_occupied_iff hsize).mp hmem, hrefused, fun index' id' hlt hfind => ?_⟩
      have hmem' := (mem_occupied_iff hsize).mpr hfind
      rw [hsplit] at hascending hmem'
      exact hfront (index', id') ((mem_front_iff hascending).mpr ⟨hmem', hlt⟩)
    · cases h
  · rintro ⟨index, id, hfind, hrefused, hready⟩
    obtain ⟨front, back, hsplit⟩ :=
      List.append_of_mem ((mem_occupied_iff hsize).mpr hfind)
    refine .inl (encodeSlots_eq_error_iff.mpr ⟨front, (index, id), back, hsplit, ?_, hrefused⟩)
    intro slot hslot
    rw [hsplit] at hascending
    obtain ⟨hmem, hlt⟩ := (mem_front_iff hascending).mp hslot
    rw [← hsplit] at hmem
    exact hready slot.1 slot.2 hlt ((mem_occupied_iff hsize).mp hmem)

end Pool

end ClassPrune
