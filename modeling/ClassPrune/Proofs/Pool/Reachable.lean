import ClassPrune.Pool.Reachable
import ClassPrune.Proofs.Pool.Filling

/-!
# Marked and disused slots

- `Pool.Reaches`: a constant is stored by a class, or one that is reached refers to it.
- `Pool.has_reachable_iff`: the search marks exactly the slots that are reached. It marks no other
  (`Pool.reaches_of_has_visit`), it marks every occupied slot that it starts from
  (`Pool.has_reachable`), and it ends with a set that no link leaves (`Pool.visit_closed`).
- `Pool.mem_disused_iff`: a slot falls out of use when it holds a dynamic constant that was
  marked before and no longer is. Such a slot can be filled (`Pool.fillable_of_mem_disused`).
- `Pool.disused_ascending`: the slots that fall out of use are listed in increasing order.
- `Pool.Filled.reaches`: filling slots that are not reached makes no other slot reached.
-/

namespace ClassPrune

namespace Pool

/-! ## The search -/

theorem has_set (marks : Marks) {i : Nat} (h : i < marks.size) (index : PoolIndex) :
    Marks.has (marks.set i true h) index = if index.toNat = i then true else marks.has index := by
  rw [Marks.has, Marks.has, Array.getElem?_set h]
  by_cases heq : i = index.toNat
  · rw [if_pos heq, if_pos heq.symm]
    rfl
  · rw [if_neg heq, if_neg fun hi => heq hi.symm]

/-- The search never takes a mark back. -/
theorem has_visit_of_has (p : Pool) (marks : Marks) (work : List PoolIndex) {index : PoolIndex}
    (h : marks.has index = true) : (p.visit marks work).has index = true := by
  fun_induction Pool.visit p marks work with
  | case1 marks => exact h
  | case2 marks first rest hlt unmarked ih =>
    refine ih ?_
    rw [has_set]
    split
    · rfl
    · exact h
  | case3 marks first rest hlt unmarked ih => exact ih h
  | case4 marks first rest hlt ih => exact ih h

/-- What is still to do is marked in the end, as far as there are constants. -/
theorem has_visit_of_mem (p : Pool) (marks : Marks) (work : List PoolIndex) {index : PoolIndex}
    (hmem : index ∈ work) (hlt : index.toNat < marks.size)
    (hfind : (p.find? index).isSome = true) : (p.visit marks work).has index = true := by
  fun_induction Pool.visit p marks work with
  | case1 marks => cases hmem
  | case2 marks first rest h unmarked ih =>
    rcases List.mem_cons.mp hmem with rfl | hmem
    · -- it is marked now and stays marked
      refine has_visit_of_has p _ _ ?_
      rw [has_set, if_pos rfl]
    · refine ih (List.mem_append_right _ hmem) ?_
      rw [Array.size_set]
      exact hlt
  | case3 marks first rest h unmarked ih =>
    rcases List.mem_cons.mp hmem with rfl | hmem
    · -- the slot is occupied, so it was passed over because it has its mark already
      refine has_visit_of_has p _ _ ?_
      have hmarked : marks[index.toNat] = true := by
        by_contra hne
        exact unmarked ⟨Bool.not_eq_true _ ▸ hne, hfind⟩
      rw [Marks.has, Array.getElem?_eq_getElem h, hmarked]
      rfl
    · exact ih hmem hlt
  | case4 marks first rest h ih =>
    rcases List.mem_cons.mp hmem with rfl | hmem
    · exact absurd hlt h
    · exact ih hmem hlt

/-- **Every occupied slot among the roots is reached.** -/
theorem has_reachable {p : Pool} {roots : List PoolIndex} {index : PoolIndex} {id : EntryId}
    (hmem : index ∈ roots) (hfind : p.find? index = some id) :
    (p.reachable roots).has index = true := by
  refine has_visit_of_mem p _ roots hmem ?_ (by rw [hfind]; rfl)
  rw [Array.size_replicate]
  exact toNat_lt_size hfind

/-! ## Reached slots -/

/-- A slot is reached when it holds a constant and either is stored itself or is what a reached
constant refers to. -/
inductive Reaches (p : Pool) (stored : PoolIndex → Prop) : PoolIndex → Prop where
  | stored {index : PoolIndex} {e : Entry PoolIndex} (hstored : stored index)
      (hconst : p.constant? index = some e) : Reaches p stored index
  | linked {index next : PoolIndex} {e e' : Entry PoolIndex} (hindex : Reaches p stored index)
      (hconst : p.constant? index = some e) (hnext : next ∈ e.references)
      (hoccupied : p.constant? next = some e') : Reaches p stored next

section Reaches

variable {p : Pool} {stored : PoolIndex → Prop} {index : PoolIndex}

/-- Only slots with a constant are reached. -/
theorem Reaches.exists_constant (h : p.Reaches stored index) :
    ∃ e, p.constant? index = some e := by
  cases h with
  | stored _ hconst => exact ⟨_, hconst⟩
  | linked _ _ _ hoccupied => exact ⟨_, hoccupied⟩

theorem Reaches.mono {stored' : PoolIndex → Prop} (h : p.Reaches stored index)
    (hsub : ∀ i, stored i → stored' i) : p.Reaches stored' index := by
  induction h with
  | stored hstored hconst => exact .stored (hsub _ hstored) hconst
  | linked _ hconst hnext hoccupied ih => exact .linked ih hconst hnext hoccupied

/-- What is reached depends on nothing but what is stored. -/
theorem reaches_congr {stored' : PoolIndex → Prop} (h : ∀ i, stored i ↔ stored' i) :
    p.Reaches stored index ↔ p.Reaches stored' index :=
  ⟨fun hreach => hreach.mono fun i => (h i).mp, fun hreach => hreach.mono fun i => (h i).mpr⟩

theorem isSome_find?_of_constant {e : Entry PoolIndex} (h : p.constant? index = some e) :
    (p.find? index).isSome = true := by
  cases hfind : p.find? index with
  | none =>
    rw [constant?, hfind] at h
    cases h
  | some id => rfl

/-- Every occupied slot holds a constant that a file can say. -/
theorem WellFormed.exists_constant (h : p.WellFormed) (hfind : (p.find? index).isSome = true) :
    ∃ e, p.constant? index = some e := by
  obtain ⟨id, hid⟩ := Option.isSome_iff_exists.mp hfind
  obtain ⟨e, he⟩ := h.exists_resolved hid
  exact ⟨e, constant?_of_find? hid he⟩

/-- The search follows the references that a file gives for the constant. -/
theorem WellFormed.linkedIndices_eq (h : p.WellFormed) {e : Entry PoolIndex}
    (hconst : p.constant? index = some e) : p.linkedIndices index = e.references := by
  obtain ⟨id, hfind, hresolved⟩ := h.constant?_eq_some_iff.mp hconst
  have hlinks := (Entry.mapRefs_relinked hresolved).links
  rw [linkedIndices, hfind]
  show ((p.cell id).entry.references.filterMap fun r => r).map (fun r => (p.cell r).index)
    = e.references
  rw [← Entry.map_snd_links, ← Entry.map_snd_links]
  -- link by link, a reference is written as the index of the constant that it is bound to
  generalize (p.cell id).entry.links = links at hlinks ⊢
  generalize e.links = links' at hlinks ⊢
  induction hlinks with
  | nil => rfl
  | @cons link link' links links' hlink _ ih =>
    obtain ⟨t, r⟩ := link
    cases r with
    | none => cases hlink.2
    | some target =>
      have hassigned : p.assignedIndex target = .ok link'.2 := hlink.2
      have hindex : (p.cell target).index = link'.2 := by
        by_cases hzero : (p.cell target).index = 0
        · simp [assignedIndex, hzero] at hassigned
        · simpa [assignedIndex, hzero] using hassigned
      simp only [List.map_cons, List.filterMap_cons, hindex, ih]

/-! ## What is marked is reached -/

/-- **The search marks nothing that is not reached.** -/
theorem reaches_of_has_visit (h : p.WellFormed) (marks : Marks) (work : List PoolIndex)
    (hmarks : ∀ i, marks.has i = true → p.Reaches stored i)
    (hwork : ∀ i ∈ work, ∀ e, p.constant? i = some e → p.Reaches stored i)
    (hhas : (p.visit marks work).has index = true) : p.Reaches stored index := by
  fun_induction Pool.visit p marks work with
  | case1 marks => exact hmarks index hhas
  | case2 marks first rest hlt unmarked ih =>
    obtain ⟨e, hconst⟩ := h.exists_constant unmarked.2
    have hfirst := hwork first List.mem_cons_self e hconst
    refine ih (fun i hi => ?_) (fun i hi e' hi' => ?_) hhas
    · rw [has_set] at hi
      by_cases heq : i.toNat = first.toNat
      · rw [UInt16.toNat_inj.mp heq]
        exact hfirst
      · rw [if_neg heq] at hi
        exact hmarks i hi
    · rcases List.mem_append.mp hi with hi | hi
      · rw [h.linkedIndices_eq hconst] at hi
        exact .linked hfirst hconst hi hi'
      · exact hwork i (List.mem_cons_of_mem _ hi) e' hi'
  | case3 marks first rest hlt unmarked ih =>
    exact ih hmarks (fun i hi => hwork i (List.mem_cons_of_mem _ hi)) hhas
  | case4 marks first rest hlt ih =>
    exact ih hmarks (fun i hi => hwork i (List.mem_cons_of_mem _ hi)) hhas

/-! ## What is reached is marked -/

/-- The links of marked slots lead to marked slots and to the work, as far as there are
constants. -/
def Closed (p : Pool) (marks : Marks) (work : List PoolIndex) : Prop :=
  ∀ i, marks.has i = true → ∀ next ∈ p.linkedIndices i, (p.find? next).isSome = true →
    marks.has next = true ∨ next ∈ work

/-- **No link leaves the slots that are marked in the end.** -/
theorem visit_closed (p : Pool) (marks : Marks) (work : List PoolIndex)
    (hsize : marks.size = p.size) (h : p.Closed marks work) :
    p.Closed (p.visit marks work) [] := by
  fun_induction Pool.visit p marks work with
  | case1 marks => exact h
  | case2 marks first rest hlt unmarked ih =>
    refine ih (by rw [Array.size_set, hsize]) fun i hi next hnext hfound => ?_
    rw [has_set] at hi ⊢
    by_cases heq : i.toNat = first.toNat
    · -- the links of the slot that was just marked are part of the work
      rw [UInt16.toNat_inj.mp heq] at hnext
      exact .inr (List.mem_append_left _ hnext)
    · rw [if_neg heq] at hi
      rcases h i hi next hnext hfound with hmarked | hmem
      · left
        simp [hmarked]
      · rcases List.mem_cons.mp hmem with rfl | hmem
        · exact .inl (if_pos rfl)
        · exact .inr (List.mem_append_right _ hmem)
  | case3 marks first rest hlt unmarked ih =>
    refine ih hsize fun i hi next hnext hfound => ?_
    rcases h i hi next hnext hfound with hmarked | hmem
    · exact .inl hmarked
    · rcases List.mem_cons.mp hmem with rfl | hmem
      · -- the slot is occupied, so it was passed over because it has its mark already
        left
        simp only [not_and_or, hfound, not_true_eq_false, or_false, Bool.not_eq_false] at unmarked
        simp [Marks.has, hlt, unmarked]
      · exact .inr hmem
  | case4 marks first rest hlt ih =>
    refine ih hsize fun i hi next hnext hfound => ?_
    rcases h i hi next hnext hfound with hmarked | hmem
    · exact .inl hmarked
    · rcases List.mem_cons.mp hmem with rfl | hmem
      · -- an index behind the last slot holds nothing
        obtain ⟨id, hid⟩ := Option.isSome_iff_exists.mp hfound
        exact absurd (hsize ▸ toNat_lt_size hid) hlt
      · exact .inr hmem

/-- **The search marks exactly what is reached.** -/
theorem has_reachable_iff (h : p.WellFormed) {roots : List PoolIndex} :
    (p.reachable roots).has index = true ↔ p.Reaches (· ∈ roots) index := by
  have hnone (i : PoolIndex) : Marks.has (Array.replicate p.size false) i = false := by
    rw [Marks.has, Array.getElem?_replicate]
    split <;> rfl
  constructor
  · intro hhas
    refine reaches_of_has_visit h _ roots (fun i hi => ?_) (fun i hi e he => .stored hi he) hhas
    rw [hnone] at hi
    cases hi
  · have hclosed : p.Closed (p.reachable roots) [] := by
      refine visit_closed p _ roots Array.size_replicate fun i hi => ?_
      rw [hnone] at hi
      cases hi
    intro hreach
    induction hreach with
    | stored hstored hconst =>
      obtain ⟨id, hfind, -⟩ := h.constant?_eq_some_iff.mp hconst
      exact has_reachable hstored hfind
    | linked _ hconst hnext hoccupied ih =>
      rw [← h.linkedIndices_eq hconst] at hnext
      rcases hclosed _ ih _ hnext (isSome_find?_of_constant hoccupied) with hmarked | hmem
      · exact hmarked
      · cases hmem

/-- No constant refers to one that can be filled, so such a slot is reached only when it is
stored. -/
theorem Reaches.stored_of_fillable (hreach : p.Reaches stored index) (h : p.WellFormed)
    (hfill : p.Fillable index) : stored index := by
  cases hreach with
  | stored hstored _ => exact hstored
  | linked _ hconst hnext _ =>
    exfalso
    obtain ⟨id, hfind, hresolved⟩ := h.constant?_eq_some_iff.mp hconst
    rw [← Entry.map_snd_links] at hnext
    obtain ⟨⟨t, next⟩, hlink, rfl⟩ := List.mem_map.mp hnext
    -- the reference is bound to the constant in the slot, of a kind that fits
    obtain ⟨r, hr, hassigned⟩ := (Entry.mapRefs_relinked hresolved).exists_old hlink
    obtain ⟨target, rfl, htarget, haccepts⟩ := h.bound hfind hr
    have hnonzero := (find?_eq_some_iff.mp htarget).1
    have hindex : (p.cell target).index = next := by simpa [assignedIndex, hnonzero] using hassigned
    obtain ⟨id', hid', -, hnone⟩ := hfill.exists_find? h
    rw [hindex, hid'] at htarget
    cases htarget
    simp [hnone t] at haccepts

end Reaches

/-! ## Disused slots -/

/-- The slots that fall out of use, in terms of the marks. -/
theorem mem_disused_iff {p : Pool} (hsize : p.size ≤ 0xFFFF) {before after : Marks}
    {index : PoolIndex} :
    index ∈ p.disused before after ↔ ∃ id, p.find? index = some id ∧
      before.has index = true ∧ after.has index = false ∧ p.isDynamic id = true := by
  rw [disused, List.mem_filterMap]
  constructor
  · rintro ⟨⟨found, id⟩, hmem, heq⟩
    have hfind := (mem_occupied_iff hsize).mp hmem
    dsimp only at heq
    by_cases hcond : (before.has found && !after.has found && p.isDynamic id) = true
    · rw [if_pos hcond] at heq
      cases heq
      simp only [Bool.and_eq_true, Bool.not_eq_true'] at hcond
      exact ⟨id, hfind, hcond.1.1, hcond.1.2, hcond.2⟩
    · rw [if_neg hcond] at heq
      cases heq
  · rintro ⟨id, hfind, hbefore, hafter, hdynamic⟩
    refine ⟨(index, id), (mem_occupied_iff hsize).mpr hfind, if_pos ?_⟩
    rw [hbefore, hafter, hdynamic]
    rfl

/-- The constants that name bootstrap methods. -/
theorem isDynamic_iff {p : Pool} {id : EntryId} : p.isDynamic id = true ↔
    (p.cell id).entry.tag = .dynamic ∨ (p.cell id).entry.tag = .invokeDynamic := by
  rw [isDynamic]
  cases (p.cell id).entry.tag <;> simp

/-- The slot of a dynamic constant can be filled: no constant refers to a dynamic one. -/
theorem fillable_of_tag {p : Pool} (h : p.WellFormed) {index : PoolIndex}
    (htag : p.tag? index = some .dynamic ∨ p.tag? index = some .invokeDynamic) :
    p.Fillable index := by
  rw [h.tag?_eq] at htag
  cases hconst : p.constant? index with
  | none => simp [hconst] at htag
  | some e =>
    have hkind : e.tag = .dynamic ∨ e.tag = .invokeDynamic := by simpa [hconst] using htag
    refine ⟨e, hconst, ?_⟩
    rw [Entry.isWide]
    rcases hkind with hkind | hkind
    · rw [hkind]
      refine ⟨rfl, fun target => ?_⟩
      cases target <;> rfl
    · rw [hkind]
      refine ⟨rfl, fun target => ?_⟩
      cases target <;> rfl

theorem fillable_of_mem_disused {p : Pool} (h : p.WellFormed) {before after : Marks}
    {index : PoolIndex} (hmem : index ∈ p.disused before after) : p.Fillable index := by
  obtain ⟨id, hfind, -, -, hdynamic⟩ := (mem_disused_iff h.size_le).mp hmem
  refine fillable_of_tag h ?_
  simpa [tag?, entry?, hfind] using isDynamic_iff.mp hdynamic

/-- A slot that falls out of use holds a dynamic constant or call site. -/
theorem exists_computed_of_mem_disused {p : Pool} (h : p.WellFormed) {before after : Marks}
    {index : PoolIndex} (hmem : index ∈ p.disused before after) :
    ∃ kind bootstrap nameType,
      p.constant? index = some (.computed kind bootstrap nameType) := by
  obtain ⟨id, hfind, -, -, hdynamic⟩ := (mem_disused_iff h.size_le).mp hmem
  obtain ⟨e, hresolved⟩ := h.exists_resolved hfind
  have hconst := constant?_of_find? hfind hresolved
  have htag := isDynamic_iff.mp hdynamic
  rw [← (Entry.mapRefs_relinked hresolved).tag_eq] at htag
  cases e with
  | computed kind bootstrap nameType => exact ⟨kind, bootstrap, nameType, hconst⟩
  | named kind _ | member kind _ _ =>
    cases kind <;> simp [Entry.tag, NamedKind.tag, MemberKind.tag] at htag
  | _ => simp [Entry.tag] at htag

/-- The slots that fall out of use are listed in increasing order. -/
theorem disused_ascending {p : Pool} (hsize : p.size ≤ 0xFFFF) (before after : Marks) :
    (p.disused before after).Pairwise (· < ·) := by
  rw [disused, List.pairwise_filterMap]
  refine (occupied_ascending hsize).imp fun {slot slot'} hlt => ?_
  intro index hindex index' hindex'
  dsimp only at hindex hindex'
  split at hindex
  · split at hindex'
    · cases hindex
      cases hindex'
      exact hlt
    · cases hindex'
  · cases hindex

/-- Nothing falls out of use when the marks are the same. -/
theorem disused_self {p : Pool} (hsize : p.size ≤ 0xFFFF) (marks : Marks) :
    p.disused marks marks = [] := by
  refine List.eq_nil_iff_forall_not_mem.mpr fun index hmem => ?_
  obtain ⟨id, -, hbefore, hafter, -⟩ := (mem_disused_iff hsize).mp hmem
  rw [hbefore] at hafter
  cases hafter

/-! ## Reached slots after filling -/

/-- **Filling slots that are not reached makes no slot reached**: no filled slot, since what is
stored does not name it and what stays does not refer to it, and no other slot, since the others
hold what they held. -/
theorem Filled.reaches {p q : Pool} {indices : List PoolIndex} (h : p.Filled indices q)
    (hfill : ∀ index ∈ indices, p.Fillable index) {stored stored' : PoolIndex → Prop}
    (hstored : ∀ index, stored' index → stored index)
    (hunreached : ∀ index ∈ indices, ¬p.Reaches stored index) {index : PoolIndex}
    (hreach : q.Reaches stored' index) : p.Reaches stored index ∧ index ∉ indices := by
  have hoccupied {i : PoolIndex} {e : Entry PoolIndex} (hconst : q.constant? i = some e) :
      ∃ e', p.constant? i = some e' := by
    by_cases hi : i ∈ indices
    · obtain ⟨e', he', -⟩ := hfill i hi
      exact ⟨e', he'⟩
    · exact ⟨e, h.constant?_kept i hi ▸ hconst⟩
  have hold : p.Reaches stored index := by
    induction hreach with
    | stored hstored' hconst =>
      obtain ⟨e, he⟩ := hoccupied hconst
      exact .stored (hstored _ hstored') he
    | linked _ hconst hnext hnew ih =>
      -- the constant that refers to the slot is not one of the new ones
      obtain ⟨e, he⟩ := hoccupied hnew
      rw [h.constant?_kept _ fun hmem => hunreached _ hmem ih] at hconst
      exact .linked ih hconst hnext he
  exact ⟨hold, fun hmem => hunreached index hmem hold⟩

end Pool

end ClassPrune
