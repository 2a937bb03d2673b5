import ClassPrune.Class.Writing
import ClassPrune.Proofs.Pool.Reachable
import ClassPrune.Proofs.Strip.Levels
import ClassPrune.Strip.Basic

/-!
# Classes with nothing to strip

A class is clean when every attribute in its lists is cleared against its own pool. Stripping
finds nothing to do in such a class:

- no code is put in standard form and no attribute goes (`Inspector.siftClass_eq_self`),
- both looks at the pool start from the same roots, so that no slot falls out of use
  (`Inspector.reached_eq`),
- `ClassFile.Clean.strip_eq`: the class is returned as it is, with an empty report.

This is the second half of idempotence. The first half, that stripping gives a clean class, needs
the whole of stripping; this one needs the definition of it and no invariant of the pool.
-/

namespace ClassPrune

theorem map_eq_self_of_mem {α : Type} {f : α → α} {l : List α} (h : ∀ a ∈ l, f a = a) :
    l.map f = l := by
  rw [List.map_congr_left h, List.map_id']

theorem total_eq_zero_iff {counts : List Nat} : total counts = 0 ↔ ∀ n ∈ counts, n = 0 := by
  induction counts with
  | nil => simp [total]
  | cons n counts ih =>
    rw [List.forall_mem_cons, ← ih]
    exact Nat.add_eq_zero_iff

namespace Inspector

variable {i : Inspector} {site : Site} {a : Attribute} {k : ClassFile}

/-! ## One attribute -/

namespace Clears

/-- The code of a cleared attribute is in standard form already. -/
theorem standardize_eq (h : i.Clears site a) (d : Decoder) : a.standardize d = a := by
  refine Attribute.mapCode_eq_self fun c hc => ?_
  obtain ⟨insns, hstandard⟩ := h.standard c hc
  rw [Decoder.standardize_of_standard hstandard]

theorem substitutions_eq (h : i.Clears site a) (d : Decoder) : a.substitutions d = 0 := by
  rw [Attribute.substitutions]
  cases hc : a.code? with
  | none => rfl
  | some c =>
    obtain ⟨insns, hstandard⟩ := h.standard c hc
    show (d.standardize c.code).substitutions = 0
    rw [Decoder.standardize_of_standard hstandard]

/-- No verdict comes to replace opcodes in it. -/
theorem settle_eq (h : i.Clears site a) : i.settle site a = a := by
  rw [settle]
  split
  · exact h.standardize_eq _
  · rfl

/-- Code that stays belongs to a method, so its operands count before and after sifting. -/
theorem attributeRoots_eq (h : i.Clears site a) :
    i.attributeRoots .beforeSifting site.context a
      = i.attributeRoots .afterSifting site.context a := by
  have hoperands : i.operands .beforeSifting site.context a
      = i.operands .afterSifting site.context a := by
    rw [operands, operands]
    cases hc : a.code? with
    | none => rfl
    | some c => simp only [h.context_of_code hc, true_or, if_true]
  rw [attributeRoots, attributeRoots, hoperands]

end Clears

/-! ## Lists and classes -/

/-- A list of cleared attributes is kept as it is. -/
theorem keep_eq_self {attributes : List Attribute} (h : ∀ a ∈ attributes, i.Clears site a) :
    i.keep site attributes = attributes := by
  have hfilter : (attributes.filter fun a => (i.verdict? site a).isNone) = attributes := by
    refine List.filter_eq_self.mpr fun a ha => ?_
    rw [(h a ha).verdict]
    rfl
  rw [keep, hfilter]
  exact map_eq_self_of_mem fun a ha => (h a ha).settle_eq

/-- **Sifting leaves a class alone in which every attribute is cleared.** -/
theorem siftClass_eq_self (h : k.Levels i.Clears) : i.siftClass k = k := by
  have hfields : k.fields.map i.siftField = k.fields := by
    refine map_eq_self_of_mem fun f hf => ?_
    rw [siftField, keep_eq_self (h.ofField f hf)]
  have hmethods : k.methods.map i.siftMethod = k.methods := by
    refine map_eq_self_of_mem fun m hm => ?_
    rw [siftMethod, keep_eq_self (h.ofMethod m hm), map_eq_self_of_mem fun a ha => ?_]
    refine Attribute.mapCode_eq_self fun c hc => ?_
    rw [keep_eq_self (h.ofCode m hm a ha c hc)]
  have hattributes : i.siftClassAttributes k.attributes = k.attributes := by
    rw [siftClassAttributes, keep_eq_self h.ofClass]
    refine map_eq_self_of_mem fun a ha => ?_
    refine Attribute.mapComponents_eq_self fun components hcomponents => ?_
    refine map_eq_self_of_mem fun c hc => ?_
    rw [keep_eq_self (h.ofComponent a ha components hcomponents c hc)]
  rw [siftClass, hfields, hmethods, hattributes]

theorem standardize_eq_self (h : k.Levels i.Clears) (d : Decoder) : k.standardize d = k := by
  have hmethods : (k.methods.map fun m =>
      { m with attributes := m.attributes.map (Attribute.standardize d) }) = k.methods := by
    refine map_eq_self_of_mem fun m hm => ?_
    rw [map_eq_self_of_mem fun a ha => (h.ofMethod m hm a ha).standardize_eq d]
  rw [ClassFile.standardize, hmethods]

theorem substitutions_eq_zero (h : k.Levels i.Clears) (d : Decoder) : k.substitutions d = 0 := by
  refine total_eq_zero_iff.mpr fun n hn => ?_
  obtain ⟨m, hm, hn⟩ := List.mem_flatMap.mp hn
  obtain ⟨a, ha, rfl⟩ := List.mem_map.mp hn
  exact (h.ofMethod m hm a ha).substitutions_eq d

/-- When nothing goes, the rosters list what is in the class. -/
theorem clears_of_mem_rosters (h : k.Levels i.Clears) {r : Roster} (hr : r ∈ i.rosters k) :
    ∀ a ∈ r.attributes, i.Clears r.site a := by
  rcases List.mem_cons.mp hr with rfl | hr
  · exact h.ofClass
  rcases List.mem_append.mp hr with hr | hr
  · rcases List.mem_append.mp hr with hr | hr
    · obtain ⟨f, hf, rfl⟩ := List.mem_map.mp hr
      exact h.ofField f hf
    · obtain ⟨m, hm, hr⟩ := List.mem_flatMap.mp hr
      rcases List.mem_cons.mp hr with rfl | hr
      · exact h.ofMethod m hm
      · -- all code stays, so the rosters of code are those of all code
        rw [keep_eq_self (h.ofMethod m hm)] at hr
        obtain ⟨a, ha, heq⟩ := List.mem_filterMap.mp hr
        obtain ⟨c, hc, rfl⟩ := Option.map_eq_some_iff.mp heq
        exact h.ofCode m hm a ha c hc
  · rw [componentRosters, keep_eq_self h.ofClass] at hr
    obtain ⟨a, ha, hr⟩ := List.mem_flatMap.mp hr
    obtain ⟨c, hc, rfl⟩ := List.mem_map.mp hr
    cases hcomponents : a.components? with
    | none =>
      rw [hcomponents] at hc
      cases hc
    | some components =>
      rw [hcomponents] at hc
      exact h.ofComponent a ha components hcomponents c hc

/-- Where everything is cleared nothing is reported. -/
theorem drops_eq_nil (h : k.Levels i.Clears) : i.drops k = [] := by
  refine List.flatMap_eq_nil_iff.mpr fun r hr => List.filterMap_eq_nil_iff.mpr fun a ha => ?_
  rw [(clears_of_mem_rosters h hr a ha).verdict]
  rfl

theorem lateSubstitutions_eq_zero (h : k.Levels i.Clears) : i.lateSubstitutions k = 0 := by
  refine total_eq_zero_iff.mpr fun n hn => ?_
  obtain ⟨r, hr, rfl⟩ := List.mem_map.mp hn
  refine total_eq_zero_iff.mpr fun n hn => ?_
  obtain ⟨a, ha, rfl⟩ := List.mem_map.mp hn
  rw [(clears_of_mem_rosters h hr a ha).substitutions_eq, ite_self]

/-- Both looks at the pool find the same slots, although the second one also counts code on other
holders. -/
theorem reached_eq (h : k.Levels i.Clears) :
    i.reached .beforeSifting k = i.reached .afterSifting k := by
  have hroots : i.roots .beforeSifting k = i.roots .afterSifting k :=
    roots_congr (h.mono fun site a ha => ha.attributeRoots_eq)
  rw [reached, reached, hroots]

end Inspector

namespace ClassFile

/-- Every attribute in the lists of the class is cleared against its own pool. -/
structure Clean (profile : Profile) (k : ClassFile) : Prop where
  size_le : k.pool.size ≤ 0xFFFF
  clears : k.Levels (Inspector.ofPool profile k.pool).Clears

/-- **Stripping a clean class does nothing**, and reports that it did nothing. -/
theorem Clean.strip_eq {profile : Profile} {k : ClassFile} (h : k.Clean profile) :
    k.strip profile = (k, ⟨[], [], false, 0⟩) := by
  have hstandard := Inspector.standardize_eq_self h.clears
  -- the class is what it was, and so are the marks
  have hfilled : k.pool.disused
      ((Inspector.ofPool profile k.pool).reached .beforeSifting k)
      ((Inspector.ofPool profile k.pool).reached .afterSifting k) = [] := by
    rw [Inspector.reached_eq h.clears]
    exact Pool.disused_self h.size_le _
  rw [strip]
  simp only [hstandard, Inspector.siftClass_eq_self h.clears, hfilled,
    Inspector.drops_eq_nil h.clears, Inspector.substitutions_eq_zero h.clears,
    Inspector.lateSubstitutions_eq_zero h.clears]
  rfl

/-- A clean class is not reported as changed, and is written as before. -/
theorem Clean.unchanged {profile : Profile} {k : ClassFile} (h : k.Clean profile) :
    (k.strip profile).2.changed = false ∧ (k.strip profile).1.encode = k.encode := by
  rw [h.strip_eq]
  exact ⟨rfl, rfl⟩

end ClassFile

end ClassPrune
