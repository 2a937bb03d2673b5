import ClassPrune.Proofs.Pool.History
import ClassPrune.Proofs.Strip.Settled

/-!
# Constants in use, and those that fall out of use

What a class uses of its pool is said without a search: `ClassFile.Stores` lists where a class
stores an index, and `ClassFile.Reaches` closes that under the references between constants.

- `Inspector.mem_roots_iff`: the roots of the search are what the class stores.
- `Inspector.has_reached_iff`, `ClassFile.has_reached_sifted_iff`: the marks of both looks at the
  pool are what the class reaches, before and after sifting.
- `ClassFile.Settled.stores_of_strip`: what is stored in the end was stored after sifting. The
  decoder has changed with the pool in between; standard code does not notice.
- `ClassFile.foldlM_replaceByZero_filled`: filling is done by replacements that are never refused.
- `ClassFile.strip_filled`: so filling is exact, and it is safe.
-/

namespace ClassPrune

namespace ClassFile

/-- Where a class stores an index: in its header, in its members, and in the attributes of its
holders as their names, in their bodies and in the instructions of methods. -/
inductive Stores (d : Decoder) (k : ClassFile) : PoolIndex → Prop where
  | thisClass : Stores d k k.thisClass
  | superClass : Stores d k k.superClass
  | interface {index : PoolIndex} (hindex : index ∈ k.interfaces) : Stores d k index
  | memberName {m : Member} (hm : m ∈ k.fields ++ k.methods) : Stores d k m.nameIndex
  | memberDescriptor {m : Member} (hm : m ∈ k.fields ++ k.methods) :
      Stores d k m.descriptorIndex
  | attributeName {holder : HolderRef} {a : Attribute} (hholder : holder ∈ k.holders)
      (ha : a ∈ k.attributesAt holder) : Stores d k a.nameIndex
  | body {holder : HolderRef} {a : Attribute} {body : Body Attribute} {index : PoolIndex}
      (hholder : holder ∈ k.holders) (ha : a ∈ k.attributesAt holder)
      (hbody : a.body = some body) (hindex : index ∈ body.references) : Stores d k index
  /-- The code of a method counts as far as it decodes. -/
  | operand {holder : HolderRef} {a : Attribute} {c : Code Attribute} {insns : List Instruction}
      {index : PoolIndex} (hholder : holder ∈ k.holders) (hmethod : holder.context = .onMethod)
      (ha : a ∈ k.attributesAt holder) (hc : a.code? = some c)
      (hdecode : d.decode c.code = .ok insns) (hindex : index ∈ poolOperands insns) :
      Stores d k index

/-- The slots in use: those that the class stores, and those that constants in use refer to. -/
def Reaches (profile : Profile) (k : ClassFile) : PoolIndex → Prop :=
  k.pool.Reaches (k.Stores (Decoder.ofPool profile (some k.pool)))

end ClassFile

namespace Inspector

variable {i : Inspector} {k : ClassFile} {index : PoolIndex}

/-! ## Roots -/

/-- The roots of one attribute: its name, what its body stores, and the operands of code on a
method. -/
theorem mem_attributeRoots_iff {context : Context} {a : Attribute} :
    index ∈ i.attributeRoots .beforeSifting context a ↔
      index = a.nameIndex ∨ (∃ body, a.body = some body ∧ index ∈ body.references) ∨
        (context = .onMethod ∧ ∃ c insns, a.code? = some c ∧
          i.decoder.decode c.code = .ok insns ∧ index ∈ poolOperands insns) := by
  have hbody : index ∈ (a.body.map Body.references).getD [] ↔
      ∃ body, a.body = some body ∧ index ∈ body.references := by
    cases a.body <;> simp
  have hoperands : index ∈ i.operands .beforeSifting context a ↔
      context = .onMethod ∧ ∃ c insns, a.code? = some c ∧
        i.decoder.decode c.code = .ok insns ∧ index ∈ poolOperands insns := by
    rw [operands]
    cases hc : a.code? with
    | none => simp
    | some c =>
      by_cases hcontext : context = .onMethod
      · cases hdecode : i.decoder.decode c.code <;> simp [hcontext, hdecode]
      · simp [hcontext]
  rw [attributeRoots, List.mem_cons, List.mem_append, hbody, hoperands]

/-- **The roots of the search are the indices that the class stores.** -/
theorem mem_roots_iff : index ∈ i.roots .beforeSifting k ↔ k.Stores i.decoder index := by
  have hsections : (index ∈ k.sections.flatMap fun p =>
      p.2.flatMap (i.attributeRoots .beforeSifting p.1)) ↔
        ∃ holder ∈ k.holders, ∃ a ∈ k.attributesAt holder,
          index ∈ i.attributeRoots .beforeSifting holder.context a := by
    rw [ClassFile.sections_eq]
    simp [ClassFile.sectionAt]
  have hroots : index ∈ i.roots .beforeSifting k ↔ index = k.thisClass ∨ index = k.superClass ∨
      (index ∈ k.interfaces ∨ ∃ m ∈ k.fields ++ k.methods,
        index = m.nameIndex ∨ index = m.descriptorIndex) ∨
      ∃ holder ∈ k.holders, ∃ a ∈ k.attributesAt holder,
        index ∈ i.attributeRoots .beforeSifting holder.context a := by
    rw [← hsections, roots]
    simp only [List.mem_cons, List.mem_append, List.mem_flatMap, List.not_mem_nil, or_false]
  rw [hroots]
  constructor
  · rintro (rfl | rfl | (hindex | ⟨m, hm, rfl | rfl⟩) | ⟨holder, hholder, a, ha, hindex⟩)
    · exact .thisClass
    · exact .superClass
    · exact .interface hindex
    · exact .memberName hm
    · exact .memberDescriptor hm
    · rcases mem_attributeRoots_iff.mp hindex with rfl | ⟨body, hbody, hindex⟩ |
        ⟨hmethod, c, insns, hc, hdecode, hindex⟩
      · exact .attributeName hholder ha
      · exact .body hholder ha hbody hindex
      · exact .operand hholder hmethod ha hc hdecode hindex
  · intro hstores
    cases hstores with
    | thisClass => exact .inl rfl
    | superClass => exact .inr (.inl rfl)
    | interface hindex => exact .inr (.inr (.inl (.inl hindex)))
    | memberName hm => exact .inr (.inr (.inl (.inr ⟨_, hm, .inl rfl⟩)))
    | memberDescriptor hm => exact .inr (.inr (.inl (.inr ⟨_, hm, .inr rfl⟩)))
    | attributeName hholder ha =>
      exact .inr (.inr (.inr ⟨_, hholder, _, ha, mem_attributeRoots_iff.mpr (.inl rfl)⟩))
    | body hholder ha hbody hindex =>
      refine .inr (.inr (.inr ⟨_, hholder, _, ha, mem_attributeRoots_iff.mpr ?_⟩))
      exact .inr (.inl ⟨_, hbody, hindex⟩)
    | operand hholder hmethod ha hc hdecode hindex =>
      refine .inr (.inr (.inr ⟨_, hholder, _, ha, mem_attributeRoots_iff.mpr ?_⟩))
      exact .inr (.inr ⟨hmethod, _, _, hc, hdecode, hindex⟩)

/-- Every decoder reads the same operands from code in standard form. -/
theorem Clears.attributeRoots_congr {site : Site} {a : Attribute} (h : i.Clears site a)
    (i' : Inspector) : i'.attributeRoots .beforeSifting site.context a
      = i.attributeRoots .beforeSifting site.context a := by
  have hoperands : i'.operands .beforeSifting site.context a
      = i.operands .beforeSifting site.context a := by
    rw [operands, operands]
    cases hc : a.code? with
    | none => rfl
    | some c =>
      obtain ⟨insns, hstandard⟩ := h.standard c hc
      simp [(hstandard i'.decoder).1, (hstandard i.decoder).1]
  rw [attributeRoots, attributeRoots, hoperands]

/-! ## Marks -/

/-- The marks of a class before sifting are the slots that it reaches. -/
theorem has_reached_iff {profile : Profile} (hwell : k.pool.WellFormed) :
    ((ofPool profile k.pool).reached .beforeSifting k).has index = true ↔
      k.Reaches profile index := by
  rw [reached]
  exact (Pool.has_reachable_iff hwell).trans (Pool.reaches_congr fun _ => mem_roots_iff)

end Inspector

namespace ClassFile

variable {profile : Profile} {k : ClassFile} {index : PoolIndex}

/-- In a settled class code belongs to methods, so both looks at the pool have the same roots. -/
theorem Settled.roots_eq (h : k.Settled profile) :
    (Inspector.ofPool profile k.pool).roots .beforeSifting k
      = (Inspector.ofPool profile k.pool).roots .afterSifting k :=
  Inspector.roots_congr (h.clears.mono fun _ _ ha => ha.attributeRoots_eq)

/-- The marks of a class after sifting are the slots that it still reaches. -/
theorem has_reached_sifted_iff (hsifted : (k.sifted profile).Settled profile)
    (hwell : k.pool.WellFormed) :
    ((Inspector.ofPool profile k.pool).reached .afterSifting (k.sifted profile)).has index = true ↔
      (k.sifted profile).Reaches profile index := by
  have hroots : (Inspector.ofPool profile k.pool).roots .beforeSifting (k.sifted profile)
      = (Inspector.ofPool profile k.pool).roots .afterSifting (k.sifted profile) :=
    hsifted.roots_eq
  rw [Inspector.reached, ← hroots]
  exact Inspector.has_reached_iff (k := k.sifted profile) hwell

/-! ## The class that is left -/

/-- What a class stores with fewer attributes of its own, and beside another pool, it stored
before. -/
theorem Settled.stores_of_sublist {pool : Pool} {attributes : List Attribute}
    (h : k.Settled profile) (hsub : attributes.Sublist k.attributes)
    (hstores : Stores (Decoder.ofPool profile (some pool)) { k with pool, attributes } index) :
    k.Stores (Decoder.ofPool profile (some k.pool)) index := by
  let i := Inspector.ofPool profile k.pool
  let i' := Inspector.ofPool profile pool
  have hlevels : k.Levels fun site a =>
      ∀ index ∈ i'.attributeRoots .beforeSifting site.context a, k.Stores i.decoder index := by
    refine (h.clears.and (Inspector.levels_roots i .beforeSifting k)).mono ?_
    rintro site a ⟨hclears, hroots⟩ index hindex
    rw [hclears.attributeRoots_congr i'] at hindex
    exact Inspector.mem_roots_iff.mp (hroots index hindex)
  have hleft {holder : HolderRef} (hholder : holder ∈ holders { k with pool, attributes })
      {a : Attribute} (ha : a ∈ attributesAt { k with pool, attributes } holder)
      (hindex : index ∈ i'.attributeRoots .beforeSifting holder.context a) :
      k.Stores i.decoder index :=
    Levels.of_mem_holders (P := fun context a =>
      ∀ index ∈ i'.attributeRoots .beforeSifting context a, k.Stores i.decoder index)
      (hlevels.of_sublist hsub) hholder ha index hindex
  cases hstores with
  | thisClass => exact .thisClass
  | superClass => exact .superClass
  | interface hindex => exact .interface hindex
  | memberName hm => exact .memberName hm
  | memberDescriptor hm => exact .memberDescriptor hm
  | attributeName hholder ha =>
    exact hleft hholder ha (Inspector.mem_attributeRoots_iff.mpr (.inl rfl))
  | body hholder ha hbody hindex =>
    exact hleft hholder ha (Inspector.mem_attributeRoots_iff.mpr (.inr (.inl ⟨_, hbody, hindex⟩)))
  | operand hholder hmethod ha hc hdecode hindex =>
    exact hleft hholder ha (Inspector.mem_attributeRoots_iff.mpr
      (.inr (.inr ⟨hmethod, _, _, hc, hdecode, hindex⟩)))

/-- What the stripped class stores, the sifted class stored. -/
theorem Settled.stores_of_strip (h : (k.sifted profile).Settled profile)
    (hstores : (k.strip profile).1.Stores
      (Decoder.ofPool profile (some (k.strip profile).1.pool)) index) :
    (k.sifted profile).Stores (Decoder.ofPool profile (some k.pool)) index := by
  rcases strip_cases profile k with hstrip | hstrip
  · rw [hstrip] at hstores
    exact h.stores_of_sublist (List.Sublist.refl _) hstores
  · rw [hstrip] at hstores
    exact h.stores_of_sublist List.filter_sublist hstores

/-- A slot falls out of use when it holds a dynamic constant that the class reaches before sifting
and not afterwards. -/
theorem mem_disused_iff (hsifted : (k.sifted profile).Settled profile)
    (hwell : k.pool.WellFormed) : index ∈ k.disused profile ↔
      (k.pool.tag? index = some .dynamic ∨ k.pool.tag? index = some .invokeDynamic) ∧
        (k.standardize (Decoder.ofPool profile (some k.pool))).Reaches profile index ∧
          ¬(k.sifted profile).Reaches profile index := by
  let i := Inspector.ofPool profile k.pool
  have hbefore : (i.reached .beforeSifting (k.standardize i.decoder)).has index = true ↔
      (k.standardize i.decoder).Reaches profile index :=
    Inspector.has_reached_iff (k := k.standardize i.decoder) hwell
  have hafter : (i.reached .afterSifting (k.sifted profile)).has index = false ↔
      ¬(k.sifted profile).Reaches profile index := by
    rw [← has_reached_sifted_iff hsifted hwell, Bool.not_eq_true]
  rw [disused, Pool.mem_disused_iff hwell.size_le]
  constructor
  · rintro ⟨id, hfind, hmarked, hunmarked, hkind⟩
    refine ⟨?_, hbefore.mp hmarked, hafter.mp hunmarked⟩
    simpa [Pool.tag?, Pool.entry?, hfind] using Pool.isDynamic_iff.mp hkind
  · rintro ⟨htag, hreach, hunreached⟩
    obtain ⟨e, hconst⟩ := hreach.exists_constant
    obtain ⟨id, hfind, -⟩ := hwell.constant?_eq_some_iff.mp hconst
    refine ⟨id, hfind, hbefore.mpr hreach, hafter.mpr hunreached, Pool.isDynamic_iff.mpr ?_⟩
    simpa [Pool.tag?, Pool.entry?, hfind] using htag

/-- **Every slot that is picked is filled.** The pool of a stripped class comes from the given one
by replacing constants, one slot after the other, and no replacement is refused. -/
theorem foldlM_replaceByZero_filled {data : Bytes} (h : parse data = .ok k) (profile : Profile) :
    (k.strip profile).2.filled.foldlM Pool.replaceByZero k.pool
      = .ok (k.strip profile).1.pool := by
  have hwell := (parse_sound h).2.1.wellFormed
  rw [pool_strip]
  exact hwell.foldlM_replaceByZero fun index hmem => Pool.fillable_of_mem_disused hwell hmem

/-- **Filling is exact and safe.** The slots that are filled are, in increasing order, those of the
dynamic constants that the class reaches with its code in standard form, and does not reach after
sifting. They hold the number zero afterwards, every other slot holds what it held, and the class
that is left reaches none of them. -/
theorem strip_filled {data : Bytes} (h : parse data = .ok k) (profile : Profile) :
    (k.strip profile).2.filled.Pairwise (· < ·) ∧
      (∀ index, index ∈ (k.strip profile).2.filled ↔
        (k.pool.tag? index = some .dynamic ∨ k.pool.tag? index = some .invokeDynamic) ∧
          (k.standardize (Decoder.ofPool profile (some k.pool))).Reaches profile index ∧
            ¬(k.sifted profile).Reaches profile index) ∧
      (∀ index ∈ (k.strip profile).2.filled,
        Pool.entry? (k.strip profile).1.pool index = some (.integer 0) ∧
          ¬(k.strip profile).1.Reaches profile index) ∧
      ∀ index, index ∉ (k.strip profile).2.filled →
        (k.strip profile).1.pool.find? index = k.pool.find? index ∧
          Pool.entry? (k.strip profile).1.pool index = k.pool.entry? index ∧
            (k.strip profile).1.pool.constant? index = k.pool.constant? index := by
  obtain ⟨-, hwritable, hdecoded⟩ := parse_sound h
  have hwell := hwritable.wellFormed
  have hsifted := sifted_settled hwritable hdecoded profile
  have hfill : ∀ index ∈ k.disused profile, k.pool.Fillable index := fun index hmem =>
    Pool.fillable_of_mem_disused hwell hmem
  have hfilled := Pool.fill_filled hwell hfill
  refine ⟨Pool.disused_ascending hwell.size_le _ _, fun index => mem_disused_iff hsifted hwell,
    fun index hmem => ⟨?_, ?_⟩, fun index hmem => ?_⟩
  · rw [pool_strip]
    exact Pool.entry?_fill_of_mem hwell hfill hmem
  · intro hreach
    rw [Reaches, pool_strip] at hreach
    have hunreached : ∀ index ∈ k.disused profile, ¬(k.sifted profile).Reaches profile index :=
      fun index hmem => ((mem_disused_iff hsifted hwell).mp hmem).2.2
    have hstores (i : PoolIndex) (hi : (k.strip profile).1.Stores
        (Decoder.ofPool profile (some (k.pool.fill (k.disused profile)))) i) :
        (k.sifted profile).Stores (Decoder.ofPool profile (some k.pool)) i := by
      rw [← pool_strip] at hi
      exact hsifted.stores_of_strip hi
    exact (hfilled.reaches hfill hstores hunreached hreach).2 hmem
  · rw [pool_strip]
    exact ⟨Pool.find?_fill_of_not_mem hwell hfill hmem,
      Pool.entry?_fill_of_not_mem hwell hfill hmem, hfilled.constant?_kept index hmem⟩

/-- In the crafted class only the code of the abstract method names the dynamic constant. -/
theorem strip_filled_craftedClass :
    ∃ k, parse craftedClass = .ok k ∧ (10 : PoolIndex) ∈ (k.strip .standard).2.filled ∧
      Pool.entry? (k.strip .standard).1.pool 10 = some (.integer 0) ∧
        ¬(k.strip .standard).1.Reaches .standard 10 := by
  have hparse : (parse craftedClass).toOption.any (fun k =>
      let i := Inspector.ofPool .standard k.pool
      decide (k.pool.tag? 10 = some .invokeDynamic ∧
        10 ∈ i.roots .beforeSifting (k.standardize i.decoder) ∧
          10 ∉ i.roots .beforeSifting (k.sifted .standard))) = true := by decide +kernel
  obtain ⟨k, hk, hcheck⟩ := exists_of_toOption hparse
  obtain ⟨htag, hbefore, hafter⟩ := of_decide_eq_true hcheck
  have hwell := (parse_sound hk).2.1.wellFormed
  obtain ⟨-, hexact, hsafe, -⟩ := strip_filled hk .standard
  have hmem : (10 : PoolIndex) ∈ (k.strip .standard).2.filled := by
    obtain ⟨e, hconst, hnarrow, hnone⟩ := Pool.fillable_of_tag hwell (.inr htag)
    refine (hexact 10).mpr ⟨.inr htag, .stored (Inspector.mem_roots_iff.mp hbefore) hconst, ?_⟩
    intro hreach
    exact hafter (Inspector.mem_roots_iff.mpr
      (Pool.Reaches.stored_of_fillable hreach hwell ⟨e, hconst, hnarrow, hnone⟩))
  obtain ⟨hzero, hunreached⟩ := hsafe 10 hmem
  exact ⟨k, hk, hmem, hzero, hunreached⟩

end ClassFile

end ClassPrune
