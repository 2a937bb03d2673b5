import ClassPrune.Proofs.Strip.Sifting

/-!
# Stripped classes

The steps of stripping are followed one by one. A class is settled when every attribute in it is
cleared against its own pool, when it can be written, and when its attributes come back from their
payloads.

- `ClassFile.sifted_settled`: sifting settles a class that was read.
- `ClassFile.Settled.fill`: a settled class stays so when slots are filled that it does not reach.
- `ClassFile.Settled.of_sublist`: and when attributes of the class itself go.
- `ClassFile.strip_settled`: so stripping settles every class that was read.
- `ClassFile.Settled.parse_encode`: a settled class is written and read back, and then it is the
  same class and clean again.

So what stripping gives can always be written and read back, and stripping it again changes
nothing, before or after.
-/

namespace ClassPrune

/-- A verdict cannot tell a method from the one that is read back. -/
theorem Member.Rewritten.alike {m m' : Member} (h : m.Rewritten m') (context : Context) :
    (⟨context, some m⟩ : Site).Alike ⟨context, some m'⟩ := by
  refine ⟨rfl, ?_⟩
  show some (m'.flags, m'.descriptorIndex) = some (m.flags, m.descriptorIndex)
  rw [h.flags_eq, h.descriptorIndex_eq]

namespace ClassFile

variable {profile : Profile} {k k' : ClassFile}

/-- Nothing is left to strip, and the class survives being written. -/
structure Settled (profile : Profile) (k : ClassFile) : Prop where
  clears : k.Levels (Inspector.ofPool profile k.pool).Clears
  writable : k.Writable
  faithful : k.Faithful

theorem Settled.clean (h : k.Settled profile) : k.Clean profile :=
  ⟨h.writable.wellFormed.size_le, h.clears⟩

/-! ## The steps -/

/-- The class after sifting, with the pool that it had before. -/
def sifted (profile : Profile) (k : ClassFile) : ClassFile :=
  (Inspector.ofPool profile k.pool).siftClass
    (k.standardize (Inspector.ofPool profile k.pool).decoder)

/-- Sifting settles a class that was read. -/
theorem sifted_settled (hwritable : k.Writable) (hdecoded : k.Decoded) (profile : Profile) :
    (k.sifted profile).Settled profile :=
  ⟨Inspector.siftClass_clears hdecoded rfl, Inspector.siftClass_writable hdecoded rfl hwritable,
    Inspector.siftClass_faithful hdecoded rfl⟩

/-- **Filling slots that the class does not reach settles nothing anew**: no verdict can see that
they were filled. -/
theorem Settled.fill (h : k.Settled profile) {indices : List PoolIndex}
    (hfill : ∀ index ∈ indices, k.pool.Fillable index)
    (hunused : ∀ index ∈ (Inspector.ofPool profile k.pool).roots .afterSifting k,
      index ∉ indices) :
    Settled profile { k with pool := k.pool.fill indices } := by
  obtain ⟨hclears, ⟨hwell, hstorable, hinterfaces, hfields, hmethods, hattributes⟩, hfaithful⟩ := h
  have hfilled := Pool.fill_filled hwell hfill
  have hagree := hfilled.agreeOff hwell hfill
  have hzero : 0 ∉ indices := by
    intro hmem
    obtain ⟨e, hconst, -⟩ := hfill 0 hmem
    cases hconst
  refine ⟨?_, ?_, hfaithful.congr hagree.utf8_eq⟩
  · -- every index that an attribute names is a root, so none of them is filled
    have hroots := Inspector.levels_roots (Inspector.ofPool profile k.pool) .afterSifting k
    have hnew := (hclears.and hroots).mono
      (Q := (Inspector.ofPool profile (k.pool.fill indices)).Clears) ?_
    · exact ⟨hnew.ofClass, hnew.ofComponent, hnew.ofField, hnew.ofMethod, hnew.ofCode⟩
    rintro site a ⟨hclears, hroots⟩
    exact hclears.congr hagree (.refl site) rfl
      ⟨hzero, fun index hindex => hunused index (hroots index hindex)⟩
  · exact ⟨hfilled.wellFormed, hfilled.storable hwell hstorable, hinterfaces, hfields, hmethods,
      hattributes⟩

/-- A settled class stays so when attributes of the class itself go. -/
theorem Settled.of_sublist (h : k.Settled profile) {attributes : List Attribute}
    (hsub : attributes.Sublist k.attributes) : Settled profile { k with attributes } := by
  obtain ⟨hclears, ⟨hwell, hstorable, hinterfaces, hfields, hmethods, hattributes⟩, hfaithful⟩ := h
  refine ⟨?_, ?_, ?_⟩
  · exact hclears.of_sublist hsub
  · exact ⟨hwell, hstorable, hinterfaces, hfields, hmethods,
      ⟨Nat.le_trans hsub.length_le hattributes.length_le,
        fun a ha => hattributes.writable a (hsub.subset ha)⟩⟩
  · exact ⟨hfaithful.fields, hfaithful.methods,
      fun a ha => hfaithful.attributes a (hsub.subset ha)⟩

/-! ## All of them -/

/-- The slots that stripping fills. -/
def disused (profile : Profile) (k : ClassFile) : List PoolIndex :=
  k.pool.disused
    ((Inspector.ofPool profile k.pool).reached .beforeSifting
      (k.standardize (Inspector.ofPool profile k.pool).decoder))
    ((Inspector.ofPool profile k.pool).reached .afterSifting (k.sifted profile))

/-- The slots that fall out of use can all be filled. -/
theorem fill_disused (hwell : k.pool.WellFormed) (profile : Profile) :
    k.pool.Filled (k.disused profile) (k.pool.fill (k.disused profile)) :=
  Pool.fill_filled hwell fun _ hmem => Pool.fillable_of_mem_disused hwell hmem

/-- The class after sifting, with the slots filled. -/
def patched (profile : Profile) (k : ClassFile) : ClassFile :=
  { k.sifted profile with pool := k.pool.fill (k.disused profile) }

/-- What the sifted class stores was marked, and marked slots are not filled. -/
theorem not_mem_disused_of_root (hwell : k.pool.WellFormed) {index : PoolIndex}
    (hroot : index ∈ (Inspector.ofPool profile k.pool).roots .afterSifting (k.sifted profile)) :
    index ∉ k.disused profile := by
  intro hmem
  obtain ⟨id, hfind, -, hafter, -⟩ := (Pool.mem_disused_iff hwell.size_le).mp hmem
  have hreached := Pool.has_reachable (p := k.pool) hroot hfind
  have hmarked : ((Inspector.ofPool profile k.pool).reached .afterSifting
      (k.sifted profile)).has index = true := hreached
  rw [hmarked] at hafter
  cases hafter

/-- After filling the class is settled against its new pool, for nothing that is left names a filled
slot. -/
theorem patched_settled (hwritable : k.Writable) (hdecoded : k.Decoded) (profile : Profile) :
    (k.patched profile).Settled profile := by
  have hsifted := sifted_settled hwritable hdecoded profile
  refine hsifted.fill (fun index hmem => ?_) fun index hroot => ?_
  · exact Pool.fillable_of_mem_disused hwritable.wellFormed hmem
  · exact not_mem_disused_of_root hwritable.wellFormed hroot

theorem strip_eq (profile : Profile) (k : ClassFile) : (k.strip profile).1
    = if (k.strip profile).2.bootstrapMethodsRemoved then
        (k.patched profile).removeBootstrapMethods
      else k.patched profile := rfl

/-- Stripping ends after filling, or with the removal of the bootstrap methods. -/
theorem strip_cases (profile : Profile) (k : ClassFile) :
    (k.strip profile).1 = k.patched profile ∨
      (k.strip profile).1 = (k.patched profile).removeBootstrapMethods := by
  rw [strip_eq]
  split
  · exact .inr rfl
  · exact .inl rfl

/-- Of the pool, stripping changes the filled slots only. -/
theorem pool_strip (profile : Profile) (k : ClassFile) :
    (k.strip profile).1.pool = k.pool.fill (k.disused profile) := by
  rcases strip_cases profile k with h | h <;> rw [h] <;> rfl

theorem fields_strip (profile : Profile) (k : ClassFile) :
    (k.strip profile).1.fields = (k.sifted profile).fields := by
  rcases strip_cases profile k with h | h <;> rw [h] <;> rfl

theorem methods_strip (profile : Profile) (k : ClassFile) :
    (k.strip profile).1.methods = (k.sifted profile).methods := by
  rcases strip_cases profile k with h | h <;> rw [h] <;> rfl

/-- **Stripping settles a class that was read**, whether or not its bootstrap methods go. -/
theorem strip_settled (hwritable : k.Writable) (hdecoded : k.Decoded) (profile : Profile) :
    (k.strip profile).1.Settled profile := by
  have hpatched := patched_settled hwritable hdecoded profile
  rcases strip_cases profile k with h | h
  · rw [h]
    exact hpatched
  · rw [h]
    exact hpatched.of_sublist List.filter_sublist

/-! ## Writing and reading -/

/-- What is read back has the same surface, and so the same verdicts. -/
theorem surface_of_rewritten {a a' : Attribute} (h : a.Rewritten a') : a'.surface = a.surface := by
  rw [Attribute.surface, Attribute.surface, h.nameIndex_eq, h.body_eq]

/-- A property of the attributes of a class is one of the attributes that it is read back with,
when it depends on nothing but the surface of an attribute and on how verdicts see its holder. -/
theorem Levels.of_rewritten {P Q : Site → Attribute → Prop} (h : k.Levels P)
    (hk : k.Rewritten k')
    (hPQ : ∀ site site' a a', site.Alike site' → a'.surface = a.surface → P site a → Q site' a') :
    k'.Levels Q := by
  -- what is nested in a body is the very same as before
  have hsame (site : Site) (a : Attribute) (ha : P site a) : Q site a :=
    hPQ site site a a (.refl site) rfl ha
  have hcode {a a' : Attribute} (ha : a.Rewritten a') : a'.code? = a.code? := by
    rw [Attribute.code?, Attribute.code?, ha.body_eq]
  have hcomponents {a a' : Attribute} (ha : a.Rewritten a') : a'.components? = a.components? := by
    rw [Attribute.components?, Attribute.components?, ha.body_eq]
  refine ⟨?_, ?_, ?_, ?_, ?_⟩
  · intro a' ha'
    obtain ⟨a, ha, hrewritten⟩ := exists_of_forall₂_right hk.attributes ha'
    exact hPQ _ _ a a' (.refl _) (surface_of_rewritten hrewritten) (h.ofClass a ha)
  · intro a' ha' components hfound c hc b hb
    obtain ⟨a, ha, hrewritten⟩ := exists_of_forall₂_right hk.attributes ha'
    rw [hcomponents hrewritten] at hfound
    exact hsame _ b (h.ofComponent a ha components hfound c hc b hb)
  · intro f' hf' a' ha'
    obtain ⟨f, hf, hfield⟩ := exists_of_forall₂_right hk.fields hf'
    obtain ⟨a, ha, hrewritten⟩ := exists_of_forall₂_right hfield.attributes ha'
    exact hPQ _ _ a a' (.refl _) (surface_of_rewritten hrewritten) (h.ofField f hf a ha)
  · intro m' hm' a' ha'
    obtain ⟨m, hm, hmethod⟩ := exists_of_forall₂_right hk.methods hm'
    obtain ⟨a, ha, hrewritten⟩ := exists_of_forall₂_right hmethod.attributes ha'
    exact hPQ _ _ a a' (hmethod.alike .onMethod) (surface_of_rewritten hrewritten)
      (h.ofMethod m hm a ha)
  · intro m' hm' a' ha' c hc b hb
    obtain ⟨m, hm, hmethod⟩ := exists_of_forall₂_right hk.methods hm'
    obtain ⟨a, ha, hrewritten⟩ := exists_of_forall₂_right hmethod.attributes ha'
    rw [hcode hrewritten] at hc
    exact hPQ _ _ b b (hmethod.alike .onCode) rfl (h.ofCode m hm a ha c hc b hb)

/-- A clean class is clean when it is read back. -/
theorem Clean.of_rewritten (h : k.Clean profile) (hk : k.Rewritten k') (hwell : k.pool.WellFormed)
    (hwell' : k'.pool.WellFormed) : k'.Clean profile := by
  refine ⟨hwell'.size_le, h.clears.of_rewritten hk fun site site' a a' hsite hsurface ha => ?_⟩
  exact ha.congr (hk.pool.agree hwell hwell') hsite hsurface (Inspector.spares_nil _ site a)

/-- **A settled class is written and read back**, and what is read is the same class. -/
theorem Settled.parse_encode (h : k.Settled profile) :
    ∃ written k', k.encode = .ok written ∧ parse written = .ok k' ∧ k.Rewritten k' ∧
      k'.Clean profile := by
  obtain ⟨written, pool, hencode, hparse, hwell, -, hsame⟩ :=
    ClassFile.parse_encode h.writable
  have hutf8 := (hsame.agree h.writable.wellFormed hwell).utf8_eq
  have hrewritten := h.faithful.rewritten hsame hutf8
  exact ⟨written, k.reread pool, hencode, hparse, hrewritten,
    h.clean.of_rewritten hrewritten h.writable.wellFormed hwell⟩

/-! ## Classes that are read and stripped -/

/-- A class file in which stripping has something of everything to do: a dynamic constant that only
the code of an abstract method names, bootstrap methods for it, and another method with a reserved
opcode in its code and an attribute below that may not stand there. -/
def craftedClass : Bytes :=
  [0xCA, 0xFE, 0xBA, 0xBE, 0, 0, 0, 52,
    0, 13, 7, 0, 2, 1, 0, 1, 65, 1, 0, 1, 109, 1, 0, 3, 40, 41, 86, 1, 0, 4, 67, 111, 100, 101,
    1, 0, 16, 66, 111, 111, 116, 115, 116, 114, 97, 112, 77, 101, 116, 104, 111, 100, 115,
    15, 6, 0, 8, 10, 0, 1, 0, 9, 12, 0, 3, 0, 4, 18, 0, 0, 0, 9,
    1, 0, 10, 68, 101, 112, 114, 101, 99, 97, 116, 101, 100,
    1, 0, 15, 76, 105, 110, 101, 78, 117, 109, 98, 101, 114, 84, 97, 98, 108, 101,
    4, 0x21, 0, 1, 0, 0, 0, 0,
    0, 0,
    0, 2,
    4, 1, 0, 3, 0, 4, 0, 1,
    0, 5, 0, 0, 0, 18, 0, 0, 0, 0, 0, 0, 0, 6, 0xBA, 0, 10, 0, 0, 0xB1, 0, 0, 0, 0,
    0, 1, 0, 3, 0, 4, 0, 1,
    0, 5, 0, 0, 0, 31, 0, 1, 0, 1, 0, 0, 0, 1, 0xE8, 0, 0, 0, 2,
    0, 12, 0, 0, 0, 6, 0, 1, 0, 0, 0, 1, 0, 11, 0, 0, 0, 0,
    0, 1, 0, 6, 0, 0, 0, 6, 0, 1, 0, 7, 0, 0]

/-- A check that was evaluated on a result gives the result and what was checked. -/
theorem exists_of_toOption {α ε : Type} {result : Except ε α} {P : α → Bool}
    (h : result.toOption.any P = true) : ∃ v, result = .ok v ∧ P v = true := by
  cases result with
  | error e => cases h
  | ok v => exact ⟨v, rfl, h⟩

theorem exists_parse_craftedClass : ∃ k, parse craftedClass = .ok k := by
  have hparse : (parse craftedClass).toOption.any (fun _ => true) = true := by decide +kernel
  obtain ⟨k, hk, -⟩ := exists_of_toOption hparse
  exact ⟨k, hk⟩

/-- **What stripping gives can be written and read back**: the pool is well formed, and the class
that is read has the same header, constants, members and attributes. -/
theorem parse_encode_strip {data : Bytes} (h : parse data = .ok k) (profile : Profile) :
    (k.strip profile).1.pool.WellFormed ∧
      ∃ written k', (k.strip profile).1.encode = .ok written ∧ parse written = .ok k' ∧
        (k.strip profile).1.Rewritten k' := by
  obtain ⟨-, hwritable, hdecoded⟩ := parse_sound h
  have hsettled := strip_settled hwritable hdecoded profile
  obtain ⟨written, k', hencode, hparse, hrewritten, -⟩ := hsettled.parse_encode
  exact ⟨hsettled.writable.wellFormed, written, k', hencode, hparse, hrewritten⟩

theorem parse_encode_strip_craftedClass :
    ∃ k, parse craftedClass = .ok k ∧ (k.strip .standard).1.pool.WellFormed ∧
      ∃ written k', (k.strip .standard).1.encode = .ok written ∧ parse written = .ok k' ∧
        (k.strip .standard).1.Rewritten k' := by
  obtain ⟨k, hk⟩ := exists_parse_craftedClass
  exact ⟨k, hk, parse_encode_strip hk .standard⟩

/-- **Stripping is idempotent**: stripping the result again, in memory or after it was written and
read back, changes nothing and leaves the bytes as they are. -/
theorem strip_idempotent {data : Bytes} {k : ClassFile} (h : parse data = .ok k)
    (profile : Profile) :
    ((k.strip profile).1.strip profile).2.changed = false ∧
      ((k.strip profile).1.strip profile).1.encode = (k.strip profile).1.encode ∧
      ∃ written k', (k.strip profile).1.encode = .ok written ∧ parse written = .ok k' ∧
        (k'.strip profile).2.changed = false ∧ (k'.strip profile).1.encode = .ok written := by
  obtain ⟨-, hwritable, hdecoded⟩ := parse_sound h
  have hsettled := strip_settled hwritable hdecoded profile
  obtain ⟨hchanged, hbytes⟩ := hsettled.clean.unchanged
  refine ⟨hchanged, hbytes, ?_⟩
  obtain ⟨written, k', hencode, hparse, -, hclean⟩ := hsettled.parse_encode
  obtain ⟨hchanged', hbytes'⟩ := hclean.unchanged
  refine ⟨written, k', hencode, hparse, hchanged', ?_⟩
  rw [hbytes']
  exact (parse_sound hparse).1

theorem strip_idempotent_craftedClass :
    ∃ k, parse craftedClass = .ok k ∧
      ((k.strip .standard).1.strip .standard).2.changed = false ∧
      ((k.strip .standard).1.strip .standard).1.encode = (k.strip .standard).1.encode ∧
      ∃ written k', (k.strip .standard).1.encode = .ok written ∧ parse written = .ok k' ∧
        (k'.strip .standard).2.changed = false ∧ (k'.strip .standard).1.encode = .ok written := by
  obtain ⟨k, hk⟩ := exists_parse_craftedClass
  exact ⟨k, hk, strip_idempotent hk .standard⟩

end ClassFile

end ClassPrune
