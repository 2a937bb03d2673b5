import ClassPrune.Proofs.Strip.Verdict
import ClassPrune.Strip.Sifting

/-!
# Attributes and their holders

- `ClassFile.Holds`: an attribute stands on a holder somewhere in a class, at whatever depth.
- `ClassFile.Levels`: a property of every attribute in the lists that stripping sifts. Where code
  stays on methods only and records on classes only there are no other lists
  (`ClassFile.Levels.holds`).
- `ClassFile.Levels.of_mem_sections`, `ClassFile.levels_of_sections`: the same lists as
  `ClassFile.sections` gives them, and so what the attributes in them name is among the roots of
  the class (`Inspector.levels_roots`).

The program goes over four kinds of list: those of the class, of members, of code bodies and of
record components. A property that is shown for each of them is used as one, `Levels`, so that the
proofs about whole classes do not go through the four cases again.
-/

namespace ClassPrune

namespace ClassFile

/-- The attribute stands on a holder in the class: on the class itself, on a field or method, in
the code or on a record component of an attribute that does. -/
inductive Holds (k : ClassFile) : Site → Attribute → Prop where
  | onClass {a : Attribute} (ha : a ∈ k.attributes) : Holds k .ofClass a
  | onField {f : Member} {a : Attribute} (hf : f ∈ k.fields) (ha : a ∈ f.attributes) :
      Holds k .ofField a
  | onMethod {m : Member} {a : Attribute} (hm : m ∈ k.methods) (ha : a ∈ m.attributes) :
      Holds k (.ofMethod m) a
  | inCode {site : Site} {outer a : Attribute} {c : Code Attribute} (houter : Holds k site outer)
      (hc : outer.code? = some c) (ha : a ∈ c.attributes) : Holds k ⟨.onCode, site.method⟩ a
  | inRecord {site : Site} {outer a : Attribute} {components : List (Component Attribute)}
      {c : Component Attribute} (houter : Holds k site outer)
      (hcomponents : outer.components? = some components) (hc : c ∈ components)
      (ha : a ∈ c.attributes) : Holds k ⟨.onComponent, site.method⟩ a

/-- The property holds of every attribute of the class, of its fields and methods, of the code
bodies of its methods, and of its record components. -/
structure Levels (k : ClassFile) (P : Site → Attribute → Prop) : Prop where
  ofClass : ∀ a ∈ k.attributes, P .ofClass a
  ofComponent : ∀ a ∈ k.attributes, ∀ components, a.components? = some components →
    ∀ c ∈ components, ∀ b ∈ c.attributes, P .ofComponent b
  ofField : ∀ f ∈ k.fields, ∀ a ∈ f.attributes, P .ofField a
  ofMethod : ∀ m ∈ k.methods, ∀ a ∈ m.attributes, P (.ofMethod m) a
  ofCode : ∀ m ∈ k.methods, ∀ a ∈ m.attributes, ∀ c, a.code? = some c →
    ∀ b ∈ c.attributes, P (.ofCode m) b

namespace Levels

variable {k : ClassFile} {P Q : Site → Attribute → Prop}

theorem mono (h : k.Levels P) (hPQ : ∀ site a, P site a → Q site a) : k.Levels Q where
  ofClass a ha := hPQ _ a (h.ofClass a ha)
  ofComponent a ha components hcomponents c hc b hb :=
    hPQ _ b (h.ofComponent a ha components hcomponents c hc b hb)
  ofField f hf a ha := hPQ _ a (h.ofField f hf a ha)
  ofMethod m hm a ha := hPQ _ a (h.ofMethod m hm a ha)
  ofCode m hm a ha c hc b hb := hPQ _ b (h.ofCode m hm a ha c hc b hb)

theorem and (hP : k.Levels P) (hQ : k.Levels Q) : k.Levels fun site a => P site a ∧ Q site a where
  ofClass a ha := ⟨hP.ofClass a ha, hQ.ofClass a ha⟩
  ofComponent a ha components hcomponents c hc b hb :=
    ⟨hP.ofComponent a ha components hcomponents c hc b hb,
      hQ.ofComponent a ha components hcomponents c hc b hb⟩
  ofField f hf a ha := ⟨hP.ofField f hf a ha, hQ.ofField f hf a ha⟩
  ofMethod m hm a ha := ⟨hP.ofMethod m hm a ha, hQ.ofMethod m hm a ha⟩
  ofCode m hm a ha c hc b hb := ⟨hP.ofCode m hm a ha c hc b hb, hQ.ofCode m hm a ha c hc b hb⟩

/-- A class with fewer attributes of its own has no new ones, whatever its pool. -/
theorem of_sublist (h : k.Levels P) {pool : Pool} {attributes : List Attribute}
    (hsub : attributes.Sublist k.attributes) : Levels { k with pool, attributes } P where
  ofClass a ha := h.ofClass a (hsub.subset ha)
  ofComponent a ha := h.ofComponent a (hsub.subset ha)
  ofField := h.ofField
  ofMethod := h.ofMethod
  ofCode := h.ofCode

/-- **A property of the sifted lists is one of every attribute at every depth**, when it keeps
code to methods and records to classes. -/
theorem holds (h : k.Levels P)
    (hcode : ∀ site a c, P site a → a.code? = some c → site.context = .onMethod)
    (hrecord : ∀ site a components, P site a → a.components? = some components →
      site.context = .onClass)
    {site : Site} {a : Attribute} (ha : k.Holds site a) : P site a := by
  induction ha with
  | onClass ha => exact h.ofClass _ ha
  | onField hf ha => exact h.ofField _ hf _ ha
  | onMethod hm ha => exact h.ofMethod _ hm _ ha
  | inCode houter hc ha ih =>
    -- the attribute around the code stands on a method, so the code is one that was sifted
    have hcontext := hcode _ _ _ ih hc
    cases houter with
    | onMethod hm houter => exact h.ofCode _ hm _ houter _ hc _ ha
    | _ => cases hcontext
  | inRecord houter hcomponents hc ha ih =>
    have hcontext := hrecord _ _ _ ih hcomponents
    cases houter with
    | onClass houter => exact h.ofComponent _ houter _ hcomponents _ hc _ ha
    | _ => cases hcontext

end Levels

/-! ## Sections -/

/-- What holds at every level holds in every section of the class. -/
theorem Levels.of_mem_sections {k : ClassFile} {P : Context → Attribute → Prop}
    (h : k.Levels fun site a => P site.context a) {context : Context}
    {attributes : List Attribute} (hmem : (context, attributes) ∈ k.sections) {a : Attribute}
    (ha : a ∈ attributes) : P context a := by
  rcases List.mem_cons.mp hmem with heq | hmem
  · -- the class itself
    obtain ⟨rfl, rfl⟩ := Prod.mk.inj heq
    exact h.ofClass a ha
  rcases List.mem_append.mp hmem with hmem | hmem
  · rcases List.mem_append.mp hmem with hmem | hmem
    · -- a field
      obtain ⟨f, hf, heq⟩ := List.mem_map.mp hmem
      obtain ⟨rfl, rfl⟩ := Prod.mk.inj heq
      exact h.ofField f hf a ha
    · -- a method or its code
      obtain ⟨m, hm, hmem⟩ := List.mem_flatMap.mp hmem
      rcases List.mem_cons.mp hmem with heq | hmem
      · obtain ⟨rfl, rfl⟩ := Prod.mk.inj heq
        exact h.ofMethod m hm a ha
      · obtain ⟨outer, houter, heq⟩ := List.mem_filterMap.mp hmem
        obtain ⟨c, hc, heq⟩ := Option.map_eq_some_iff.mp heq
        obtain ⟨rfl, rfl⟩ := Prod.mk.inj heq
        exact h.ofCode m hm outer houter c hc a ha
  · -- a record component
    obtain ⟨outer, houter, hmem⟩ := List.mem_flatMap.mp hmem
    obtain ⟨c, hc, heq⟩ := List.mem_map.mp hmem
    obtain ⟨rfl, rfl⟩ := Prod.mk.inj heq
    cases hcomponents : outer.components? with
    | none =>
      rw [hcomponents] at hc
      cases hc
    | some components =>
      rw [hcomponents] at hc
      exact h.ofComponent outer houter components hcomponents c hc a ha

/-- What holds at every level holds on every holder of the class. -/
theorem Levels.of_mem_holders {k : ClassFile} {P : Context → Attribute → Prop}
    (h : k.Levels fun site a => P site.context a) {holder : HolderRef}
    (hholder : holder ∈ k.holders) {a : Attribute} (ha : a ∈ k.attributesAt holder) :
    P holder.context a := by
  have hsection : (holder.context, k.attributesAt holder) ∈ k.sections := by
    rw [sections_eq]
    exact List.mem_map.mpr ⟨holder, hholder, rfl⟩
  exact h.of_mem_sections hsection ha

/-- What holds in every section of the class holds at every level. -/
theorem levels_of_sections {k : ClassFile} {P : Context → Attribute → Prop}
    (h : ∀ context attributes, (context, attributes) ∈ k.sections → ∀ a ∈ attributes,
      P context a) : k.Levels fun site a => P site.context a := by
  refine ⟨?_, ?_, ?_, ?_, ?_⟩
  · intro a ha
    exact h _ _ List.mem_cons_self a ha
  · intro outer houter components hcomponents c hc a ha
    refine h .onComponent c.attributes (List.mem_cons_of_mem _ (List.mem_append_right _ ?_)) a ha
    refine List.mem_flatMap.mpr ⟨outer, houter, List.mem_map.mpr ⟨c, ?_, rfl⟩⟩
    rw [hcomponents]
    exact hc
  · intro f hf a ha
    refine h .onField f.attributes (List.mem_cons_of_mem _ (List.mem_append_left _
      (List.mem_append_left _ ?_))) a ha
    exact List.mem_map.mpr ⟨f, hf, rfl⟩
  · intro m hm a ha
    refine h .onMethod m.attributes (List.mem_cons_of_mem _ (List.mem_append_left _
      (List.mem_append_right _ ?_))) a ha
    exact List.mem_flatMap.mpr ⟨m, hm, List.mem_cons_self⟩
  · intro m hm outer houter c hc a ha
    refine h .onCode c.attributes (List.mem_cons_of_mem _ (List.mem_append_left _
      (List.mem_append_right _ ?_))) a ha
    refine List.mem_flatMap.mpr ⟨m, hm, List.mem_cons_of_mem _ ?_⟩
    refine List.mem_filterMap.mpr ⟨outer, houter, ?_⟩
    rw [hc]
    rfl

end ClassFile

/-! ## Roots -/

namespace Inspector

/-- What the attributes of a class name is among the roots of the class. -/
theorem levels_roots (i : Inspector) (stage : Stage) (k : ClassFile) :
    k.Levels fun site a =>
      ∀ index ∈ i.attributeRoots stage site.context a, index ∈ i.roots stage k := by
  refine ClassFile.levels_of_sections (P := fun context a =>
    ∀ index ∈ i.attributeRoots stage context a, index ∈ i.roots stage k) ?_
  intro context attributes hsection a ha index hindex
  refine List.mem_cons_of_mem _ (List.mem_cons_of_mem _ (List.mem_append_right _ ?_))
  exact List.mem_flatMap.mpr ⟨_, hsection, List.mem_flatMap.mpr ⟨a, ha, hindex⟩⟩

/-- The roots of a class do not depend on the stage when those of its attributes do not. -/
theorem roots_congr {i : Inspector} {k : ClassFile} {stage stage' : Stage}
    (h : k.Levels fun site a =>
      i.attributeRoots stage site.context a = i.attributeRoots stage' site.context a) :
    i.roots stage k = i.roots stage' k := by
  have hsections {context : Context} {attributes : List Attribute}
      (hmem : (context, attributes) ∈ k.sections) {a : Attribute} (ha : a ∈ attributes) :
      i.attributeRoots stage context a = i.attributeRoots stage' context a :=
    ClassFile.Levels.of_mem_sections (P := fun context a =>
      i.attributeRoots stage context a = i.attributeRoots stage' context a) h hmem ha
  have hflat : (k.sections.flatMap fun p => p.2.flatMap (i.attributeRoots stage p.1))
      = k.sections.flatMap fun p => p.2.flatMap (i.attributeRoots stage' p.1) :=
    List.flatMap_congr fun p hp => List.flatMap_congr fun a ha => hsections hp ha
  show _ :: _ :: (_ ++ _ ++ k.sections.flatMap fun p => p.2.flatMap (i.attributeRoots stage p.1))
    = _ :: _ :: (_ ++ _ ++ k.sections.flatMap fun p => p.2.flatMap (i.attributeRoots stage' p.1))
  rw [hflat]

end Inspector

end ClassPrune
