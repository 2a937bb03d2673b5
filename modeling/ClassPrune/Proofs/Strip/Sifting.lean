import ClassPrune.Proofs.Class.Faithful
import ClassPrune.Proofs.Strip.Clean

/-!
# What sifting leaves

In a class whose attributes are what their payloads decode to, sifting leaves attributes that are
cleared, at every level, and that come back from the payloads they are written as.

- `Inspector.clears_standardize`: a favourable verdict clears an attribute, once its code is in
  standard form.
- `Inspector.keep_eq_filter`: away from methods a list keeps attributes and does not change them,
  for a favourable verdict leaves no code there.
- `Inspector.siftClass_clears`, `Inspector.siftClass_faithful`, `Inspector.siftClass_writable`:
  what this makes of a class.
-/

namespace ClassPrune

namespace Inspector

variable {i : Inspector} {site : Site} {a : Attribute}

/-! ## One attribute -/

/-- Code in standard form is called after its body still. -/
theorem named_standardize (h : a.Decoded i.pool) (d : Decoder) {body : Body Attribute}
    (hbody : (a.standardize d).body = some body) :
    (a.standardize d).kind? i.pool = some body.kind := by
  rw [Attribute.standardize] at hbody ⊢
  cases hc : a.code? with
  | none =>
    rw [Attribute.mapCode_of_none hc] at hbody ⊢
    exact h.kind?_of_body hbody
  | some c =>
    rw [Attribute.mapCode_of_some hc] at hbody ⊢
    obtain rfl := Option.some.inj hbody
    have hkind := h.kind?_of_body (Attribute.body_of_code? hc)
    exact hkind

/-- **A favourable verdict clears an attribute** whose code was put in standard form before. -/
theorem clears_standardize (h : a.Decoded i.pool)
    (hverdict : i.verdict? site (a.standardize i.decoder) = none) :
    i.Clears site (a.standardize i.decoder) := by
  refine ⟨hverdict, fun body hbody => named_standardize h _ hbody, fun c hc => ?_⟩
  have hkind := named_standardize h _ (Attribute.body_of_code? hc)
  obtain ⟨insns, hdecode, -⟩ := exists_decode_of_verdict hverdict hkind hc
  rw [Attribute.standardize, Attribute.code?_mapCode] at hc
  obtain ⟨c, -, rfl⟩ := Option.map_eq_some_iff.mp hc
  exact ⟨insns, Decoder.standard_of_decode_standardize hdecode⟩

/-- Away from methods a favourable verdict leaves no code. -/
theorem code?_eq_none (h : a.Decoded i.pool) (hverdict : i.verdict? site a = none)
    (hcontext : site.context ≠ .onMethod) : a.code? = none := by
  cases hc : a.code? with
  | none => rfl
  | some c =>
    have hkind := h.kind?_of_body (Attribute.body_of_code? hc)
    have hpermitted := ((verdict?_eq_none_iff.mp hverdict).2 _ hkind).1
    cases hsite : site.context with
    | onMethod => exact absurd hsite hcontext
    | _ =>
      rw [hsite] at hpermitted
      cases hpermitted

theorem settle_of_none (hc : a.code? = none) : i.settle site a = a := by
  rw [settle]
  split
  · exact Attribute.mapCode_of_none hc _
  · rfl

/-- On a method a verdict finds the code in standard form already. -/
theorem settle_onMethod (hcontext : site.context = .onMethod) : i.settle site a = a := by
  rw [settle, readsLate, hcontext]
  rfl

/-- On other holders a favourable verdict clears an attribute as it is, for it leaves no code there.
-/
theorem clears_of_verdict (h : a.Decoded i.pool) (hverdict : i.verdict? site a = none)
    (hcontext : site.context ≠ .onMethod) : i.Clears site a := by
  have hnone := code?_eq_none h hverdict hcontext
  have hstandard : a.standardize i.decoder = a := Attribute.mapCode_of_none hnone _
  rw [← hstandard] at hverdict ⊢
  exact clears_standardize h hverdict

/-! ## One list -/

theorem length_keep_le (i : Inspector) (site : Site) (attributes : List Attribute) :
    (i.keep site attributes).length ≤ attributes.length := by
  rw [keep, List.length_map]
  exact List.length_filter_le _ _

section NotOnMethods

variable {attributes : List Attribute} (h : ∀ a ∈ attributes, a.Decoded i.pool)
  (hcontext : site.context ≠ .onMethod)

include h hcontext

/-- Away from methods nothing that stays is changed. -/
theorem keep_eq_filter : i.keep site attributes
    = attributes.filter fun a => (i.verdict? site a).isNone := by
  refine map_eq_self_of_mem fun a ha => ?_
  obtain ⟨hmem, hverdict⟩ := List.mem_filter.mp ha
  exact settle_of_none (code?_eq_none (h a hmem) (Option.isNone_iff_eq_none.mp hverdict) hcontext)

/-- What is kept stands in the order in which it stood. -/
theorem keep_sublist : (i.keep site attributes).Sublist attributes := by
  rw [keep_eq_filter h hcontext]
  exact List.filter_sublist

theorem clears_of_mem_keep (ha : a ∈ i.keep site attributes) : i.Clears site a := by
  rw [keep_eq_filter h hcontext] at ha
  obtain ⟨hmem, hverdict⟩ := List.mem_filter.mp ha
  exact clears_of_verdict (h a hmem) (Option.isNone_iff_eq_none.mp hverdict) hcontext

end NotOnMethods

/-! ## Methods -/

section Methods

variable {m : Member}

/-- The method with the code of its attributes in standard form. -/
def standardMethod (d : Decoder) (m : Member) : Member :=
  { m with attributes := m.attributes.map (Attribute.standardize d) }

/-- The code of a method after its instructions were put in standard form and its attributes
sifted. -/
def siftedCode (i : Inspector) (m : Member) (c : Code Attribute) : Code Attribute :=
  { c with
    code := (i.decoder.standardize c.code).code
    attributes := i.keep (.ofCode (standardMethod i.decoder m)) c.attributes }

/-- What stays of a method are attributes with a favourable verdict, their code sifted. -/
theorem exists_of_mem_siftMethod
    (ha : a ∈ (i.siftMethod (standardMethod i.decoder m)).attributes) :
    ∃ b ∈ m.attributes,
      i.verdict? (.ofMethod (standardMethod i.decoder m)) (b.standardize i.decoder) = none ∧
        a = b.mapCode (i.siftedCode m) := by
  obtain ⟨settled, hsettled, rfl⟩ := List.mem_map.mp ha
  obtain ⟨standard, hstandard, rfl⟩ := List.mem_map.mp hsettled
  obtain ⟨hmem, hverdict⟩ := List.mem_filter.mp hstandard
  obtain ⟨b, hb, rfl⟩ := List.mem_map.mp hmem
  refine ⟨b, hb, Option.isNone_iff_eq_none.mp hverdict, ?_⟩
  -- standard form first and sifting afterwards are one edit of the code
  rw [settle_onMethod rfl, Attribute.standardize, Attribute.mapCode_mapCode]
  rfl

/-- A verdict cannot tell a method from the sifted one. -/
theorem alike_siftMethod (i : Inspector) (context : Context) (m : Member) :
    (⟨context, some m⟩ : Site).Alike ⟨context, some (i.siftMethod m)⟩ := ⟨rfl, rfl⟩

/-- Code that was sifted comes back from the payload that it is written as. -/
theorem faithful_siftedCode (h : a.Decoded i.pool) (m : Member) :
    (a.mapCode (i.siftedCode m)).Faithful i.pool := by
  refine Attribute.faithful_mapCode h fun c hc => ⟨rfl, rfl, rfl, ?_, ?_⟩
  · exact Decoder.length_standardize i.decoder c.code
  · exact keep_sublist (h.of_mem_code hc) fun hcontext => nomatch hcontext

variable (h : ∀ a ∈ m.attributes, a.Decoded i.pool)

include h

/-- What is left on a method is cleared, -/
theorem clears_of_mem_siftMethod
    (ha : a ∈ (i.siftMethod (standardMethod i.decoder m)).attributes) :
    i.Clears (.ofMethod (i.siftMethod (standardMethod i.decoder m))) a := by
  obtain ⟨b, hb, hverdict, rfl⟩ := exists_of_mem_siftMethod ha
  have hclears := clears_standardize (h b hb) hverdict
  have hsurface : (b.mapCode (i.siftedCode m)).surface = (b.standardize i.decoder).surface := by
    have hedit := Attribute.surface_mapCode (b.standardize i.decoder)
      (f := fun c => { c with
        attributes := i.keep (.ofCode (standardMethod i.decoder m)) c.attributes }) fun _ => rfl
    rw [Attribute.standardize, Attribute.mapCode_mapCode] at hedit
    exact hedit
  exact hclears.congr (Pool.Agree.refl _) (alike_siftMethod i .onMethod _) hsurface
    (spares_nil i _ _)

/-- and so is what is left in its code. -/
theorem clears_of_mem_siftedCode
    (ha : a ∈ (i.siftMethod (standardMethod i.decoder m)).attributes) {c : Code Attribute}
    (hc : a.code? = some c) {b : Attribute} (hb : b ∈ c.attributes) :
    i.Clears (.ofCode (i.siftMethod (standardMethod i.decoder m))) b := by
  obtain ⟨outer, houter, -, rfl⟩ := exists_of_mem_siftMethod ha
  rw [Attribute.code?_mapCode] at hc
  obtain ⟨old, hold, rfl⟩ := Option.map_eq_some_iff.mp hc
  -- the verdict was taken for the method before its attributes were sifted
  have hcontext : (Site.ofCode (standardMethod i.decoder m)).context ≠ .onMethod :=
    fun hcontext => nomatch hcontext
  have hclears := clears_of_mem_keep ((h outer houter).of_mem_code hold) hcontext hb
  exact hclears.congr (Pool.Agree.refl _) (alike_siftMethod i .onCode _) rfl (spares_nil i _ _)

/-- Whatever is left comes back from the payload that it is written as. -/
theorem faithful_of_mem_siftMethod
    (ha : a ∈ (i.siftMethod (standardMethod i.decoder m)).attributes) : a.Faithful i.pool := by
  obtain ⟨b, hb, -, rfl⟩ := exists_of_mem_siftMethod ha
  exact faithful_siftedCode (h b hb) m

end Methods

/-! ## Record components -/

section Components

/-- An attribute of the class as sifting leaves it. -/
def settledOnClass (i : Inspector) (a : Attribute) : Attribute :=
  a.mapComponents fun components =>
    components.map fun c => { c with attributes := i.keep .ofComponent c.attributes }

theorem components?_settledOnClass (i : Inspector) (a : Attribute) :
    (i.settledOnClass a).components? = a.components?.map fun components =>
      components.map fun c => { c with attributes := i.keep .ofComponent c.attributes } :=
  Attribute.components?_mapComponents a _

/-- A record that was sifted comes back from the payload that it is written as. -/
theorem faithful_settledOnClass (h : a.Decoded i.pool) : (i.settledOnClass a).Faithful i.pool := by
  refine Attribute.faithful_mapComponents h fun components hcomponents c hc => ?_
  exact keep_sublist (h.of_mem_component hcomponents hc) fun hcontext => nomatch hcontext

variable {attributes : List Attribute} (h : ∀ a ∈ attributes, a.Decoded i.pool)

include h

/-- What stays of the attributes of a class are cleared attributes, their components sifted. -/
theorem exists_of_mem_siftClassAttributes (ha : a ∈ i.siftClassAttributes attributes) :
    ∃ b ∈ attributes, i.Clears .ofClass b ∧ a = i.settledOnClass b := by
  obtain ⟨b, hb, rfl⟩ := List.mem_map.mp ha
  have hcontext : Site.ofClass.context ≠ .onMethod := by decide
  exact ⟨b, (keep_sublist h hcontext).subset hb, clears_of_mem_keep h hcontext hb, rfl⟩

theorem clears_of_mem_siftClassAttributes (ha : a ∈ i.siftClassAttributes attributes) :
    i.Clears .ofClass a := by
  obtain ⟨b, -, hclears, rfl⟩ := exists_of_mem_siftClassAttributes h ha
  exact hclears.congr (Pool.Agree.refl _) (.refl _) (Attribute.surface_mapComponents b _)
    (spares_nil i _ _)

/-- What is left on a record component is cleared. -/
theorem clears_of_mem_siftedComponents (ha : a ∈ i.siftClassAttributes attributes)
    {components : List (Component Attribute)} (hcomponents : a.components? = some components)
    {c : Component Attribute} (hc : c ∈ components) {b : Attribute} (hb : b ∈ c.attributes) :
    i.Clears .ofComponent b := by
  obtain ⟨outer, houter, -, rfl⟩ := exists_of_mem_siftClassAttributes h ha
  rw [components?_settledOnClass] at hcomponents
  obtain ⟨old, hold, rfl⟩ := Option.map_eq_some_iff.mp hcomponents
  obtain ⟨oldComponent, hmem, rfl⟩ := List.mem_map.mp hc
  exact clears_of_mem_keep ((h outer houter).of_mem_component hold hmem)
    (fun hcontext => nomatch hcontext) hb

theorem faithful_of_mem_siftClassAttributes (ha : a ∈ i.siftClassAttributes attributes) :
    a.Faithful i.pool := by
  obtain ⟨b, hb, -, rfl⟩ := exists_of_mem_siftClassAttributes h ha
  exact faithful_settledOnClass (h b hb)

end Components

/-! ## Classes -/

section Classes

variable {k : ClassFile} (h : k.Decoded) (hpool : i.pool = k.pool)

include h hpool

/-- **After sifting every attribute in the lists of the class is cleared.** -/
theorem siftClass_clears : (i.siftClass (k.standardize i.decoder)).Levels i.Clears := by
  obtain ⟨hfields, hmethods, hattributes⟩ := h
  simp only [Member.Decoded, ← hpool] at hfields hmethods hattributes
  refine ⟨?_, ?_, ?_, ?_, ?_⟩
  · intro a ha
    exact clears_of_mem_siftClassAttributes hattributes ha
  · intro a ha components hcomponents c hc b hb
    exact clears_of_mem_siftedComponents hattributes ha hcomponents hc hb
  · intro f' hf' a ha
    obtain ⟨f, hf, rfl⟩ := List.mem_map.mp hf'
    exact clears_of_mem_keep (hfields f hf) (fun hcontext => nomatch hcontext) ha
  · intro m' hm' a ha
    obtain ⟨standard, hstandard, rfl⟩ := List.mem_map.mp hm'
    obtain ⟨m, hm, rfl⟩ := List.mem_map.mp hstandard
    exact clears_of_mem_siftMethod (hmethods m hm) ha
  · intro m' hm' a ha c hc b hb
    obtain ⟨standard, hstandard, rfl⟩ := List.mem_map.mp hm'
    obtain ⟨m, hm, rfl⟩ := List.mem_map.mp hstandard
    exact clears_of_mem_siftedCode (hmethods m hm) ha hc hb

/-- **After sifting every attribute comes back from the payload that it is written as.** -/
theorem siftClass_faithful : (i.siftClass (k.standardize i.decoder)).Faithful := by
  obtain ⟨hfields, hmethods, hattributes⟩ := h
  simp only [Member.Decoded, ← hpool] at hfields hmethods hattributes
  have hsame : (i.siftClass (k.standardize i.decoder)).pool = i.pool := hpool.symm
  refine ⟨?_, ?_, ?_⟩
  · intro f' hf' a ha
    obtain ⟨f, hf, rfl⟩ := List.mem_map.mp hf'
    have hcontext : Site.ofField.context ≠ .onMethod := by decide
    have hmem := (keep_sublist (hfields f hf) hcontext).subset ha
    rw [hsame]
    exact (hfields f hf a hmem).faithful
  · intro m' hm' a ha
    obtain ⟨standard, hstandard, rfl⟩ := List.mem_map.mp hm'
    obtain ⟨m, hm, rfl⟩ := List.mem_map.mp hstandard
    rw [hsame]
    exact faithful_of_mem_siftMethod (hmethods m hm) ha
  · intro a ha
    rw [hsame]
    exact faithful_of_mem_siftClassAttributes hattributes ha

/-- Sifting only takes away, so the class can still be written. -/
theorem siftClass_writable (hwritable : k.Writable) :
    (i.siftClass (k.standardize i.decoder)).Writable := by
  obtain ⟨hfields, hmethods, hattributes⟩ := siftClass_faithful h hpool
  refine ⟨hwritable.wellFormed, hwritable.storable, hwritable.interfaces_le, ⟨?_, ?_⟩, ⟨?_, ?_⟩,
    ⟨?_, ?_⟩⟩
  · show (k.fields.map i.siftField).length ≤ 0xFFFF
    rw [List.length_map]
    exact hwritable.fields.length_le
  · intro f' hf'
    refine ⟨?_, fun a ha => (hfields f' hf' a ha).writable⟩
    obtain ⟨f, hf, rfl⟩ := List.mem_map.mp hf'
    exact Nat.le_trans (length_keep_le i _ _) (hwritable.fields.attributes f hf).length_le
  · show ((k.methods.map (standardMethod i.decoder)).map i.siftMethod).length ≤ 0xFFFF
    rw [List.length_map, List.length_map]
    exact hwritable.methods.length_le
  · intro m' hm'
    refine ⟨?_, fun a ha => (hmethods m' hm' a ha).writable⟩
    obtain ⟨standard, hstandard, rfl⟩ := List.mem_map.mp hm'
    obtain ⟨m, hm, rfl⟩ := List.mem_map.mp hstandard
    have hle := length_keep_le i (.ofMethod (standardMethod i.decoder m))
      (m.attributes.map (Attribute.standardize i.decoder))
    rw [List.length_map] at hle
    show (List.map _ (i.keep _ _)).length ≤ 0xFFFF
    rw [List.length_map]
    exact Nat.le_trans hle (hwritable.methods.attributes m hm).length_le
  · show (List.map _ (i.keep _ _)).length ≤ 0xFFFF
    rw [List.length_map]
    exact Nat.le_trans (length_keep_le i _ _) hwritable.attributes.length_le
  · exact fun a ha => (hattributes a ha).writable

end Classes

end Inspector

end ClassPrune
