import ClassPrune.Proofs.Class.Size
import ClassPrune.Proofs.Strip.Frame

/-!
# What stripping takes away

The bytes of a class before stripping are those after it and those of the attributes that are gone.
Nothing else counts: instructions keep their length in standard form, and the number zero takes as
many bytes as the constants that it replaces.

- `Inspector.size_siftedCode`, `Inspector.size_settledOnClass`: what an attribute that stays loses
  is what is lost on the holders in it.
- `Inspector.lost`: the bytes of the attributes that are gone from the surviving holders.
- `ClassFile.length_strip`: the input is as long as the output and what is lost.

The sum is taken where attributes are written, from the inside to the outside: what is lost in a
code body is missing from the attribute around it as well, and it is counted once, at the body.
-/

namespace ClassPrune

open Attribute (rowsSize lostSize componentSize)

/-! ## Sums -/

theorem sum_flatMap {α : Type} (l : List α) (f : α → List Nat) :
    (l.flatMap f).sum = (l.map fun a => (f a).sum).sum := by
  induction l with
  | nil => rfl
  | cons a l ih => rw [List.flatMap_cons, List.sum_append, ih, List.map_cons, List.sum_cons]

theorem sum_filterMap {α : Type} (l : List α) (f : α → Option Nat) :
    (l.filterMap f).sum = (l.map fun a => (f a).getD 0).sum := by
  induction l with
  | nil => rfl
  | cons a l ih =>
    rw [List.filterMap_cons, List.map_cons, List.sum_cons, ← ih]
    cases f a <;> simp

/-- What an edit takes from each of several parts is missing in the size of all. -/
theorem sum_size_edit {α : Type} {parts : List α} {size lost : α → Nat} {edit : α → α}
    (h : ∀ a ∈ parts, size a = size (edit a) + lost a) :
    (parts.map size).sum = ((parts.map edit).map size).sum + (parts.map lost).sum := by
  rw [List.map_congr_left h, List.sum_map_add, List.map_map]
  rfl

namespace Inspector

variable {i : Inspector} {k : ClassFile} {a : Attribute}

/-! ## Lists -/

/-- The number of bytes that a list loses when it is sifted. -/
def lostIn (i : Inspector) (site : Site) (attributes : List Attribute) : Nat :=
  lostSize (fun a => (i.verdict? site a).isNone) attributes

/-- Away from methods a list loses the attributes with an unfavourable verdict and nothing else. -/
theorem rowsSize_keep {site : Site} {attributes : List Attribute}
    (h : ∀ a ∈ attributes, a.Decoded i.pool) (hcontext : site.context ≠ .onMethod) :
    rowsSize attributes = rowsSize (i.keep site attributes) + i.lostIn site attributes := by
  rw [keep_eq_filter h hcontext]
  exact Attribute.rowsSize_eq_add_lostSize _ attributes

/-- The number of bytes that the code of a method loses. -/
def lostInCode (i : Inspector) (m : Member) (c : Code Attribute) : Nat :=
  i.lostIn (.ofCode (standardMethod i.decoder m)) c.attributes

/-- The number of bytes that a record component loses. -/
def lostInComponent (i : Inspector) (c : Component Attribute) : Nat :=
  i.lostIn .ofComponent c.attributes

/-- **Code loses what is lost below it.** -/
theorem size_siftedCode (h : a.Decoded i.pool) (m : Member) :
    a.size = (a.mapCode (i.siftedCode m)).size + (a.code?.map (i.lostInCode m)).getD 0 := by
  cases hc : a.code? with
  | none =>
    rw [Attribute.mapCode_of_none hc]
    rfl
  | some c =>
    have hsifted : (a.mapCode (i.siftedCode m)).code? = some (i.siftedCode m c) := by
      rw [Attribute.code?_mapCode, hc]
      rfl
    have hlost : rowsSize c.attributes
        = rowsSize (i.siftedCode m c).attributes + i.lostInCode m c :=
      rowsSize_keep (h.of_mem_code hc) fun hcontext => nomatch hcontext
    -- around what is nested nothing changes its length
    have hcode : (i.siftedCode m c).code.length = c.code.length :=
      Decoder.length_standardize i.decoder c.code
    have hhandlers : (i.siftedCode m c).handlers = c.handlers := rfl
    rw [Attribute.size_of_code h.writable hc,
      Attribute.size_of_code (faithful_siftedCode h m).writable hsifted, hcode, hhandlers, hlost]
    simp only [Option.map_some, Option.getD_some]
    omega

/-- **A record loses what is lost on its components.** -/
theorem size_settledOnClass (h : a.Decoded i.pool) :
    a.size = (i.settledOnClass a).size
      + ((a.components?.getD []).map i.lostInComponent).sum := by
  cases hc : a.components? with
  | none =>
    rw [settledOnClass, Attribute.mapComponents_of_none hc]
    rfl
  | some components =>
    have hsettled := components?_settledOnClass i a
    rw [hc, Option.map_some] at hsettled
    have hlost : ∀ c ∈ components, componentSize c
        = componentSize { c with attributes := i.keep .ofComponent c.attributes }
          + i.lostInComponent c := by
      intro c hmem
      have hkeep : rowsSize c.attributes
          = rowsSize (i.keep .ofComponent c.attributes) + i.lostInComponent c :=
        rowsSize_keep (h.of_mem_component hc hmem) fun hcontext => by cases hcontext
      rw [componentSize, componentSize, hkeep, Nat.add_assoc]
    rw [Attribute.size_of_components h.writable hc,
      Attribute.size_of_components (faithful_settledOnClass h).writable hsettled,
      sum_size_edit hlost, Nat.add_assoc]
    rfl

/-! ## Members -/

theorem size_siftField {f : Member} (h : f.Decoded i.pool) :
    f.size = (i.siftField f).size + i.lostIn .ofField f.attributes := by
  have hkeep : rowsSize f.attributes
      = rowsSize (i.siftField f).attributes + i.lostIn .ofField f.attributes :=
    rowsSize_keep h fun hcontext => nomatch hcontext
  rw [Member.size, Member.size, hkeep, Nat.add_assoc]

/-- A method loses attributes of its own, and what is lost in the code that stays. -/
theorem size_siftMethod {m : Member} (h : m.Decoded i.pool) :
    m.size = (i.siftMethod (standardMethod i.decoder m)).size
      + (lostSize (i.staysOnMethod m) m.attributes
        + ((m.attributes.filter (i.staysOnMethod m)).filterMap fun a =>
            a.code?.map (i.lostInCode m)).sum) := by
  have hown := Attribute.rowsSize_eq_add_lostSize (i.staysOnMethod m) m.attributes
  have hcode : rowsSize (m.attributes.filter (i.staysOnMethod m))
      = rowsSize ((m.attributes.filter (i.staysOnMethod m)).map fun a =>
          a.mapCode (i.siftedCode m))
        + ((m.attributes.filter (i.staysOnMethod m)).map fun a =>
            (a.code?.map (i.lostInCode m)).getD 0).sum :=
    sum_size_edit fun a ha => size_siftedCode (h a (List.mem_filter.mp ha).1) m
  rw [Member.size, Member.size, attributes_siftMethod, sum_filterMap]
  omega

/-! ## Holders -/

/-- The number of bytes of the attributes that are gone from a holder. What is nested in an
attribute counts with the attribute. -/
def lostAt (i : Inspector) (k : ClassFile) (removed : Bool) (h : HolderRef) : Nat :=
  lostSize (i.remains k removed h) (k.attributesAt h)

/-- The number of bytes of the attributes that are gone from the surviving holders of a class. -/
def lost (i : Inspector) (k : ClassFile) (removed : Bool) : Nat :=
  ((i.survivors k).map (i.lostAt k removed)).sum

/-- Nothing is lost when every attribute of the surviving holders remains. -/
theorem lost_eq_zero_iff {removed : Bool} : i.lost k removed = 0 ↔
    ∀ h ∈ i.survivors k, ∀ a ∈ k.attributesAt h, i.remains k removed h a = true := by
  refine total_eq_zero_iff.trans ?_
  rw [List.forall_mem_map]
  exact forall₂_congr fun h _ => Attribute.lostSize_eq_zero_iff

/-- Away from the class only verdicts take attributes away. -/
theorem lostAt_eq {h : HolderRef} {stays : Attribute → Bool} {attributes : List Attribute}
    (removed : Bool) (hne : h ≠ .onClass) (hlist : k.attributesAt h = attributes)
    (hstays : ∀ a, (i.judge k h a).isNone = stays a) :
    i.lostAt k removed h = lostSize stays attributes := by
  have hremains : i.remains k removed h = stays := by
    funext a
    rw [remains_of_ne hne, hstays]
  rw [lostAt, hremains, hlist]

/-- What is lost on the survivors, in the order of a class. -/
theorem lost_eq (i : Inspector) (k : ClassFile) (removed : Bool) :
    i.lost k removed = i.lostAt k removed .onClass
      + (k.fields.map fun f => i.lostIn .ofField f.attributes).sum
      + (k.methods.map fun m => lostSize (i.staysOnMethod m) m.attributes
          + ((m.attributes.filter (i.staysOnMethod m)).filterMap fun a =>
              a.code?.map (i.lostInCode m)).sum).sum
      + ((k.attributes.filter i.staysOnClass).flatMap fun a =>
          (a.components?.getD []).map i.lostInComponent).sum := by
  have hwalk : (i.survivors k).map (i.lostAt k removed) = i.lostAt k removed .onClass ::
      (k.fields.map (fun f => i.lostIn .ofField f.attributes)
        ++ k.methods.flatMap (fun m => lostSize (i.staysOnMethod m) m.attributes ::
            (m.attributes.filter (i.staysOnMethod m)).filterMap fun a =>
              a.code?.map (i.lostInCode m))
        ++ (k.attributes.filter i.staysOnClass).flatMap fun a =>
            (a.components?.getD []).map i.lostInComponent) := by
    refine map_survivors ?_ ?_ ?_ ?_
    · intro f n hf
      exact lostAt_eq removed (by simp) (ClassFile.attributesAt_field hf) fun _ => rfl
    · intro m n hm
      exact lostAt_eq removed (by simp) (ClassFile.attributesAt_method hm) fun a =>
        isNone_judge_method hm a
    · intro m n hm a j ha c hc
      refine lostAt_eq removed (by simp) (ClassFile.attributesAt_code hm ha hc) fun b => ?_
      rw [judge, siteAt_code hm]
      rfl
    · intro a n ha components hcomponents c j hc
      exact lostAt_eq removed (by simp) (ClassFile.attributesAt_component ha hcomponents hc)
        fun _ => rfl
  rw [lost, hwalk]
  simp only [List.sum_cons, List.sum_append, sum_flatMap (l := k.methods), Nat.add_assoc]

/-- On the class itself what is lost is gone from the list, or from the components of a record. -/
theorem rowsSize_leftAt_onClass (hk : k.Decoded) (hpool : i.pool = k.pool) (removed : Bool) :
    rowsSize k.attributes = rowsSize (i.leftAt k removed .onClass) + (i.lostAt k removed .onClass
      + ((k.attributes.filter i.staysOnClass).flatMap fun a =>
          (a.components?.getD []).map i.lostInComponent).sum) := by
  have hown := Attribute.rowsSize_eq_add_lostSize (i.remains k removed .onClass) k.attributes
  have hrecord : rowsSize (k.attributes.filter (i.remains k removed .onClass))
      = rowsSize (i.leftAt k removed .onClass)
        + ((k.attributes.filter (i.remains k removed .onClass)).map fun a =>
            ((a.components?.getD []).map i.lostInComponent).sum).sum :=
    sum_size_edit fun a ha => size_settledOnClass (by
      rw [hpool]
      exact hk.attributes a (List.mem_filter.mp ha).1)
  have hlost : i.lostAt k removed .onClass
      = lostSize (i.remains k removed .onClass) k.attributes := rfl
  rw [← ClassFile.flatMap_components_remains hk removed, sum_flatMap, hlost]
  omega

end Inspector

namespace ClassFile

variable {profile : Profile} {k : ClassFile}

/-! ## Classes -/

/-- **Apart from its pool a class loses what is lost on the surviving holders.** -/
theorem bodySize_strip (hwritable : k.Writable) (hdecoded : k.Decoded) (profile : Profile) :
    k.bodySize = (k.strip profile).1.bodySize + (Inspector.ofPool profile k.pool).lost k
      (k.strip profile).2.bootstrapMethodsRemoved := by
  let i := Inspector.ofPool profile k.pool
  have hinterfaces : (k.strip profile).1.interfaces = k.interfaces := by
    rcases strip_cases profile k with h | h <;> rw [h] <;> rfl
  have hfields : (k.fields.map Member.size).sum
      = ((k.strip profile).1.fields.map Member.size).sum
        + (k.fields.map fun f => i.lostIn .ofField f.attributes).sum := by
    rw [fields_strip]
    exact sum_size_edit fun f hf => Inspector.size_siftField (i := i) (hdecoded.fields f hf)
  have hmethods : (k.methods.map Member.size).sum
      = ((k.strip profile).1.methods.map Member.size).sum
        + (k.methods.map fun m => lostSize (i.staysOnMethod m) m.attributes
            + ((m.attributes.filter (i.staysOnMethod m)).filterMap fun a =>
                a.code?.map (i.lostInCode m)).sum).sum := by
    have hsifted : (k.strip profile).1.methods
        = k.methods.map fun m => i.siftMethod (Inspector.standardMethod i.decoder m) := by
      rw [methods_strip]
      exact List.map_map
    rw [hsifted]
    exact sum_size_edit fun m hm => Inspector.size_siftMethod (i := i) (hdecoded.methods m hm)
  have hattributes := Inspector.rowsSize_leftAt_onClass (i := i) hdecoded rfl
    (k.strip profile).2.bootstrapMethodsRemoved
  have hleft : (k.strip profile).1.attributes
      = i.leftAt k (k.strip profile).2.bootstrapMethodsRemoved .onClass :=
    attributes_strip_eq_leftAt hwritable hdecoded profile
  have hlost := Inspector.lost_eq i k (k.strip profile).2.bootstrapMethodsRemoved
  rw [bodySize, bodySize, hinterfaces, hleft, hlost]
  omega

/-- **The input is as long as the output and what is lost.** -/
theorem length_strip {data written : Bytes} (h : parse data = .ok k)
    (hwritten : (k.strip profile).1.encode = .ok written) :
    data.length = written.length + (Inspector.ofPool profile k.pool).lost k
      (k.strip profile).2.bootstrapMethodsRemoved := by
  obtain ⟨hencode, hwritable, hdecoded⟩ := parse_sound h
  obtain ⟨pool, hpool, hlen⟩ := length_encode hencode
  obtain ⟨pool', hpool', hlen'⟩ := length_encode hwritten
  have hwell := hwritable.wellFormed
  have hsame : pool'.length = pool.length := by
    rw [pool_strip] at hpool'
    exact (fill_disused hwell profile).length_encode hwell hwritable.storable
      (fun index hmem => Pool.exists_computed_of_mem_disused hwell hmem) hpool hpool'
  have hbody := bodySize_strip hwritable hdecoded profile
  omega

end ClassFile

end ClassPrune
