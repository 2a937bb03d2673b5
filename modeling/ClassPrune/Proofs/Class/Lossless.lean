import ClassPrune.Proofs.Class.RoundTrip
import ClassPrune.Proofs.Pool.Writing

/-!
# Writing loses nothing

A class in memory may have been edited in any way: members gone, constants added or pointed
elsewhere, bodies changed, names out of the pool. None of the bytes that it was read from can be
relied on. Still, whatever can be written is read back with the same contents.

- `Pool.Coherent`: what the operations on a pool maintain. A coherent pool that can be written is
  well formed and storable (`Pool.Coherent.of_encode`), since the writer has the limits of the
  reader.
- `Attribute.tabular_of_encodeTable`, `Member.tabular_of_encodeTable`: a table that can be written
  keeps within the limits of readers, up to the lengths of its payloads.
- `ClassFile.writable_of_encode`: so a class that can be written is `Writable`.
- `ClassFile.SameContents`: what is the same afterwards.
-/

namespace ClassPrune

/-! ## Pools -/

namespace Pool

/-- Slots and constants agree about who stands where, and every method handle is of one of the
nine kinds. How many slots there are and how long the texts are is left open. -/
structure Coherent (p : Pool) : Prop where
  layout : p.LaidOut p.slots.toList
  /-- The constant in a slot claims that slot. -/
  claims : ∀ {index : PoolIndex} {id : EntryId}, p.find? index = some id →
    (p.cell id).index = index
  /-- Every reference is bound to the constant in the slot of the index that it claims. -/
  bound : ∀ {index : PoolIndex} {id : EntryId}, p.find? index = some id →
    ∀ {t : Target} {r : Option EntryId}, (t, r) ∈ (p.cell id).entry.links → p.Bound t r
  handles : ∀ {index : PoolIndex} {id : EntryId}, p.find? index = some id →
    ∀ {kind : UInt8} {r : Option EntryId}, (p.cell id).entry = .methodHandle kind r →
      1 ≤ kind.toNat ∧ kind.toNat ≤ 9

/-- A pool without constants is coherent. -/
theorem Coherent.empty : Pool.empty.Coherent := by
  have hnone (index : PoolIndex) : Pool.empty.find? index = none := by
    rw [find?]
    split <;> rfl
  refine ⟨.nil, ?_, ?_, ?_⟩ <;> intro index id hfind <;> rw [hnone] at hfind <;> cases hfind

/-- A pool that was read is coherent. -/
theorem WellFormed.coherent {p : Pool} (h : p.WellFormed) (hstorable : p.Storable) :
    p.Coherent := by
  refine ⟨h.layout, h.claims, h.bound, fun {index id} hfind {kind r} hentry => ?_⟩
  have hstored := hstorable hfind
  rw [hentry] at hstored
  exact hstored

/-- **A coherent pool that can be written is well formed and storable.** -/
theorem Coherent.of_encode {p : Pool} (h : p.Coherent) {bytes : Bytes}
    (hencode : p.encode = .ok bytes) : p.WellFormed ∧ p.Storable := by
  have hsize : p.size ≤ 0xFFFF := by
    have hlimit := (ite_error_eq_ok.mp hencode).1
    omega
  obtain ⟨hready, -⟩ := (encode_eq_ok_iff hsize).mp hencode
  refine ⟨⟨hsize, h.layout, h.claims, h.bound⟩, fun {index id} hfind => ?_⟩
  cases hentry : (p.cell id).entry with
  | utf8 raw => exact (hready index id hfind).fits raw hentry
  | methodHandle kind r => exact h.handles hfind hentry
  | _ => trivial

end Pool

/-! ## Attributes and members -/

namespace Attribute

/-- A reader accepts the payload that the attribute is written as, if it can be written. -/
def PayloadFits (a : Attribute) : Prop := ∀ info, a.payload = .ok info → info.length ≤ 0x7FFFFFFF

theorem Writable.payloadFits {a : Attribute} (h : a.Writable) : a.PayloadFits := by
  obtain ⟨info, hinfo, hle⟩ := h
  intro info' hinfo'
  rw [hinfo] at hinfo'
  obtain rfl := Except.ok.inj hinfo'
  exact hle

/-- A table that can be written has as many rows as its count can say, and each row can be written.
-/
theorem tabular_of_encodeTable {attributes : List Attribute} {bytes : Bytes}
    (h : encodeTable attributes = .ok bytes) (hfits : ∀ a ∈ attributes, a.PayloadFits) :
    Tabular attributes := by
  obtain ⟨hlen, rows, hrows, -, -⟩ := encodeTable_eq_ok.mp h
  refine ⟨hlen, fun a ha => ?_⟩
  obtain ⟨row, -, -, hinfo⟩ := exists_of_forall₂_left hrows ha
  exact ⟨row.info, hinfo, hfits a ha _ hinfo⟩

/-- The attributes have the same name index and are written as the same payload. -/
structure SamePayload (a a' : Attribute) : Prop where
  nameIndex_eq : a'.nameIndex = a.nameIndex
  payload_eq : a'.payload = a.payload

/-- An attribute is read back under the same name and with the same payload, whether or not the
payload has the form that the name asks for. -/
theorem Writable.samePayload_reread {a : Attribute} (h : a.Writable) (pool : Pool) :
    a.SamePayload (a.reread pool) := by
  obtain ⟨info, hinfo, -⟩ := h
  refine ⟨(nameIndex_ofPayload pool a.row).1, ?_⟩
  rw [reread, payload_ofPayload, row_of_payload hinfo, hinfo]

end Attribute

namespace Member

/-- The attributes of a member that can be written form such a table. -/
theorem tabular_of_encode {m : Member} {bytes : Bytes} (h : m.encode = .ok bytes)
    (hfits : ∀ a ∈ m.attributes, a.PayloadFits) : Attribute.Tabular m.attributes := by
  obtain ⟨table, htable, -⟩ := map_eq_ok.mp h
  exact Attribute.tabular_of_encodeTable htable hfits

theorem exists_encode {place : Nat → WritePlace} {ordinal : Nat} {members : List Member}
    {bytes : Bytes} (h : encodeMany place ordinal members = .ok bytes) {m : Member}
    (hm : m ∈ members) : ∃ front, m.encode = .ok front := by
  induction members generalizing ordinal bytes with
  | nil => cases hm
  | cons first members ih =>
    rw [encodeMany] at h
    obtain ⟨front, hfront, h⟩ := bind_eq_ok.mp h
    obtain ⟨back, hback, -⟩ := bind_eq_ok.mp h
    rcases List.mem_cons.mp hm with rfl | hm
    · exact ⟨front, writeWithin_eq_ok.mp hfront⟩
    · exact ih hback hm

/-- The same for the members of a class, from the count down to the payloads. -/
theorem tabular_of_encodeTable {place : Nat → WritePlace} {members : List Member} {bytes : Bytes}
    (h : encodeTable place members = .ok bytes)
    (hfits : ∀ m ∈ members, ∀ a ∈ m.attributes, a.PayloadFits) : Tabular members := by
  obtain ⟨hlen, rows, hrows, -⟩ := encodeTable_eq_ok.mp h
  refine ⟨hlen, fun m hm => ?_⟩
  obtain ⟨front, hfront⟩ := exists_encode hrows hm
  exact tabular_of_encode hfront (hfits m hm)

/-- The members have the same flags, name and descriptor, and attributes with the same payloads in
the same order. -/
structure SameContents (m m' : Member) : Prop where
  flags_eq : m'.flags = m.flags
  nameIndex_eq : m'.nameIndex = m.nameIndex
  descriptorIndex_eq : m'.descriptorIndex = m.descriptorIndex
  attributes : List.Forall₂ Attribute.SamePayload m.attributes m'.attributes

/-- Reading a member again gives the same flags and indices, and attributes with the same payloads.
-/
theorem sameContents_reread {m : Member} (h : Attribute.Tabular m.attributes) (pool : Pool) :
    m.SameContents (m.reread pool) :=
  ⟨rfl, rfl, rfl, forall₂_map_of_mem fun a ha =>
    (h.writable a ha).samePayload_reread pool⟩

end Member

/-! ## Classes -/

namespace ClassFile

/-- Readers accept the payloads of the class and of its members. What is nested in a payload is
shorter than it. -/
structure PayloadsFit (k : ClassFile) : Prop where
  fields : ∀ f ∈ k.fields, ∀ a ∈ f.attributes, a.PayloadFits
  methods : ∀ m ∈ k.methods, ∀ a ∈ m.attributes, a.PayloadFits
  attributes : ∀ a ∈ k.attributes, a.PayloadFits

theorem Writable.payloadsFit {k : ClassFile} (h : k.Writable) : k.PayloadsFit where
  fields f hf a ha := ((h.fields.attributes f hf).writable a ha).payloadFits
  methods m hm a ha := ((h.methods.attributes m hm).writable a ha).payloadFits
  attributes a ha := (h.attributes.writable a ha).payloadFits

/-- The classes have the same header, the same constant in every slot, the same members, and
attributes with the same payloads in the same order. -/
structure SameContents (k k' : ClassFile) : Prop where
  minor_eq : k'.minor = k.minor
  major_eq : k'.major = k.major
  flags_eq : k'.flags = k.flags
  thisClass_eq : k'.thisClass = k.thisClass
  superClass_eq : k'.superClass = k.superClass
  interfaces_eq : k'.interfaces = k.interfaces
  pool : k.pool.SameConstants k'.pool
  fields : List.Forall₂ Member.SameContents k.fields k'.fields
  methods : List.Forall₂ Member.SameContents k.methods k'.methods
  attributes : List.Forall₂ Attribute.SamePayload k.attributes k'.attributes

/-- **A class that can be written keeps within the limits of readers.** -/
theorem writable_of_encode {k : ClassFile} (hpool : k.pool.Coherent) (hfits : k.PayloadsFit)
    {data : Bytes} (h : k.encode = .ok data) : k.Writable := by
  obtain ⟨pool, hpoolBytes, h⟩ := bind_eq_ok.mp h
  obtain ⟨words, hwords, h⟩ := bind_eq_ok.mp h
  obtain ⟨fields, hfields, h⟩ := bind_eq_ok.mp h
  obtain ⟨methods, hmethods, h⟩ := bind_eq_ok.mp h
  obtain ⟨attributes, hattributes, -⟩ := bind_eq_ok.mp h
  obtain ⟨hwell, hstorable⟩ := hpool.of_encode (writeWithin_eq_ok.mp hpoolBytes)
  obtain ⟨hinterfaces, -⟩ := Codec.withCount2_eq_ok.mp (writeWithin_eq_ok.mp hwords)
  exact ⟨hwell, hstorable, hinterfaces, Member.tabular_of_encodeTable hfields hfits.fields,
    Member.tabular_of_encodeTable hmethods hfits.methods,
    Attribute.tabular_of_encodeTable (writeWithin_eq_ok.mp hattributes) hfits.attributes⟩

/-- Reading a class again gives the same header and members, over a pool that has the same
constants. -/
theorem Writable.sameContents_reread {k : ClassFile} (h : k.Writable) {pool : Pool}
    (hpool : k.pool.SameConstants pool) : k.SameContents (k.reread pool) :=
  ⟨rfl, rfl, rfl, rfl, rfl, rfl, hpool,
    forall₂_map_of_mem fun f hf => Member.sameContents_reread (h.fields.attributes f hf) pool,
    forall₂_map_of_mem fun m hm => Member.sameContents_reread (h.methods.attributes m hm) pool,
    forall₂_map_of_mem fun a ha => (h.attributes.writable a ha).samePayload_reread pool⟩

/-- **Whatever is written is read back with the same contents**, and then written as the same
bytes, however the class came about. -/
theorem parse_of_encode {k : ClassFile} (hpool : k.pool.Coherent) (hfits : k.PayloadsFit)
    {data : Bytes} (h : k.encode = .ok data) :
    ∃ k', parse data = .ok k' ∧ k.SameContents k' ∧ k'.pool.WellFormed ∧ k'.encode = .ok data := by
  have hwritable := writable_of_encode hpool hfits h
  obtain ⟨written, pool, hwritten, hparse, hwell, -, hsame⟩ := parse_encode hwritable
  rw [h] at hwritten
  obtain rfl := Except.ok.inj hwritten
  exact ⟨k.reread pool, hparse, hwritable.sameContents_reread hsame, hwell, (parse_sound hparse).1⟩

/-- A class without methods, whose attributes are a payload under a name outside of the pool and a
body that does not fit its name. -/
def edited (k : ClassFile) : ClassFile :=
  { k with
    methods := []
    attributes := [⟨0xFFFF, [1, 2], false, none⟩, ⟨5, [], false, some (.leaf (.sourceFile 77))⟩] }

theorem parse_of_encode_edited :
    ∃ k, parse oddClass = .ok k ∧ k.edited.pool.Coherent ∧ k.edited.PayloadsFit ∧
      ∃ data, k.edited.encode = .ok data ∧
        ∃ k', parse data = .ok k' ∧ k.edited.SameContents k' ∧ k'.pool.WellFormed ∧
          k'.encode = .ok data := by
  have hparse : ∃ k, parse oddClass = .ok k := ⟨_, rfl⟩
  obtain ⟨k, hk⟩ := hparse
  obtain ⟨-, hwritable, -⟩ := parse_sound hk
  have hattributes : Attribute.Tabular k.edited.attributes := by
    refine ⟨Nat.le_of_lt (by decide : 2 < 0xFFFF), fun a ha => ?_⟩
    simp only [edited, List.mem_cons, List.not_mem_nil, or_false] at ha
    rcases ha with rfl | rfl
    · exact ⟨[1, 2], rfl, by decide⟩
    · exact ⟨[0, 77], rfl, by decide⟩
  have hedited : k.edited.Writable :=
    ⟨hwritable.wellFormed, hwritable.storable, hwritable.interfaces_le, hwritable.fields,
      ⟨Nat.zero_le _, fun m hm => (nomatch hm)⟩, hattributes⟩
  have hpool := hedited.wellFormed.coherent hedited.storable
  obtain ⟨data, -, hencode, -⟩ := parse_encode hedited
  exact ⟨k, hk, hpool, hedited.payloadsFit, data, hencode,
    parse_of_encode hpool hedited.payloadsFit hencode⟩

end ClassFile

end ClassPrune
