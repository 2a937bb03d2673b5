import ClassPrune.Proofs.Class.Holder
import ClassPrune.Proofs.Class.RoundTrip
import Mathlib.Data.List.Flatten

/-!
# Edited attributes

An attribute whose body was edited no longer has the payload that it was read from. It is
faithful when the payload that it is written as decodes to it all the same.

- `Attribute.Faithful`: the attribute comes back from its payload; then only the stored payload
  itself changes when it is read again (`Attribute.Faithful.rewritten`).
- `Attribute.faithful_mapCode`, `Attribute.faithful_mapComponents`: an edit of a decoded attribute
  is faithful when it only takes attributes away and keeps the length of the code. It cannot fail
  to be written either, since nothing in it gets longer.
- `ClassFile.Faithful.rewritten`: what a class with faithful attributes becomes when it is written
  and read back.
-/

namespace ClassPrune

namespace Attribute

variable {pool pool' : Pool} {a : Attribute}

/-! ## What is nested -/

/-- What is nested in the code of a decoded attribute is decoded. -/
theorem Decoded.of_mem_code (h : a.Decoded pool) {c : Code Attribute} (hc : a.code? = some c) :
    ∀ b ∈ c.attributes, b.Decoded pool :=
  fun _ hb => h.nested (body_of_code? hc) hb

theorem Decoded.of_mem_component (h : a.Decoded pool) {components : List (Component Attribute)}
    (hcomponents : a.components? = some components) {c : Component Attribute}
    (hc : c ∈ components) : ∀ b ∈ c.attributes, b.Decoded pool :=
  fun _ hb => h.nested (body_of_components? hcomponents) (List.mem_flatMap.mpr ⟨c, hc, hb⟩)

/-! ## Faithful attributes -/

/-- The attribute is what the payload decodes to that it is written as. -/
def Faithful (pool : Pool) (a : Attribute) : Prop :=
  ∃ info, a.payload = .ok info ∧ Decoded pool { a with info }

/-- The attributes have the same name, body and payload; only the bytes may differ that are kept
from reading. -/
structure Rewritten (a a' : Attribute) : Prop where
  nameIndex_eq : a'.nameIndex = a.nameIndex
  body_eq : a'.body = a.body
  malformed_eq : a'.malformed = a.malformed
  payload_eq : a'.payload = a.payload

/-- Only the texts of a pool count for decoding, since attributes are told apart by their names. -/
theorem Decoded.congr (h : a.Decoded pool) (hutf8 : pool'.utf8 = pool.utf8) :
    a.Decoded pool' := by
  refine ⟨?_, h.fits⟩
  rw [ofPayload_congr hutf8]
  exact h.eq

/-- An attribute that was not edited is faithful: its payload decodes to it. -/
theorem Decoded.faithful (h : a.Decoded pool) : a.Faithful pool := by
  refine ⟨a.info, h.payload, ?_⟩
  cases a
  exact h

namespace Faithful

theorem congr (h : a.Faithful pool) (hutf8 : pool'.utf8 = pool.utf8) : a.Faithful pool' := by
  obtain ⟨info, hinfo, hdecoded⟩ := h
  exact ⟨info, hinfo, hdecoded.congr hutf8⟩

theorem writable (h : a.Faithful pool) : a.Writable := by
  obtain ⟨info, hinfo, hdecoded⟩ := h
  exact ⟨info, hinfo, hdecoded.fits⟩

/-- Reading a faithful attribute again gives the same attribute with the written payload. -/
theorem reread_eq (h : a.Faithful pool) :
    ∃ info, a.payload = .ok info ∧ a.reread pool = { a with info } := by
  obtain ⟨info, hinfo, hdecoded⟩ := h
  refine ⟨info, hinfo, ?_⟩
  rw [reread, row_of_payload hinfo]
  exact hdecoded.eq

theorem rewritten (h : a.Faithful pool) : a.Rewritten (a.reread pool) := by
  obtain ⟨info, hinfo, hreread⟩ := h.reread_eq
  rw [hreread]
  refine ⟨rfl, rfl, rfl, ?_⟩
  obtain ⟨nameIndex, old, malformed, body⟩ := a
  rw [hinfo]
  cases body with
  | none => exact payload_of_none rfl
  | some body =>
    rw [payload_of_body rfl] at hinfo
    exact (payload_of_body rfl).trans hinfo

end Faithful

/-! ## Shorter tables -/

/-- A table without some of its rows is not longer. -/
theorem length_bytesOf_le {rows rows' : List RawAttribute} (h : rows'.Sublist rows) :
    (RawAttribute.bytesOf rows').length ≤ (RawAttribute.bytesOf rows).length :=
  (h.flatMap RawAttribute.encode).length_le

/-- Part of a table can be written when the table can, and is no longer. -/
theorem encodeTable_shrink {attributes attributes' : List Attribute} {table : Bytes}
    (h : encodeTable attributes = .ok table) (hdecoded : ∀ a ∈ attributes, a.Decoded pool)
    (hsub : attributes'.Sublist attributes) :
    ∃ table', encodeTable attributes' = .ok table' ∧ table'.length ≤ table.length := by
  obtain ⟨hlen, -, rfl⟩ := table_of_encodeTable h hdecoded
  rw [List.length_map] at hlen
  have htabular : Tabular attributes' :=
    ⟨Nat.le_trans hsub.length_le hlen, fun a ha => (hdecoded a (hsub.subset ha)).writable⟩
  have hrows : attributes'.map row = attributes'.map raw :=
    List.map_congr_left fun a ha => (hdecoded a (hsub.subset ha)).row_eq
  have hle := length_bytesOf_le (hsub.map raw)
  refine ⟨_, htabular.encodeTable, ?_⟩
  rw [tableBytes, hrows, List.length_append, List.length_append, Bytes.length_ofU2,
    Bytes.length_ofU2]
  omega

/-- Components with fewer attributes can still be written, and are not longer. -/
theorem encodeComponents_shrink {components : List (Component Attribute)}
    {f : Component Attribute → List Attribute} {rows : Bytes}
    (h : encodeComponents components = .ok rows)
    (hdecoded : ∀ c ∈ components, ∀ a ∈ c.attributes, a.Decoded pool)
    (hsub : ∀ c ∈ components, (f c).Sublist c.attributes) :
    ∃ rows', encodeComponents (components.map fun c => { c with attributes := f c }) = .ok rows' ∧
      rows'.length ≤ rows.length := by
  induction components generalizing rows with
  | nil => exact ⟨[], rfl, Nat.zero_le _⟩
  | cons c components ih =>
    obtain ⟨nameIndex, descriptorIndex, attributes⟩ := c
    rw [encodeComponents] at h
    obtain ⟨table, htable, h⟩ := bind_eq_ok.mp h
    obtain ⟨more, hmore, h⟩ := bind_eq_ok.mp h
    cases h
    -- neither the first table nor the rows behind it get longer
    obtain ⟨table', htable', hle⟩ := encodeTable_shrink htable
      (hdecoded _ List.mem_cons_self) (hsub _ List.mem_cons_self)
    obtain ⟨more', hmore', hle'⟩ := ih hmore
      (fun c hc => hdecoded c (List.mem_cons_of_mem _ hc))
      (fun c hc => hsub c (List.mem_cons_of_mem _ hc))
    refine ⟨Bytes.ofU2 nameIndex ++ (Bytes.ofU2 descriptorIndex ++ (table' ++ more')), ?_, ?_⟩
    · rw [List.map_cons, encodeComponents]
      exact bind_eq_ok.mpr ⟨table', htable', bind_eq_ok.mpr ⟨more', hmore', rfl⟩⟩
    · simp only [List.length_append]
      omega

/-! ## Edits that take away -/

/-- Attributes may be gone from the code, and instructions may be others of the same length. -/
structure Shrinks (c c' : Code Attribute) : Prop where
  maxStack_eq : c'.maxStack = c.maxStack
  maxLocals_eq : c'.maxLocals = c.maxLocals
  handlers_eq : c'.handlers = c.handlers
  length_eq : c'.code.length = c.code.length
  sublist : c'.attributes.Sublist c.attributes

/-- Code that shrinks can still be written, in no more bytes than before. -/
theorem encodeBody_code_shrink {c c' : Code Attribute} {info : Bytes}
    (h : encodeBody (.code c) = .ok info) (hdecoded : ∀ a ∈ c.attributes, a.Decoded pool)
    (hshrinks : Shrinks c c') :
    ∃ info', encodeBody (.code c') = .ok info' ∧ info'.length ≤ info.length := by
  rw [encodeBody_code] at h ⊢
  obtain ⟨head, hhead, h⟩ := bind_eq_ok.mp h
  obtain ⟨table, htable, h⟩ := bind_eq_ok.mp h
  cases h
  obtain ⟨handlers, hhandlers, rfl⟩ := Code.writeHead_eq_ok.mp hhead
  obtain ⟨table', htable', hle⟩ := encodeTable_shrink htable hdecoded hshrinks.sublist
  -- the head is written with the old length in front of the new instructions
  have hhead' : c'.writeHead = .ok (Bytes.ofU2 c.maxStack ++ (Bytes.ofU2 c.maxLocals ++
      (Bytes.ofU4 (UInt32.ofNat c.code.length) ++ (c'.code ++ handlers)))) := by
    refine Code.writeHead_eq_ok.mpr ⟨handlers, ?_, ?_⟩
    · rw [hshrinks.handlers_eq]
      exact hhandlers
    · rw [hshrinks.maxStack_eq, hshrinks.maxLocals_eq, hshrinks.length_eq]
  refine ⟨_, bind_eq_ok.mpr ⟨_, hhead', bind_eq_ok.mpr ⟨table', htable', rfl⟩⟩, ?_⟩
  have hlen := hshrinks.length_eq
  simp only [List.length_append]
  omega

/-- The same for a record declaration, where the number of components stays. -/
theorem encodeBody_record_shrink {components : List (Component Attribute)}
    {f : Component Attribute → List Attribute} {info : Bytes}
    (h : encodeBody (.record components) = .ok info)
    (hdecoded : ∀ c ∈ components, ∀ a ∈ c.attributes, a.Decoded pool)
    (hsub : ∀ c ∈ components, (f c).Sublist c.attributes) :
    ∃ info', encodeBody (.record (components.map fun c => { c with attributes := f c }))
      = .ok info' ∧ info'.length ≤ info.length := by
  rw [encodeBody_record, Codec.withCount2_eq_ok] at h
  obtain ⟨hlen, rows, hrows, rfl⟩ := h
  obtain ⟨rows', hrows', hle⟩ := encodeComponents_shrink hrows hdecoded hsub
  refine ⟨Bytes.ofU2 (UInt16.ofNat components.length) ++ rows', ?_, ?_⟩
  · rw [encodeBody_record, Codec.withCount2_eq_ok, List.length_map]
    exact ⟨hlen, rows', hrows', rfl⟩
  · rw [List.length_append, List.length_append]
    omega

/-- A body that is no longer than that of a decoded attribute can take its place. -/
theorem faithful_of_shrink (h : a.Decoded pool) {body body' : Body Attribute}
    (hbody : a.body = some body) (hkind : body'.kind = body.kind)
    (hnested : ∀ b ∈ body'.nested, b ∈ body.nested)
    (hcode : ∀ c, body' = .code c → c.code.length ≤ 0xFFFFFFFF)
    (hleaf : ∀ leaf, body' ≠ .leaf leaf)
    (hinfo : ∃ info', encodeBody body' = .ok info' ∧ info'.length ≤ a.info.length) :
    Faithful pool { a with body := some body' } := by
  obtain ⟨info', hinfo', hle⟩ := hinfo
  obtain ⟨hmalformed, hname, -⟩ := h.body hbody
  have hfits : a.info.length ≤ 0x7FFFFFFF := h.fits
  -- the attribute keeps its name, and the name asks for the kind of the new body
  refine ⟨info', (payload_of_body rfl).trans hinfo', ?_⟩
  rw [hmalformed]
  refine decoded_of_encodeBody hinfo' ?_ (fun b hb => h.nested hbody (hnested b hb)) hcode hleaf
    (by omega)
  rw [hkind]
  exact hname

/-- **Edited code comes back**, when the edit only takes away. -/
theorem faithful_mapCode (h : a.Decoded pool) {f : Code Attribute → Code Attribute}
    (hshrinks : ∀ c, a.code? = some c → Shrinks c (f c)) : (a.mapCode f).Faithful pool := by
  cases hc : a.code? with
  | none =>
    rw [mapCode_of_none hc]
    exact h.faithful
  | some c =>
    have hbody := body_of_code? hc
    have hshrink := hshrinks c hc
    obtain ⟨-, -, rawBody, hraw, hmap⟩ := h.body hbody
    rw [mapCode_of_some hc]
    refine faithful_of_shrink h hbody rfl (fun b hb => hshrink.sublist.subset hb) ?_ ?_ ?_
    · intro c' hc'
      cases hc'
      rw [hshrink.length_eq]
      -- the length of the code was read from four bytes
      cases rawBody with
      | code rawCode =>
        cases hmap
        obtain ⟨-, -, -, -, hle, -⟩ := Body.ofPayload_code.mp hraw
        exact hle
      | _ => cases hmap
    · intro leaf hleaf
      cases hleaf
    · have hinfo := h.payload
      rw [payload_of_body hbody] at hinfo
      exact encodeBody_code_shrink hinfo (h.of_mem_code hc) hshrink

/-- **An edited record comes back**, when the edit only takes away. -/
theorem faithful_mapComponents (h : a.Decoded pool) {f : Component Attribute → List Attribute}
    (hsub : ∀ components, a.components? = some components → ∀ c ∈ components,
      (f c).Sublist c.attributes) :
    (a.mapComponents fun components => components.map fun c =>
      { c with attributes := f c }).Faithful pool := by
  cases hcomponents : a.components? with
  | none =>
    rw [mapComponents_of_none hcomponents]
    exact h.faithful
  | some components =>
    have hbody := body_of_components? hcomponents
    have hsub := hsub components hcomponents
    rw [mapComponents_of_some hcomponents]
    refine faithful_of_shrink h hbody rfl ?_ ?_ ?_ ?_
    · intro b hb
      obtain ⟨c', hc', hb⟩ := List.mem_flatMap.mp hb
      obtain ⟨c, hc, rfl⟩ := List.mem_map.mp hc'
      exact List.mem_flatMap.mpr ⟨c, hc, (hsub c hc).subset hb⟩
    · intro c hc
      cases hc
    · intro leaf hleaf
      cases hleaf
    · have hinfo := h.payload
      rw [payload_of_body hbody] at hinfo
      exact encodeBody_record_shrink hinfo (fun c hc => h.of_mem_component hcomponents hc) hsub

end Attribute

/-! ## Classes -/

/-- The members agree in everything but the bytes that their attributes were read from. -/
structure Member.Rewritten (m m' : Member) : Prop where
  flags_eq : m'.flags = m.flags
  nameIndex_eq : m'.nameIndex = m.nameIndex
  descriptorIndex_eq : m'.descriptorIndex = m.descriptorIndex
  attributes : List.Forall₂ Attribute.Rewritten m.attributes m'.attributes

namespace ClassFile

/-- Every attribute of the class and of its members is faithful. -/
structure Faithful (k : ClassFile) : Prop where
  fields : ∀ f ∈ k.fields, ∀ a ∈ f.attributes, a.Faithful k.pool
  methods : ∀ m ∈ k.methods, ∀ a ∈ m.attributes, a.Faithful k.pool
  attributes : ∀ a ∈ k.attributes, a.Faithful k.pool

/-- The classes have the same header, the same constant in every slot and the same text at every
index, the same members and the same attributes. -/
structure Rewritten (k k' : ClassFile) : Prop where
  minor_eq : k'.minor = k.minor
  major_eq : k'.major = k.major
  flags_eq : k'.flags = k.flags
  thisClass_eq : k'.thisClass = k.thisClass
  superClass_eq : k'.superClass = k.superClass
  interfaces_eq : k'.interfaces = k.interfaces
  pool : k.pool.SameConstants k'.pool
  texts_eq : k'.pool.utf8 = k.pool.utf8
  fields : List.Forall₂ Member.Rewritten k.fields k'.fields
  methods : List.Forall₂ Member.Rewritten k.methods k'.methods
  attributes : List.Forall₂ Attribute.Rewritten k.attributes k'.attributes

theorem Faithful.congr {k : ClassFile} (h : k.Faithful) {pool : Pool}
    (hutf8 : pool.utf8 = k.pool.utf8) : ClassFile.Faithful { k with pool } :=
  ⟨fun f hf a ha => (h.fields f hf a ha).congr hutf8,
    fun m hm a ha => (h.methods m hm a ha).congr hutf8,
    fun a ha => (h.attributes a ha).congr hutf8⟩

/-- **Writing a class with faithful attributes and reading it back changes nothing** but the
bytes that its attributes were read from. -/
theorem Faithful.rewritten {k : ClassFile} (h : k.Faithful) {pool : Pool}
    (hpool : k.pool.SameConstants pool) (hutf8 : pool.utf8 = k.pool.utf8) :
    k.Rewritten (k.reread pool) := by
  have hcongr := h.congr hutf8
  have hmember (m : Member) (hm : ∀ a ∈ m.attributes, a.Faithful pool) :
      m.Rewritten (m.reread pool) :=
    ⟨rfl, rfl, rfl, forall₂_map_of_mem fun a ha => (hm a ha).rewritten⟩
  refine ⟨rfl, rfl, rfl, rfl, rfl, rfl, hpool, hutf8, ?_, ?_, ?_⟩
  · exact forall₂_map_of_mem fun f hf => hmember f (hcongr.fields f hf)
  · exact forall₂_map_of_mem fun m hm => hmember m (hcongr.methods m hm)
  · exact forall₂_map_of_mem fun a ha => (hcongr.attributes a ha).rewritten

end ClassFile

end ClassPrune
