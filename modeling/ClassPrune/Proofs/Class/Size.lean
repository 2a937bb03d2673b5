import ClassPrune.Proofs.Class.Holder
import ClassPrune.Proofs.Class.RoundTrip
import Mathlib.Algebra.BigOperators.Group.List.Basic

/-!
# Sizes

How many bytes the parts of a class take in a file. What is nested in a part takes its bytes from
the part around it, so that the size of a part is a sum of a fixed number of bytes and the sizes of
what is in it.

- `Attribute.size`: the bytes of an attribute in a table. For code and records this is the size of
  what is nested in them, and what the rest takes (`Attribute.size_of_code`,
  `Attribute.size_of_components`).
- `Attribute.rowsSize_eq_add_lostSize`: what a filter takes away from a table.
- `ClassFile.bodySize`: the bytes of a class apart from those of its pool.
- `ClassFile.length_encode`: a class that can be written takes the bytes of its pool and those.
-/

namespace ClassPrune

/-! ## Rows of one length -/

/-- Rows of one length take that length times their number. -/
theorem Rows.length_eq {α : Type} {P : Bytes → α → Prop} {n : Nat}
    (hP : ∀ front v, P front v → front.length = n) {bytes : Bytes} {vs : List α}
    (h : Rows P bytes vs) : bytes.length = n * vs.length := by
  induction h with
  | nil => rfl
  | cons head _ ih =>
    rw [List.length_append, hP _ _ head, ih, List.length_cons, Nat.mul_succ, Nat.add_comm]

/-- The same for a table, with the two bytes of its count. -/
theorem Codec.length_table2 {α : Type} {row : Codec α} {n : Nat}
    (hrow : ∀ front v, row.Spells front v → front.length = n) {vs : List α} {bytes : Bytes}
    (h : row.table2.write vs = .ok bytes) : bytes.length = 2 + n * vs.length := by
  obtain ⟨-, rows, hrows, rfl⟩ := Codec.withCount2_eq_ok.mp h
  rw [List.length_append, Bytes.length_ofU2, (Codec.writeRows_eq_ok.mp hrows).length_eq hrow]

theorem Codec.length_words {vs : List UInt16} {bytes : Bytes}
    (h : Codec.words.write vs = .ok bytes) : bytes.length = 2 + 2 * vs.length := by
  refine Codec.length_table2 (fun front v hspells => ?_) h
  cases hspells
  rfl

/-! ## Attributes -/

namespace Attribute

/-- The number of bytes of an attribute in a table. -/
def size (a : Attribute) : Nat := a.row.encode.length

/-- The number of bytes of attributes one after the other. -/
def rowsSize (attributes : List Attribute) : Nat := (attributes.map size).sum

/-- The number of bytes of a record component. -/
def componentSize (c : Component Attribute) : Nat := 6 + rowsSize c.attributes

/-- The row of an attribute has six bytes besides its payload. -/
theorem size_of_payload {a : Attribute} {info : Bytes} (h : a.payload = .ok info) :
    a.size = 6 + info.length := by
  rw [size, row_of_payload h, RawAttribute.length_encode]

/-- So no attribute is empty in a file, and taking one away makes the file shorter. -/
theorem size_pos (a : Attribute) : 0 < a.size := by
  rw [size, RawAttribute.length_encode]
  omega

/-- Nothing takes no bytes, and nothing else does. -/
theorem rowsSize_eq_zero_iff {attributes : List Attribute} :
    rowsSize attributes = 0 ↔ attributes = [] := by
  cases attributes with
  | nil => simp [rowsSize]
  | cons a attributes =>
    have hpos := a.size_pos
    simp only [rowsSize, List.map_cons, List.sum_cons, reduceCtorEq, iff_false]
    omega

/-- The number of bytes of the attributes that do not pass a test. -/
def lostSize (stays : Attribute → Bool) (attributes : List Attribute) : Nat :=
  rowsSize (attributes.filter fun a => !stays a)

/-- A filter takes no bytes away exactly when it takes no attribute away. -/
theorem lostSize_eq_zero_iff {stays : Attribute → Bool} {attributes : List Attribute} :
    lostSize stays attributes = 0 ↔ ∀ a ∈ attributes, stays a = true := by
  rw [lostSize, rowsSize_eq_zero_iff, List.filter_eq_nil_iff]
  simp

/-- What a filter takes away is missing in the size. -/
theorem rowsSize_eq_add_lostSize (stays : Attribute → Bool) (attributes : List Attribute) :
    rowsSize attributes = rowsSize (attributes.filter stays) + lostSize stays attributes := by
  have hsum := List.sum_map_filter_add_sum_map_filter_not (stays · = true) size attributes
  simp only [Bool.decide_eq_true, Bool.not_eq_true, Bool.decide_eq_false] at hsum
  exact hsum.symm

theorem rows_of_stored {attributes : List Attribute} {rows : List RawAttribute}
    (h : List.Forall₂ Stored attributes rows) : rows = attributes.map row := by
  induction h with
  | nil => rfl
  | @cons a raw _ _ hrow _ ih =>
    obtain ⟨hname, hinfo⟩ := hrow
    rw [List.map_cons, ← ih, row_of_payload hinfo, ← hname]

/-- The bytes of a table are those of its count and of its attributes. -/
theorem length_encodeTable {attributes : List Attribute} {table : Bytes}
    (h : encodeTable attributes = .ok table) : table.length = 2 + rowsSize attributes := by
  obtain ⟨-, rows, hrows, -, rfl⟩ := encodeTable_eq_ok.mp h
  rw [rows_of_stored hrows, List.length_append, Bytes.length_ofU2, RawAttribute.bytesOf,
    List.length_flatMap, List.map_map]
  rfl

/-- The bytes of record components, each with six of its own. -/
theorem length_encodeComponents {components : List (Component Attribute)} {rows : Bytes}
    (h : encodeComponents components = .ok rows) :
    rows.length = (components.map componentSize).sum := by
  induction components generalizing rows with
  | nil =>
    rw [encodeComponents] at h
    cases h
    rfl
  | cons c components ih =>
    obtain ⟨nameIndex, descriptorIndex, attributes⟩ := c
    rw [encodeComponents] at h
    obtain ⟨table, htable, h⟩ := bind_eq_ok.mp h
    obtain ⟨more, hmore, h⟩ := bind_eq_ok.mp h
    cases h
    have htableLen := length_encodeTable htable
    have hmoreLen := ih hmore
    simp only [List.length_append, Bytes.length_ofU2, List.map_cons, List.sum_cons, componentSize]
    omega

/-- The part of a code body in front of its attributes: ten bytes for words and lengths, eight for
each handler. -/
theorem length_writeHead {c : Code Attribute} {head : Bytes} (h : c.writeHead = .ok head) :
    head.length = 10 + c.code.length + 8 * c.handlers.length := by
  obtain ⟨handlers, hhandlers, rfl⟩ := Code.writeHead_eq_ok.mp h
  have hlen : handlers.length = 2 + 8 * c.handlers.length := by
    refine Codec.length_table2 (fun front v hspells => ?_) hhandlers
    cases hspells
    rfl
  simp only [List.length_append, Bytes.length_ofU2, Bytes.length_ofU4, hlen]
  omega

variable {a : Attribute}

/-- Code takes what is nested in it, its instructions and handlers, and eighteen bytes for counts
and lengths. -/
theorem size_of_code (h : a.Writable) {c : Code Attribute} (hc : a.code? = some c) :
    a.size = 18 + c.code.length + 8 * c.handlers.length + rowsSize c.attributes := by
  obtain ⟨info, hinfo, -⟩ := h
  rw [size_of_payload hinfo]
  rw [payload_of_body (body_of_code? hc), encodeBody_code] at hinfo
  obtain ⟨head, hhead, hinfo⟩ := bind_eq_ok.mp hinfo
  obtain ⟨table, htable, hinfo⟩ := bind_eq_ok.mp hinfo
  cases hinfo
  rw [List.length_append, length_writeHead hhead, length_encodeTable htable]
  omega

/-- A record takes its components, and eight bytes for their count and the row. -/
theorem size_of_components (h : a.Writable) {components : List (Component Attribute)}
    (hcomponents : a.components? = some components) :
    a.size = 8 + (components.map componentSize).sum := by
  obtain ⟨info, hinfo, -⟩ := h
  rw [size_of_payload hinfo]
  rw [payload_of_body (body_of_components? hcomponents), encodeBody_record,
    Codec.withCount2_eq_ok] at hinfo
  obtain ⟨-, rows, hrows, rfl⟩ := hinfo
  rw [List.length_append, Bytes.length_ofU2, length_encodeComponents hrows]
  omega

end Attribute

open Attribute (rowsSize)

/-! ## Members and classes -/

namespace Member

/-- The number of bytes of a field or method. -/
def size (m : Member) : Nat := 8 + rowsSize m.attributes

/-- A member has eight bytes besides its attributes. -/
theorem length_encode {m : Member} {bytes : Bytes} (h : m.encode = .ok bytes) :
    bytes.length = m.size := by
  obtain ⟨table, htable, rfl⟩ := map_eq_ok.mp h
  have hlen := Attribute.length_encodeTable htable
  simp only [List.length_append, Bytes.length_ofU2, size]
  omega

theorem length_encodeMany {place : Nat → WritePlace} {ordinal : Nat} {members : List Member}
    {bytes : Bytes} (h : encodeMany place ordinal members = .ok bytes) :
    bytes.length = (members.map size).sum := by
  induction members generalizing ordinal bytes with
  | nil =>
    cases h
    rfl
  | cons m members ih =>
    rw [encodeMany] at h
    obtain ⟨front, hfront, h⟩ := bind_eq_ok.mp h
    obtain ⟨back, hback, h⟩ := bind_eq_ok.mp h
    cases h
    rw [List.length_append, length_encode (writeWithin_eq_ok.mp hfront), ih hback, List.map_cons,
      List.sum_cons]

theorem length_encodeTable {place : Nat → WritePlace} {members : List Member} {bytes : Bytes}
    (h : encodeTable place members = .ok bytes) : bytes.length = 2 + (members.map size).sum := by
  obtain ⟨-, rows, hrows, rfl⟩ := encodeTable_eq_ok.mp h
  rw [List.length_append, Bytes.length_ofU2, length_encodeMany hrows]

end Member

namespace ClassFile

/-- The number of bytes of a class apart from those of its pool. -/
def bodySize (k : ClassFile) : Nat :=
  22 + 2 * k.interfaces.length + (k.fields.map Member.size).sum + (k.methods.map Member.size).sum
    + rowsSize k.attributes

/-- **A class takes the bytes of its pool and those of its parts.** -/
theorem length_encode {k : ClassFile} {data : Bytes} (h : k.encode = .ok data) :
    ∃ pool, k.pool.encode = .ok pool ∧ data.length = pool.length + k.bodySize := by
  obtain ⟨pool, hpool, h⟩ := bind_eq_ok.mp h
  obtain ⟨words, hwords, h⟩ := bind_eq_ok.mp h
  obtain ⟨fields, hfields, h⟩ := bind_eq_ok.mp h
  obtain ⟨methods, hmethods, h⟩ := bind_eq_ok.mp h
  obtain ⟨attributes, hattributes, h⟩ := bind_eq_ok.mp h
  cases h
  refine ⟨pool, writeWithin_eq_ok.mp hpool, ?_⟩
  have hwordsLen := Codec.length_words (writeWithin_eq_ok.mp hwords)
  have hfieldsLen := Member.length_encodeTable hfields
  have hmethodsLen := Member.length_encodeTable hmethods
  have hattributesLen := Attribute.length_encodeTable (writeWithin_eq_ok.mp hattributes)
  simp only [List.length_append, Bytes.length_ofU2, Bytes.length_ofU4, bodySize]
  omega

end ClassFile

end ClassPrune
