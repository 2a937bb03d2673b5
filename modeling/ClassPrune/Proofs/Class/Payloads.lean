import ClassPrune.Proofs.Class.Faults

/-!
# Payloads do not decide whether a class is read

The payloads of the attributes of a class, of its fields and of its methods lie somewhere in its
file. A mask marks these bytes, and a file whose marked bytes are overwritten is still a class file:
a payload that does not decode is kept as bytes, and what is nested in a payload is part of it.

- `SameOutside`: two byte strings that agree at every position that a mask does not mark.
- `Masked`: what a mask marks in a part of a file, and what becomes of the part when the marked
  bytes are overwritten. It is closed under putting parts one after the other.
- `ClassFile.payloadMask`: the positions of payloads. `ClassFile.masked` says that the bytes there
  are the payloads, and that the class stays readable with others in their place.
-/

namespace ClassPrune

/-! ## Overwriting marked bytes -/

/-- The bytes at the marked positions. -/
def select : List Bool → Bytes → Bytes
  | mark :: mask, b :: bytes => if mark then b :: select mask bytes else select mask bytes
  | _, _ => []

theorem select_append {mask mask' : List Bool} {bytes bytes' : Bytes}
    (h : mask.length = bytes.length) :
    select (mask ++ mask') (bytes ++ bytes') = select mask bytes ++ select mask' bytes' := by
  induction mask generalizing bytes with
  | nil =>
    obtain rfl := List.length_eq_zero_iff.mp h.symm
    rfl
  | cons mark mask ih =>
    cases bytes with
    | nil => cases h
    | cons b bytes =>
      have htail := ih (Nat.succ.inj h)
      cases mark with
      | true => exact congrArg (b :: ·) htail
      | false => exact htail

theorem select_replicate_false (bytes : Bytes) :
    select (List.replicate bytes.length false) bytes = [] := by
  induction bytes with
  | nil => rfl
  | cons b bytes ih => exact ih

/-- Where everything is marked everything is selected. -/
theorem select_replicate_true (bytes : Bytes) :
    select (List.replicate bytes.length true) bytes = bytes := by
  induction bytes with
  | nil => rfl
  | cons b bytes ih => exact congrArg (b :: ·) ih

/-- The byte strings agree in their length and at every position that is not marked. -/
structure SameOutside (mask : List Bool) (bytes bytes' : Bytes) : Prop where
  length_eq : bytes'.length = bytes.length
  getElem?_eq : ∀ i : Nat, mask[i]? ≠ some true → bytes'[i]? = bytes[i]?

instance (mask : List Bool) (bytes bytes' : Bytes) : Decidable (SameOutside mask bytes bytes') := by
  refine decidable_of_iff (bytes'.length = bytes.length ∧
    ∀ i < bytes.length, mask[i]? ≠ some true → bytes'[i]? = bytes[i]?)
    ⟨fun ⟨hlen, h⟩ => ?_, fun h => ?_⟩
  · refine ⟨hlen, fun i hi => ?_⟩
    by_cases hlt : i < bytes.length
    · exact h i hlt hi
    · rw [List.getElem?_eq_none (by omega), List.getElem?_eq_none (by omega)]
  · exact ⟨h.length_eq, fun i _ => h.getElem?_eq i⟩

/-- What agrees with two parts, one after the other, has a part for each of them. -/
theorem SameOutside.of_append {mask₁ mask₂ : List Bool} {bytes₁ bytes₂ bytes' : Bytes}
    (h : SameOutside (mask₁ ++ mask₂) (bytes₁ ++ bytes₂) bytes')
    (hlen : mask₁.length = bytes₁.length) :
    SameOutside mask₁ bytes₁ (bytes'.take bytes₁.length) ∧
      SameOutside mask₂ bytes₂ (bytes'.drop bytes₁.length) := by
  have htotal := h.length_eq
  rw [List.length_append] at htotal
  constructor
  · refine ⟨by rw [List.length_take]; omega, fun i hi => ?_⟩
    by_cases hlt : i < bytes₁.length
    · rw [List.getElem?_take_of_lt hlt, h.getElem?_eq i, List.getElem?_append_left hlt]
      rw [List.getElem?_append_left (by omega)]
      exact hi
    · rw [List.getElem?_eq_none (by rw [List.length_take]; omega),
        List.getElem?_eq_none (by omega)]
  · refine ⟨by rw [List.length_drop]; omega, fun i hi => ?_⟩
    rw [List.getElem?_drop, h.getElem?_eq, List.getElem?_append_right (by omega),
      Nat.add_sub_cancel_left]
    rw [← hlen, List.getElem?_append_right (by omega), Nat.add_sub_cancel_left]
    exact hi

/-- A part in which nothing is marked stays as it is. -/
theorem SameOutside.eq_of_unmarked {n : Nat} {bytes bytes' : Bytes}
    (h : SameOutside (List.replicate n false) bytes bytes') : bytes' = bytes := by
  refine List.ext_getElem? fun i => h.getElem?_eq i ?_
  intro hmarked
  have := List.mem_replicate.mp (List.mem_of_getElem? hmarked)
  exact absurd this.2 (by decide)

/-- The mask marks exactly `marked` in `bytes`, and what is left of `bytes` when other bytes are put
there meets `Q`. -/
structure Masked (mask : List Bool) (bytes marked : Bytes) (Q : Bytes → Prop) : Prop where
  length_eq : mask.length = bytes.length
  select_eq : select mask bytes = marked
  overwritten : ∀ bytes', SameOutside mask bytes bytes' → Q bytes'

namespace Masked

variable {mask mask₁ mask₂ : List Bool} {bytes bytes₁ bytes₂ marked marked₁ marked₂ : Bytes}
  {Q Q' Q₁ Q₂ : Bytes → Prop}

theorem imp (h : Masked mask bytes marked Q) (hQ : ∀ bytes', Q bytes' → Q' bytes') :
    Masked mask bytes marked Q' :=
  ⟨h.length_eq, h.select_eq, fun bytes' hsame => hQ bytes' (h.overwritten bytes' hsame)⟩

/-- Two parts one after the other: each of them is overwritten by itself. -/
theorem append (h₁ : Masked mask₁ bytes₁ marked₁ Q₁) (h₂ : Masked mask₂ bytes₂ marked₂ Q₂)
    (hQ : ∀ bytes₁' bytes₂', Q₁ bytes₁' → Q₂ bytes₂' → Q (bytes₁' ++ bytes₂')) :
    Masked (mask₁ ++ mask₂) (bytes₁ ++ bytes₂) (marked₁ ++ marked₂) Q := by
  refine ⟨?_, ?_, fun bytes' hsame => ?_⟩
  · rw [List.length_append, List.length_append, h₁.length_eq, h₂.length_eq]
  · rw [select_append h₁.length_eq, h₁.select_eq, h₂.select_eq]
  · obtain ⟨hfront, hback⟩ := hsame.of_append h₁.length_eq
    rw [← List.take_append_drop bytes₁.length bytes']
    exact hQ _ _ (h₁.overwritten _ hfront) (h₂.overwritten _ hback)

/-- Nothing can be overwritten where nothing is marked. -/
theorem fixed {n : Nat} (h : bytes.length = n) :
    Masked (List.replicate n false) bytes [] (· = bytes) := by
  subst h
  exact ⟨List.length_replicate, select_replicate_false bytes, fun _ => SameOutside.eq_of_unmarked⟩

/-- A part that is marked as a whole may become any bytes of the same length. -/
theorem free (bytes : Bytes) :
    Masked (List.replicate bytes.length true) bytes bytes (·.length = bytes.length) :=
  ⟨List.length_replicate, select_replicate_true bytes, fun _ hsame => hsame.length_eq⟩

/-- A part that is not marked, and one behind it. -/
theorem behind {front : Bytes} {n : Nat} (hfront : front.length = n)
    (h : Masked mask bytes marked fun bytes' => Q (front ++ bytes')) :
    Masked (List.replicate n false ++ mask) (front ++ bytes) marked Q :=
  (fixed hfront).append h fun _ _ hfixed hQ => hfixed ▸ hQ

/-- Parts of one kind, each of which is one of the kind afterwards. -/
theorem flatMap {α : Type} {mask : α → List Bool} {bytes marked : α → Bytes} {P : α → Prop}
    {xs : List α}
    (h : ∀ x ∈ xs, Masked (mask x) (bytes x) (marked x) fun bytes' => ∃ y, bytes y = bytes' ∧ P y) :
    Masked (xs.flatMap mask) (xs.flatMap bytes) (xs.flatMap marked) fun bytes' =>
      ∃ ys : List α, ys.flatMap bytes = bytes' ∧ ys.length = xs.length ∧ ∀ y ∈ ys, P y := by
  induction xs with
  | nil =>
    refine ⟨rfl, rfl, fun bytes' hsame => ?_⟩
    obtain rfl := List.length_eq_zero_iff.mp hsame.length_eq
    exact ⟨[], rfl, rfl, fun y hy => (nomatch hy)⟩
  | cons x xs ih =>
    have htail := ih fun y hy => h y (List.mem_cons_of_mem _ hy)
    refine (h x List.mem_cons_self).append htail ?_
    rintro _ _ ⟨y, rfl, hy⟩ ⟨ys, rfl, hlen, hys⟩
    exact ⟨y :: ys, rfl, congrArg (· + 1) hlen, List.forall_mem_cons.mpr ⟨hy, hys⟩⟩

end Masked

/-! ## Attributes -/

namespace Attribute

/-- The payload in the row of an attribute: what follows the name index and the length. -/
def payloadMask (a : Attribute) : List Bool :=
  List.replicate 6 false ++ List.replicate a.info.length true

/-- The payloads in a table: none of them is in the count. -/
def tableMask (attributes : List Attribute) : List Bool :=
  List.replicate 2 false ++ attributes.flatMap payloadMask

/-- The attribute with another payload, which nothing is known about. -/
def withInfo (a : Attribute) (info : Bytes) : Attribute := ⟨a.nameIndex, info, false, none⟩

/-- An attribute with other bytes is written with these bytes. -/
theorem row_withInfo (a : Attribute) (info : Bytes) :
    (a.withInfo info).row = ⟨a.nameIndex, info⟩ :=
  row_of_payload (payload_of_none rfl)

/-- Any payload of the same length can be written in its place. -/
theorem masked {pool : Pool} {a : Attribute} (h : a.Decoded pool) :
    Masked a.payloadMask a.row.encode a.info fun bytes' =>
      ∃ a' : Attribute, a'.row.encode = bytes' ∧ a'.Writable := by
  rw [h.row_eq, RawAttribute.encode, ← List.append_assoc]
  refine Masked.behind rfl ((Masked.free a.info).imp fun info hlen => ?_)
  refine ⟨a.withInfo info, ?_, info, payload_of_none rfl, hlen ▸ h.fits⟩
  -- the length in front of the payload stays right
  rw [row_withInfo, RawAttribute.encode, ← List.append_assoc, hlen]
  rfl

/-- In a table the payloads of all rows are marked, while the count, the names and the lengths stay.
-/
theorem table_masked {pool : Pool} {attributes : List Attribute} (hlen : attributes.length ≤ 0xFFFF)
    (h : ∀ a ∈ attributes, a.Decoded pool) :
    Masked (tableMask attributes) (tableBytes attributes) (attributes.flatMap info) fun bytes' =>
      ∃ attributes' : List Attribute, tableBytes attributes' = bytes' ∧ Tabular attributes' := by
  have hrows : ∀ rows : List Attribute, RawAttribute.bytesOf (rows.map row)
      = rows.flatMap fun a => a.row.encode :=
    fun rows => List.flatMap_map row RawAttribute.encode rows
  rw [tableBytes, hrows]
  refine Masked.behind rfl ((Masked.flatMap fun a ha => masked (h a ha)).imp ?_)
  rintro _ ⟨attributes', rfl, hcount, hwritable⟩
  refine ⟨attributes', ?_, hcount ▸ hlen, hwritable⟩
  rw [tableBytes, hrows, hcount]

end Attribute

/-! ## Members -/

namespace Member

/-- The payloads in a member: they are in its table of attributes, behind three words. -/
def payloadMask (m : Member) : List Bool :=
  List.replicate 6 false ++ Attribute.tableMask m.attributes

def tableMask (members : List Member) : List Bool :=
  List.replicate 2 false ++ members.flatMap payloadMask

/-- The payloads of the attributes of a member, one after the other. -/
def payloads (m : Member) : Bytes := m.attributes.flatMap Attribute.info

/-- In a member nothing is marked but the payloads of its attributes. -/
theorem masked {pool : Pool} {m : Member} (htabular : Attribute.Tabular m.attributes)
    (h : m.Decoded pool) :
    Masked m.payloadMask m.bytes m.payloads fun bytes' =>
      ∃ m' : Member, m'.bytes = bytes' ∧ Attribute.Tabular m'.attributes := by
  have hbytes : ∀ attributes, ({ m with attributes } : Member).bytes
      = (Bytes.ofU2 m.flags ++ (Bytes.ofU2 m.nameIndex ++ Bytes.ofU2 m.descriptorIndex)) ++
        Attribute.tableBytes attributes := fun _ => rfl
  rw [hbytes m.attributes]
  refine Masked.behind rfl ((Attribute.table_masked htabular.length_le h).imp ?_)
  rintro _ ⟨attributes, rfl, hwritable⟩
  exact ⟨{ m with attributes }, hbytes attributes, hwritable⟩

theorem table_masked {pool : Pool} {members : List Member} (htabular : Tabular members)
    (h : ∀ m ∈ members, m.Decoded pool) :
    Masked (tableMask members) (tableBytes members) (members.flatMap payloads) fun bytes' =>
      ∃ members' : List Member, tableBytes members' = bytes' ∧ Tabular members' := by
  rw [tableBytes]
  refine Masked.behind rfl
    ((Masked.flatMap fun m hm => masked (htabular.attributes m hm) (h m hm)).imp ?_)
  rintro _ ⟨members', rfl, hcount, hattributes⟩
  refine ⟨members', ?_, hcount ▸ htabular.length_le, hattributes⟩
  rw [tableBytes, hcount]

end Member

/-! ## Class files -/

namespace ClassFile

/-- The bytes of the three tables of a class, with which its file ends. -/
def tables (k : ClassFile) : Bytes :=
  Member.tableBytes k.fields ++ (Member.tableBytes k.methods ++ Attribute.tableBytes k.attributes)

def tablesMask (k : ClassFile) : List Bool :=
  Member.tableMask k.fields ++ (Member.tableMask k.methods ++ Attribute.tableMask k.attributes)

/-- The payloads in a file of `length` bytes: they are in the tables at its end. -/
def payloadMask (k : ClassFile) (length : Nat) : List Bool :=
  List.replicate (length - k.tablesMask.length) false ++ k.tablesMask

/-- The payloads of all attributes of the class and of its members, in the order of the file. -/
def payloads (k : ClassFile) : Bytes :=
  k.fields.flatMap Member.payloads ++ (k.methods.flatMap Member.payloads ++
    k.attributes.flatMap Attribute.info)

/-- The class with other tables. -/
def withTables (k : ClassFile) (fields methods : List Member) (attributes : List Attribute) :
    ClassFile :=
  { k with fields, methods, attributes }

/-- A class whose tables are exchanged can be written as long as the tables can. -/
theorem Writable.withTables {k : ClassFile} (h : k.Writable) {fields methods : List Member}
    {attributes : List Attribute} (hfields : Member.Tabular fields)
    (hmethods : Member.Tabular methods) (hattributes : Attribute.Tabular attributes) :
    (k.withTables fields methods attributes).Writable :=
  ⟨h.wellFormed, h.storable, h.interfaces_le, hfields, hmethods, hattributes⟩

/-- The tables of fields, methods and attributes, one after the other. -/
theorem tables_masked {k : ClassFile} (h : k.Writable) (hdecoded : k.Decoded) :
    Masked k.tablesMask k.tables k.payloads fun bytes' =>
      ∃ fields methods attributes, (k.withTables fields methods attributes).tables = bytes' ∧
        (k.withTables fields methods attributes).Writable := by
  have hfields := Member.table_masked h.fields hdecoded.fields
  have hmethods := Member.table_masked h.methods hdecoded.methods
  have hattributes := Attribute.table_masked h.attributes.length_le hdecoded.attributes
  refine hfields.append (hmethods.append hattributes (Q := fun bytes' => ∃ methods attributes,
    Member.tableBytes methods ++ Attribute.tableBytes attributes = bytes' ∧
      Member.Tabular methods ∧ Attribute.Tabular attributes) ?_) ?_
  · rintro _ _ ⟨methods, rfl, htabular⟩ ⟨attributes, rfl, htabular'⟩
    exact ⟨methods, attributes, rfl, htabular, htabular'⟩
  · rintro _ _ ⟨fields, rfl, htabular⟩ ⟨methods, attributes, rfl, htabular', htabular''⟩
    exact ⟨fields, methods, attributes, rfl, h.withTables htabular htabular' htabular''⟩

/-- What stands in front of the tables in a file does not depend on the tables. -/
theorem exists_head {k : ClassFile} (h : k.Writable) :
    ∃ head, ∀ fields methods attributes, (k.withTables fields methods attributes).Writable →
      (k.withTables fields methods attributes).encode
        = .ok (head ++ (k.withTables fields methods attributes).tables) := by
  obtain ⟨front, hfront, -⟩ := Pool.read_encode h.wellFormed h.storable
  obtain ⟨words, hwords⟩ := Codec.words_eq_ok h.interfaces_le
  refine ⟨Bytes.ofU4 magic ++ (Bytes.ofU2 k.minor ++ (Bytes.ofU2 k.major ++ (front ++
    (Bytes.ofU2 k.flags ++ (Bytes.ofU2 k.thisClass ++ (Bytes.ofU2 k.superClass ++ words)))))),
    fun fields methods attributes h' => ?_⟩
  rw [encode_of_parts (k := k.withTables fields methods attributes) hfront hwords h'.fields
    h'.methods h'.attributes]
  simp only [List.append_assoc]
  rfl

/-- **The payloads of a class file can be overwritten with anything of the same length.** -/
theorem masked {data : Bytes} {k : ClassFile} (h : parse data = .ok k) :
    Masked (k.payloadMask data.length) data k.payloads fun data' => ∃ k', parse data' = .ok k' := by
  obtain ⟨hencode, hwritable, hdecoded⟩ := parse_sound h
  obtain ⟨head, hhead⟩ := exists_head hwritable
  have htables := tables_masked hwritable hdecoded
  obtain rfl : data = head ++ k.tables :=
    Except.ok.inj (hencode.symm.trans (hhead k.fields k.methods k.attributes hwritable))
  have hlen : head.length = (head ++ k.tables).length - k.tablesMask.length := by
    rw [List.length_append, htables.length_eq, Nat.add_sub_cancel]
  refine Masked.behind hlen (htables.imp ?_)
  rintro _ ⟨fields, methods, attributes, rfl, hwritable'⟩
  obtain ⟨data', pool, hencode', hparse, -⟩ := parse_encode hwritable'
  obtain rfl := Except.ok.inj (hencode'.symm.trans (hhead fields methods attributes hwritable'))
  exact ⟨_, hparse⟩

/-- **The layout of a file decides whether it is a class file.** A byte string that is none fails
with a fault in the layout, which is reported with an offset in the input or at its end. The
payloads of a class file can be overwritten with any bytes, and a class file it stays. -/
theorem parse_decided_by_layout (data : Bytes) :
    (∀ e, parse data = .error e →
      (e.fault.offset ≤ data.length ∧ e.fault.cause.isLayout = true) ∧
        e.message = e.place.message ++
          s!"invalid class file at offset {e.fault.offset}: {e.fault.cause.message}") ∧
      ∀ k, parse data = .ok k →
        select (k.payloadMask data.length) data = k.payloads ∧
          ∀ data', SameOutside (k.payloadMask data.length) data data' →
            ∃ k', parse data' = .ok k' := by
  refine ⟨fun e he => ⟨?_, rfl⟩, fun k hk => ?_⟩
  · obtain ⟨hoffset, hlayout⟩ := fault_of_parse he
    exact ⟨hoffset, hlayout⟩
  · have hmasked := masked hk
    exact ⟨hmasked.select_eq, hmasked.overwritten⟩

/-- `oddClass` with code and a constant that do not decode. -/
def garbledClass : Bytes :=
  oddClass.take 64 ++ (List.replicate 20 0xFF ++ ((oddClass.drop 84).take 8 ++ [3, 4]))

theorem parse_decided_by_layout_garbledClass :
    (∃ e, parse (oddClass.take 80) = .error e ∧ e.fault.offset ≤ 80) ∧
      ∃ k, parse oddClass = .ok k ∧ SameOutside (k.payloadMask 94) oddClass garbledClass ∧
        ∃ k', parse garbledClass = .ok k' := by
  constructor
  · obtain ⟨e, he⟩ : ∃ e, parse (oddClass.take 80) = .error e := ⟨_, rfl⟩
    exact ⟨e, he, ((parse_decided_by_layout _).1 e he).1.1⟩
  · obtain ⟨k, hk, hsame⟩ : ∃ k, parse oddClass = .ok k ∧
        SameOutside (k.payloadMask 94) oddClass garbledClass := ⟨_, rfl, by decide +kernel⟩
    exact ⟨k, hk, hsame, ((parse_decided_by_layout oddClass).2 k hk).2 garbledClass hsame⟩

end ClassFile

end ClassPrune
