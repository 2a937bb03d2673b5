import ClassPrune.Class.Writing
import ClassPrune.Proofs.Attribute.Payload
import ClassPrune.Proofs.Pool.RoundTrip

/-!
# Class files: writing what was read, reading what was written

- `ClassFile.read_sound`: what is read from a byte string is written as that byte string, and it
  is `Writable` and `Decoded`.
- `ClassFile.read_encode`: a writable class is written, and reading gives back its `reread`, in
  front of anything: the same header and members around a pool with the same constants, and the
  attributes that the written payloads decode to.
- `ClassFile.parse_encode`: the same for the written bytes alone.

So parsing and then writing is the identity on bytes. Both directions follow the layout of the
file from the attribute tables outwards: table, member, list of members, class. What a part has to
satisfy to be written and read again is stated for each of them (`Tabular`, `Writable`), and nothing
in it refers to the bytes that the part may once have been read from.
-/

namespace ClassPrune

namespace Attribute

/-! ## Attribute tables -/

/-- The row of a table that an attribute is written as. -/
def row (a : Attribute) : RawAttribute := ⟨a.nameIndex, a.payload.toOption.getD a.info⟩

/-- What an attribute becomes when it is written and read back. -/
def reread (pool : Pool) (a : Attribute) : Attribute := ofPayload pool a.row

/-- The attribute can be written, and read back afterwards. -/
def Writable (a : Attribute) : Prop := ∃ info, a.payload = .ok info ∧ info.length ≤ 0x7FFFFFFF

/-- The row of an attribute holds its payload, if there is one. -/
theorem row_of_payload {a : Attribute} {info : Bytes} (h : a.payload = .ok info) :
    a.row = ⟨a.nameIndex, info⟩ := by
  rw [row, h]
  rfl

/-- A decoded attribute is written as the row that it was read from. -/
theorem Decoded.row_eq {pool : Pool} {a : Attribute} (h : a.Decoded pool) : a.row = a.raw :=
  row_of_payload h.payload

theorem Decoded.writable {pool : Pool} {a : Attribute} (h : a.Decoded pool) : a.Writable :=
  ⟨a.info, h.payload, h.fits⟩

theorem Writable.fits {a : Attribute} (h : a.Writable) : a.row.Fits := by
  obtain ⟨info, hinfo, hle⟩ := h
  rw [row_of_payload hinfo]
  exact hle

theorem Writable.stored {a : Attribute} (h : a.Writable) : Stored a a.row := by
  obtain ⟨info, hinfo, -⟩ := h
  rw [row_of_payload hinfo]
  exact ⟨rfl, hinfo⟩

theorem forall₂_stored_row {attributes : List Attribute} (h : ∀ a ∈ attributes, a.Writable) :
    List.Forall₂ Stored attributes (attributes.map row) := by
  induction attributes with
  | nil => exact .nil
  | cons a attributes ih =>
    exact .cons (h a List.mem_cons_self).stored (ih fun b hb => h b (List.mem_cons_of_mem _ hb))

/-- The attributes fit into one table. -/
structure Tabular (attributes : List Attribute) : Prop where
  length_le : attributes.length ≤ 0xFFFF
  writable : ∀ a ∈ attributes, a.Writable

/-- The bytes of a table of writable attributes. -/
def tableBytes (attributes : List Attribute) : Bytes :=
  Bytes.ofU2 (UInt16.ofNat attributes.length) ++ RawAttribute.bytesOf (attributes.map row)

/-- A table within the limits is written as its count and its rows. -/
theorem Tabular.encodeTable {attributes : List Attribute} (h : Tabular attributes) :
    encodeTable attributes = .ok (tableBytes attributes) := by
  refine encodeTable_eq_ok.mpr ⟨h.length_le, _, forall₂_stored_row h.writable, ?_, rfl⟩
  intro row hrow
  obtain ⟨a, ha, rfl⟩ := List.mem_map.mp hrow
  have hfits : a.row.info.length ≤ 0x7FFFFFFF := (h.writable a ha).fits
  omega

/-- A table that was read is within the limits, is written as the bytes that it was read from, and
its attributes are decoded. -/
theorem readTable_sound (pool : Pool) : Sound (readTable pool) fun front attributes =>
    encodeTable attributes = .ok front ∧ Tabular attributes ∧
      ∀ a ∈ attributes, a.Decoded pool := by
  intro c c' attributes h
  obtain ⟨rows, d, hrows, h⟩ := run_bind_eq_ok.mp h
  obtain ⟨rfl, rfl⟩ := run_pure_eq_ok.mp h
  obtain ⟨front, hpass, hlen, hfits, rfl⟩ := RawAttribute.readTable_sound hrows
  have hdecoded : ∀ a ∈ rows.map (ofPayload pool), a.Decoded pool := by
    intro a ha
    obtain ⟨raw, hraw, rfl⟩ := List.mem_map.mp ha
    exact decoded_ofPayload pool (hfits raw hraw)
  have htabular : Tabular (rows.map (ofPayload pool)) := by
    refine ⟨?_, fun a ha => (hdecoded a ha).writable⟩
    rw [List.length_map]
    exact hlen
  -- the rows that are written are the rows that were read
  have hback : (rows.map (ofPayload pool)).map row = rows := by
    rw [List.map_map]
    refine (List.map_congr_left fun raw _ => ?_).trans (List.map_id rows)
    exact row_of_payload (payload_ofPayload pool raw) |>.trans
      (by rw [(nameIndex_ofPayload pool raw).1]; rfl)
  refine ⟨_, hpass, ?_, htabular, hdecoded⟩
  rw [htabular.encodeTable, tableBytes, hback, List.length_map]

/-- A table within the limits is read again, each attribute from the payload that it was written
with. -/
theorem readTable_reads (pool : Pool) {attributes : List Attribute} (h : Tabular attributes) :
    Reads (readTable pool) (tableBytes attributes) (attributes.map (reread pool)) := by
  have htable : RawAttribute.Table (tableBytes attributes) (attributes.map row) := by
    refine ⟨?_, ?_, ?_⟩
    · rw [List.length_map]
      exact h.length_le
    · intro raw hraw
      obtain ⟨a, ha, rfl⟩ := List.mem_map.mp hraw
      exact (h.writable a ha).fits
    · rw [List.length_map]
      rfl
  have hreads := (RawAttribute.readTable_complete htable).bind_pure
    (fun rows : List RawAttribute => rows.map (ofPayload pool))
  rw [List.map_map] at hreads
  exact hreads

end Attribute

open Attribute (Tabular tableBytes)

/-! ## Members -/

/-- A place in front of an error does not change what is written. -/
theorem writeWithin_eq_ok {place : WritePlace} {part : Except WriteError Bytes} {bytes : Bytes} :
    writeWithin place part = .ok bytes ↔ part = .ok bytes := by
  cases part with
  | ok found => exact ⟨fun h => by cases h; rfl, fun h => by cases h; rfl⟩
  | error reason => exact ⟨fun h => (nomatch h), fun h => (nomatch h)⟩

namespace Member

/-- What a member becomes when it is written and read back. -/
def reread (pool : Pool) (m : Member) : Member :=
  { m with attributes := m.attributes.map (Attribute.reread pool) }

/-- Every attribute of the member is what its payload decodes to. -/
def Decoded (pool : Pool) (m : Member) : Prop := ∀ a ∈ m.attributes, a.Decoded pool

/-- The bytes of a member with writable attributes. -/
def bytes (m : Member) : Bytes :=
  Bytes.ofU2 m.flags ++ (Bytes.ofU2 m.nameIndex ++ (Bytes.ofU2 m.descriptorIndex ++
    tableBytes m.attributes))

theorem encode_of_tabular {m : Member} (h : Tabular m.attributes) : m.encode = .ok m.bytes := by
  rw [encode, h.encodeTable]
  rfl

/-- A member that was read is written as the bytes that it was read from. -/
theorem read_sound (pool : Pool) : Sound (Member.read pool) fun front m =>
    m.encode = .ok front ∧ Tabular m.attributes ∧ m.Decoded pool := by
  intro c c' m h
  obtain ⟨flags, d, hflags, h⟩ := run_bind_eq_ok.mp h
  obtain ⟨nameIndex, d, hname, h⟩ := run_bind_eq_ok.mp h
  obtain ⟨descriptorIndex, d, hdescriptor, h⟩ := run_bind_eq_ok.mp h
  obtain ⟨attributes, d, hattributes, h⟩ := run_bind_eq_ok.mp h
  obtain ⟨rfl, rfl⟩ := run_pure_eq_ok.mp h
  obtain ⟨b₁, hpass₁, rfl⟩ := u2_sound hflags
  obtain ⟨b₂, hpass₂, rfl⟩ := u2_sound hname
  obtain ⟨b₃, hpass₃, rfl⟩ := u2_sound hdescriptor
  obtain ⟨b₄, hpass₄, htable, htabular, hdecoded⟩ := Attribute.readTable_sound pool hattributes
  refine ⟨_, hpass₁.trans (hpass₂.trans (hpass₃.trans hpass₄)), ?_, htabular, hdecoded⟩
  rw [encode, htable]
  rfl

/-- A member is read again from its bytes, in front of anything. -/
theorem read_reads (pool : Pool) {m : Member} (h : Tabular m.attributes) :
    Reads (Member.read pool) m.bytes (m.reread pool) :=
  (u2_reads _).bind ((u2_reads _).bind ((u2_reads _).bind
    ((Attribute.readTable_reads pool h).bind_pure _)))

/-- Members that were read are as many as were asked for, and are written one after the other. The
places of errors play no part. -/
theorem readMany_sound (pool : Pool) (place : Nat → Place) (writePlace : Nat → WritePlace)
    (n ordinal : Nat) : Sound (readMany pool place n ordinal) fun front members =>
      members.length = n ∧ encodeMany writePlace ordinal members = .ok front ∧
        ∀ m ∈ members, Tabular m.attributes ∧ m.Decoded pool := by
  induction n generalizing ordinal with
  | zero =>
    intro c c' members h
    obtain ⟨rfl, rfl⟩ := run_pure_eq_ok.mp h
    exact ⟨[], .nil c, rfl, rfl, fun m hm => (nomatch hm)⟩
  | succ n ih =>
    intro c c' members h
    obtain ⟨m, d, hm, h⟩ := run_bind_eq_ok.mp h
    obtain ⟨more, d', hmore, h⟩ := run_bind_eq_ok.mp h
    obtain ⟨rfl, rfl⟩ := run_pure_eq_ok.mp h
    obtain ⟨front, hpass, hencode, hmember⟩ := Sound.within (read_sound pool) (place ordinal) hm
    obtain ⟨back, hpass', hlen, hback, hmembers⟩ := ih (ordinal + 1) hmore
    -- the place counts only where something fails
    refine ⟨front ++ back, hpass.trans hpass', ?_, ?_, ?_⟩
    · rw [List.length_cons, hlen]
    · rw [encodeMany]
      exact bind_eq_ok.mpr ⟨front, writeWithin_eq_ok.mpr hencode,
        bind_eq_ok.mpr ⟨back, hback, rfl⟩⟩
    · intro m' hm'
      rcases List.mem_cons.mp hm' with rfl | hm'
      · exact hmember
      · exact hmembers m' hm'

theorem encodeMany_of_tabular (place : Nat → WritePlace) :
    ∀ (ordinal : Nat) {members : List Member}, (∀ m ∈ members, Tabular m.attributes) →
      encodeMany place ordinal members = .ok (members.flatMap bytes)
  | _, [], _ => rfl
  | ordinal, m :: members, h => by
    rw [encodeMany]
    refine bind_eq_ok.mpr ⟨m.bytes, ?_, bind_eq_ok.mpr ⟨members.flatMap bytes, ?_, rfl⟩⟩
    · exact writeWithin_eq_ok.mpr (encode_of_tabular (h m List.mem_cons_self))
    · exact encodeMany_of_tabular place (ordinal + 1) fun m' hm' =>
        h m' (List.mem_cons_of_mem _ hm')

/-- Members are read again in their order, each with its own number for errors. -/
theorem readMany_reads (pool : Pool) (place : Nat → Place) :
    ∀ (ordinal : Nat) {members : List Member}, (∀ m ∈ members, Tabular m.attributes) →
      Reads (readMany pool place members.length ordinal) (members.flatMap bytes)
        (members.map (reread pool))
  | _, [], _ => Reads.pure []
  | ordinal, m :: members, h => by
    have hhead := (read_reads pool (h m List.mem_cons_self)).within (place ordinal)
    have htail := readMany_reads pool place (ordinal + 1) fun m' hm' =>
      h m' (List.mem_cons_of_mem _ hm')
    exact hhead.bind (htail.bind_pure (m.reread pool :: ·))

/-- The members fit into one table. -/
structure Tabular (members : List Member) : Prop where
  length_le : members.length ≤ 0xFFFF
  attributes : ∀ m ∈ members, Attribute.Tabular m.attributes

/-- The bytes of a table of members. -/
def tableBytes (members : List Member) : Bytes :=
  Bytes.ofU2 (UInt16.ofNat members.length) ++ members.flatMap bytes

/-- A table of members is written when it can be counted and each member can be written. -/
theorem encodeTable_eq_ok {place : Nat → WritePlace} {members : List Member} {table : Bytes} :
    encodeTable place members = .ok table ↔
      members.length ≤ 0xFFFF ∧ ∃ rows, encodeMany place 0 members = .ok rows ∧
        table = Bytes.ofU2 (UInt16.ofNat members.length) ++ rows := by
  unfold encodeTable
  refine ite_error_eq_ok.trans ?_
  rw [Nat.not_lt]
  refine and_congr_right fun _ => ?_
  constructor
  · intro h
    obtain ⟨rows, hrows, h⟩ := bind_eq_ok.mp h
    cases h
    exact ⟨rows, hrows, rfl⟩
  · rintro ⟨rows, hrows, rfl⟩
    exact bind_eq_ok.mpr ⟨rows, hrows, rfl⟩

theorem Tabular.encodeTable {members : List Member} (h : Tabular members)
    (place : Nat → WritePlace) : encodeTable place members = .ok (tableBytes members) :=
  encodeTable_eq_ok.mpr ⟨h.length_le, _, encodeMany_of_tabular place 0 h.attributes, rfl⟩

theorem Tabular.readMany_reads {members : List Member} (h : Tabular members) (pool : Pool)
    (place : Nat → Place) :
    Reads (readMany pool place (UInt16.ofNat members.length).toNat 0) (members.flatMap bytes)
      (members.map (reread pool)) := by
  have hle := h.length_le
  rw [UInt16.toNat_ofNat', Nat.mod_eq_of_lt (by omega)]
  exact Member.readMany_reads pool place 0 h.attributes

end Member

/-! ## Classes -/

namespace ClassFile

/-- The class can be written, and read back afterwards. -/
structure Writable (k : ClassFile) : Prop where
  wellFormed : k.pool.WellFormed
  storable : k.pool.Storable
  interfaces_le : k.interfaces.length ≤ 0xFFFF
  fields : Member.Tabular k.fields
  methods : Member.Tabular k.methods
  attributes : Tabular k.attributes

/-- Every attribute of the class and of its members is what its payload decodes to. -/
structure Decoded (k : ClassFile) : Prop where
  fields : ∀ f ∈ k.fields, f.Decoded k.pool
  methods : ∀ m ∈ k.methods, m.Decoded k.pool
  attributes : ∀ a ∈ k.attributes, a.Decoded k.pool

/-- What a class becomes when it is written and read back; `pool` is the pool that is read. -/
def reread (pool : Pool) (k : ClassFile) : ClassFile :=
  { k with
    pool
    fields := k.fields.map (Member.reread pool)
    methods := k.methods.map (Member.reread pool)
    attributes := k.attributes.map (Attribute.reread pool) }

/-- Only the four bytes of a class file are let pass. -/
theorem readMagic_sound : Sound readMagic fun front _ => front = Bytes.ofU4 magic := by
  intro c c' u h
  obtain ⟨start, d, hstart, h⟩ := run_bind_eq_ok.mp h
  cases hstart
  obtain ⟨found, d, hfound, h⟩ := run_bind_eq_ok.mp h
  obtain ⟨front, hpass, rfl⟩ := u4_sound hfound
  by_cases hmagic : found ≠ magic
  · rw [if_pos hmagic] at h
    cases h
  · rw [if_neg hmagic] at h
    obtain ⟨-, rfl⟩ := run_pure_eq_ok.mp h
    rw [not_not] at hmagic
    exact ⟨_, hpass, by rw [hmagic]⟩

theorem readMagic_reads : Reads readMagic (Bytes.ofU4 magic) () := by
  intro pos rest
  refine run_bind_eq_ok.mpr ⟨pos, _, rfl, ?_⟩
  refine run_bind_eq_ok.mpr ⟨magic, _, u4_reads magic pos rest, ?_⟩
  rw [if_neg (not_not.mpr rfl)]
  rfl

/-- What is read from a byte string is written as that byte string. -/
theorem read_sound : Sound ClassFile.read fun front k =>
    k.encode = .ok front ∧ k.Writable ∧ k.Decoded := by
  intro c c' k h
  obtain ⟨u, d, hmagic, h⟩ := run_bind_eq_ok.mp h
  obtain ⟨minor, d, hminor, h⟩ := run_bind_eq_ok.mp h
  obtain ⟨major, d, hmajor, h⟩ := run_bind_eq_ok.mp h
  obtain ⟨pool, d, hpool, h⟩ := run_bind_eq_ok.mp h
  obtain ⟨flags, d, hflags, h⟩ := run_bind_eq_ok.mp h
  obtain ⟨thisClass, d, hthis, h⟩ := run_bind_eq_ok.mp h
  obtain ⟨superClass, d, hsuper, h⟩ := run_bind_eq_ok.mp h
  obtain ⟨interfaces, d, hinterfaces, h⟩ := run_bind_eq_ok.mp h
  obtain ⟨fieldCount, d, hfieldCount, h⟩ := run_bind_eq_ok.mp h
  obtain ⟨fields, d, hfields, h⟩ := run_bind_eq_ok.mp h
  obtain ⟨methodCount, d, hmethodCount, h⟩ := run_bind_eq_ok.mp h
  obtain ⟨methods, d, hmethods, h⟩ := run_bind_eq_ok.mp h
  obtain ⟨attributes, d, hattributes, h⟩ := run_bind_eq_ok.mp h
  obtain ⟨rfl, rfl⟩ := run_pure_eq_ok.mp h
  -- what each field was read from, in the order of the file
  obtain ⟨b₁, hpass₁, rfl⟩ := readMagic_sound.within .file hmagic
  obtain ⟨b₂, hpass₂, rfl⟩ := u2_sound.within .file hminor
  obtain ⟨b₃, hpass₃, rfl⟩ := u2_sound.within .file hmajor
  obtain ⟨b₄, hpass₄, hencode, hwell, hstorable⟩ := Pool.read_sound hpool
  obtain ⟨b₅, hpass₅, rfl⟩ := u2_sound.within .file hflags
  obtain ⟨b₆, hpass₆, rfl⟩ := u2_sound.within .file hthis
  obtain ⟨b₇, hpass₇, rfl⟩ := u2_sound.within .file hsuper
  obtain ⟨b₈, hpass₈, hwords⟩ := Sound.within Codec.words_lawful.sound .file hinterfaces
  obtain ⟨b₉, hpass₉, rfl⟩ := u2_sound.within .classAttributes hfieldCount
  obtain ⟨b₁₀, hpass₁₀, hfieldLen, hfieldBytes, hfieldRows⟩ :=
    Member.readMany_sound pool _ WritePlace.field _ _ hfields
  obtain ⟨b₁₁, hpass₁₁, rfl⟩ := u2_sound.within .classAttributes hmethodCount
  obtain ⟨b₁₂, hpass₁₂, hmethodLen, hmethodBytes, hmethodRows⟩ :=
    Member.readMany_sound pool _ WritePlace.method _ _ hmethods
  obtain ⟨b₁₃, hpass₁₃, htable, htabular, hdecoded⟩ :=
    Sound.within (Attribute.readTable_sound pool) .classAttributes hattributes
  -- the tables of members are written with the counts that were read
  have hfieldLt := fieldCount.toNat_lt
  have hmethodLt := methodCount.toNat_lt
  have hfieldTable : Member.encodeTable .field fields = .ok (Bytes.ofU2 fieldCount ++ b₁₀) := by
    refine Member.encodeTable_eq_ok.mpr ⟨by omega, b₁₀, hfieldBytes, ?_⟩
    rw [hfieldLen, UInt16.ofNat_toNat]
  have hmethodTable : Member.encodeTable .method methods = .ok (Bytes.ofU2 methodCount ++ b₁₂) := by
    refine Member.encodeTable_eq_ok.mpr ⟨by omega, b₁₂, hmethodBytes, ?_⟩
    rw [hmethodLen, UInt16.ofNat_toNat]
  refine ⟨_, hpass₁.trans (hpass₂.trans (hpass₃.trans (hpass₄.trans (hpass₅.trans (hpass₆.trans
    (hpass₇.trans (hpass₈.trans (hpass₉.trans (hpass₁₀.trans (hpass₁₁.trans
      (hpass₁₂.trans hpass₁₃))))))))))), ?_, ?_, ?_⟩
  · refine bind_eq_ok.mpr ⟨b₄, writeWithin_eq_ok.mpr hencode,
      bind_eq_ok.mpr ⟨b₈, writeWithin_eq_ok.mpr hwords, bind_eq_ok.mpr ⟨_, hfieldTable,
        bind_eq_ok.mpr ⟨_, hmethodTable, bind_eq_ok.mpr ⟨b₁₃, writeWithin_eq_ok.mpr htable, ?_⟩⟩⟩⟩⟩
    simp only [List.append_assoc]
    rfl
  · obtain ⟨hinterfaces, -⟩ := Codec.withCount2_eq_ok.mp hwords
    have hfieldTabular : Member.Tabular fields :=
      ⟨by omega, fun f hf => (hfieldRows f hf).1⟩
    have hmethodTabular : Member.Tabular methods :=
      ⟨by omega, fun m hm => (hmethodRows m hm).1⟩
    exact ⟨hwell, hstorable, hinterfaces, hfieldTabular, hmethodTabular, htabular⟩
  · exact ⟨fun f hf => (hfieldRows f hf).2, fun m hm => (hmethodRows m hm).2, hdecoded⟩

/-- A byte string is parsed when reading takes all of it. -/
theorem parse_eq_ok {data : Bytes} {k : ClassFile} :
    parse data = .ok k ↔ ∃ pos, ClassFile.read (.ofBytes data) = .ok (k, ⟨pos, []⟩) := by
  unfold parse
  cases h : ClassFile.read (.ofBytes data) with
  | error e => simp
  | ok p =>
    obtain ⟨k', pos, rest⟩ := p
    cases rest with
    | nil => simp
    | cons b rest => simp

/-- What parsing gives is written as what was parsed, and can be written after changes that only
take away. -/
theorem parse_sound {data : Bytes} {k : ClassFile} (h : parse data = .ok k) :
    k.encode = .ok data ∧ k.Writable ∧ k.Decoded := by
  obtain ⟨pos, hread⟩ := parse_eq_ok.mp h
  obtain ⟨front, hpass, hencode, hwritable, hdecoded⟩ := read_sound hread
  rw [Body.Passes.eq_info hpass] at hencode
  exact ⟨hencode, hwritable, hdecoded⟩

/-- The bytes of a class with the given bytes of its pool and its interfaces. -/
theorem encode_of_parts {k : ClassFile} {front words : Bytes} (hpool : k.pool.encode = .ok front)
    (hwords : Codec.words.write k.interfaces = .ok words) (hfields : Member.Tabular k.fields)
    (hmethods : Member.Tabular k.methods) (hattributes : Tabular k.attributes) :
    k.encode = .ok (Bytes.ofU4 magic ++ (Bytes.ofU2 k.minor ++ (Bytes.ofU2 k.major ++ (front ++
      (Bytes.ofU2 k.flags ++ (Bytes.ofU2 k.thisClass ++ (Bytes.ofU2 k.superClass ++
        (words ++ (Member.tableBytes k.fields ++ (Member.tableBytes k.methods ++
          tableBytes k.attributes)))))))))) :=
  bind_eq_ok.mpr ⟨front, writeWithin_eq_ok.mpr hpool,
    bind_eq_ok.mpr ⟨words, writeWithin_eq_ok.mpr hwords,
      bind_eq_ok.mpr ⟨_, hfields.encodeTable .field,
        bind_eq_ok.mpr ⟨_, hmethods.encodeTable .method,
          bind_eq_ok.mpr ⟨_, writeWithin_eq_ok.mpr hattributes.encodeTable, rfl⟩⟩⟩⟩⟩

/-- The bytes that a writable class is written as are read back as that class, whatever follows
them. -/
theorem read_encode {k : ClassFile} (h : k.Writable) :
    ∃ data, k.encode = .ok data ∧ ∀ rest, ∃ pool,
      ClassFile.read (.ofBytes (data ++ rest)) = .ok (k.reread pool, ⟨data.length, rest⟩) ∧
        pool.WellFormed ∧ pool.Storable ∧ k.pool.SameConstants pool := by
  obtain ⟨front, hfront, hread⟩ := Pool.read_encode h.wellFormed h.storable
  obtain ⟨words, hwords⟩ := Codec.words_eq_ok h.interfaces_le
  let back := Bytes.ofU2 k.flags ++ (Bytes.ofU2 k.thisClass ++ (Bytes.ofU2 k.superClass ++
    (words ++ (Member.tableBytes k.fields ++ (Member.tableBytes k.methods ++
      tableBytes k.attributes)))))
  let data := Bytes.ofU4 magic ++ (Bytes.ofU2 k.minor ++ (Bytes.ofU2 k.major ++ (front ++ back)))
  refine ⟨data, encode_of_parts hfront hwords h.fields h.methods h.attributes, fun rest => ?_⟩
  -- the pool is read behind the magic number and the version
  obtain ⟨pool, hpool, hwell, hstorable, hsame⟩ := hread (0 + 4 + 2 + 2) (back ++ rest)
  have hrun : ∃ pos, ClassFile.read (.ofBytes (data ++ rest))
      = .ok (k.reread pool, ⟨pos, rest⟩) := by
    simp only [data, back, Member.tableBytes, List.append_assoc] at hpool ⊢
    apply Exists.intro
    refine run_bind_eq_ok.mpr ⟨(), _, readMagic_reads.within .file 0 _, ?_⟩
    refine run_bind_eq_ok.mpr ⟨k.minor, _, (u2_reads _).within .file _ _, ?_⟩
    refine run_bind_eq_ok.mpr ⟨k.major, _, (u2_reads _).within .file _ _, ?_⟩
    refine run_bind_eq_ok.mpr ⟨pool, _, hpool, ?_⟩
    refine run_bind_eq_ok.mpr ⟨k.flags, _, (u2_reads _).within .file _ _, ?_⟩
    refine run_bind_eq_ok.mpr ⟨k.thisClass, _, (u2_reads _).within .file _ _, ?_⟩
    refine run_bind_eq_ok.mpr ⟨k.superClass, _, (u2_reads _).within .file _ _, ?_⟩
    refine run_bind_eq_ok.mpr ⟨k.interfaces, _,
      Reads.within (Codec.words_lawful.complete hwords) .file _ _, ?_⟩
    refine run_bind_eq_ok.mpr ⟨_, _, (u2_reads _).within .classAttributes _ _, ?_⟩
    refine run_bind_eq_ok.mpr ⟨_, _, h.fields.readMany_reads pool .field _ _, ?_⟩
    refine run_bind_eq_ok.mpr ⟨_, _, (u2_reads _).within .classAttributes _ _, ?_⟩
    refine run_bind_eq_ok.mpr ⟨_, _, h.methods.readMany_reads pool .method _ _, ?_⟩
    exact run_bind_eq_ok.mpr ⟨_, _,
      (Attribute.readTable_reads pool h.attributes).within .classAttributes _ _, rfl⟩
  -- what was passed over is all that stood in front of the rest
  obtain ⟨pos, hrun⟩ := hrun
  obtain ⟨passed, hpass, -⟩ := read_sound hrun
  obtain rfl : data = passed := List.append_cancel_right hpass.rest_eq
  have hpos : pos = data.length := hpass.pos_eq.trans (Nat.zero_add _)
  rw [hpos] at hrun
  exact ⟨pool, hrun, hwell, hstorable, hsame⟩

/-- **A writable class is written, and reading gives it back.** -/
theorem parse_encode {k : ClassFile} (h : k.Writable) :
    ∃ data pool, k.encode = .ok data ∧ parse data = .ok (k.reread pool) ∧
      pool.WellFormed ∧ pool.Storable ∧ k.pool.SameConstants pool := by
  obtain ⟨data, hdata, hread⟩ := read_encode h
  obtain ⟨pool, hpool, hwell⟩ := hread []
  rw [List.append_nil] at hpool
  exact ⟨data, pool, hdata, parse_eq_ok.mpr ⟨_, hpool⟩, hwell⟩

/-- **Parsing and then writing is the identity on bytes**: no count, length, index, wide slot,
nested attribute or undecodable text of a class file is lost or moved. -/
theorem encode_of_parse {data : Bytes} {k : ClassFile} (h : parse data = .ok k) :
    k.encode = .ok data :=
  (parse_sound h).1

/-- A class file with a forward reference, a two-slot constant, text that does not decode, code
around an unknown attribute, and an attribute with a payload of the wrong form. -/
def oddClass : Bytes :=
  [0xCA, 0xFE, 0xBA, 0xBE, 0, 0, 0, 52,
    0, 7, 7, 0, 5, 5, 0, 0, 0, 1, 0, 0, 0, 2, 1, 0, 4, 67, 111, 100, 101, 1, 0, 2, 0xFF, 0xFE,
    1, 0, 1, 88,
    0, 0x21, 0, 1, 0, 0, 0, 0,
    0, 0,
    0, 1, 0, 1, 0, 6, 0, 6, 0, 1,
    0, 4, 0, 0, 0, 20, 0, 1, 0, 1, 0, 0, 0, 1, 0xB1, 0, 0, 0, 1, 0, 6, 0, 0, 0, 1, 7,
    0, 1, 0, 4, 0, 0, 0, 2, 1, 2]

theorem encode_of_parse_oddClass :
    ∃ k, parse oddClass = .ok k ∧ k.encode = .ok oddClass := by
  have hparse : ∃ k, parse oddClass = .ok k := ⟨_, rfl⟩
  obtain ⟨k, hk⟩ := hparse
  exact ⟨k, hk, encode_of_parse hk⟩

end ClassFile

end ClassPrune
