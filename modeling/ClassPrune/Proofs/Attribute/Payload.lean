import ClassPrune.Attribute.Basic
import ClassPrune.Proofs.Attribute.Table

/-!
# Attributes and their payloads

- `Attribute.payload_ofPayload`: an attribute made from a payload is written as that payload,
  whether or not the payload decodes.
- `Attribute.Decoded`: an attribute is what its own payload decodes to. Such an attribute has a
  body only under a name of the body's kind (`Decoded.body`), and what is nested in it is decoded
  as well (`Decoded.nested`).
- `Attribute.encodeTable_eq_ok`: a table is written row by row.
- `Attribute.decoded_of_encodeBody`: the encoding of a body around decoded attributes decodes to
  that body again, even when no payload ever had these bytes.

An attribute keeps the bytes that it was read from beside its typed form, and it is written from the
typed form alone. What holds the two together is `Decoded`, which looks at nothing but the attribute
and the texts of the pool. It is the invariant of everything that is read, and the edits of later
modules are those that keep it or that weaken it in a known way.
-/

namespace ClassPrune

namespace Attribute

/-! ## Writing -/

/-- An attribute with a typed form is written from it, and the bytes that it came from no longer
count. -/
theorem payload_of_body {a : Attribute} {body : Body Attribute} (h : a.body = some body) :
    a.payload = encodeBody body := by
  obtain ⟨nameIndex, info, malformed, body'⟩ := a
  have h : body' = some body := h
  rw [h, payload]

/-- Without a typed form the bytes are kept. -/
theorem payload_of_none {a : Attribute} (h : a.body = none) : a.payload = .ok a.info := by
  obtain ⟨nameIndex, info, malformed, body'⟩ := a
  have h : body' = none := h
  rw [h, payload]

/-- The bytes of a code body: the part in front of its attributes, then their table. -/
theorem encodeBody_code (c : Code Attribute) :
    encodeBody (.code c) = (do
      let head ← c.writeHead
      let table ← encodeTable c.attributes
      return head ++ table) := by
  obtain ⟨maxStack, maxLocals, code, handlers, attributes⟩ := c
  rw [encodeBody]
  rfl

theorem encodeBody_record (components : List (Component Attribute)) :
    encodeBody (.record components)
      = Codec.withCount2 components.length (encodeComponents components) := by
  rw [encodeBody]

/-- A row of a table holds the name and the payload of an attribute. -/
def Stored (a : Attribute) (row : RawAttribute) : Prop :=
  row.nameIndex = a.nameIndex ∧ a.payload = .ok row.info

/-- A row of a table is written as long as its payload fits into the length word. -/
theorem encodeRow_eq_ok {nameIndex : PoolIndex} {payload bytes : Bytes} :
    encodeRow nameIndex payload = .ok bytes ↔
      payload.length ≤ 0xFFFFFFFF ∧ bytes = RawAttribute.encode ⟨nameIndex, payload⟩ := by
  rw [encodeRow, ite_error_eq_ok, Nat.not_lt]
  refine and_congr_right fun _ => ?_
  constructor
  · intro h
    exact (Except.ok.inj h).symm
  · rintro rfl
    rfl

/-- Attributes are written row by row. -/
theorem encodeRows_eq_ok {attributes : List Attribute} {bytes : Bytes} :
    encodeRows attributes = .ok bytes ↔
      ∃ rows, List.Forall₂ Stored attributes rows ∧
        (∀ row ∈ rows, row.info.length ≤ 0xFFFFFFFF) ∧ bytes = RawAttribute.bytesOf rows := by
  induction attributes generalizing bytes with
  | nil =>
    rw [encodeRows]
    constructor
    · intro h
      exact ⟨[], .nil, fun row hrow => (nomatch hrow), (Except.ok.inj h).symm⟩
    · rintro ⟨rows, hrows, -, rfl⟩
      cases hrows
      rfl
  | cons a attributes ih =>
    rw [encodeRows, bind_eq_ok]
    constructor
    · rintro ⟨info, hinfo, h⟩
      obtain ⟨row, hrow, h⟩ := bind_eq_ok.mp h
      obtain ⟨more, hmore, h⟩ := bind_eq_ok.mp h
      cases h
      obtain ⟨hle, rfl⟩ := encodeRow_eq_ok.mp hrow
      obtain ⟨rows, hrows, hlen, rfl⟩ := ih.mp hmore
      refine ⟨⟨a.nameIndex, info⟩ :: rows, .cons ⟨rfl, hinfo⟩ hrows, ?_, rfl⟩
      intro row hrow
      rcases List.mem_cons.mp hrow with rfl | hrow
      · exact hle
      · exact hlen row hrow
    · rintro ⟨rows, hrows, hlen, rfl⟩
      obtain ⟨row, more, ⟨hname, hinfo⟩, hmore, rfl⟩ := List.forall₂_cons_left_iff.mp hrows
      refine ⟨row.info, hinfo, bind_eq_ok.mpr ⟨row.encode, encodeRow_eq_ok.mpr ⟨?_, ?_⟩, ?_⟩⟩
      · exact hlen row List.mem_cons_self
      · rw [← hname]
      · refine bind_eq_ok.mpr ⟨_, ih.mpr ⟨more, hmore, ?_, rfl⟩, rfl⟩
        exact fun row' hrow' => hlen row' (List.mem_cons_of_mem _ hrow')

theorem encodeTable_eq_ok {attributes : List Attribute} {bytes : Bytes} :
    encodeTable attributes = .ok bytes ↔
      attributes.length ≤ 0xFFFF ∧ ∃ rows, List.Forall₂ Stored attributes rows ∧
        (∀ row ∈ rows, row.info.length ≤ 0xFFFFFFFF) ∧
        bytes = Bytes.ofU2 (UInt16.ofNat attributes.length) ++ RawAttribute.bytesOf rows := by
  rw [encodeTable, Codec.withCount2_eq_ok]
  constructor
  · rintro ⟨hlen, body, hbody, rfl⟩
    obtain ⟨rows, hrows, hle, rfl⟩ := encodeRows_eq_ok.mp hbody
    exact ⟨hlen, rows, hrows, hle, rfl⟩
  · rintro ⟨hlen, rows, hrows, hle, rfl⟩
    exact ⟨hlen, _, encodeRows_eq_ok.mpr ⟨rows, hrows, hle, rfl⟩, rfl⟩

/-! ## Reading -/

/-- A typed body is kept only when it reproduces the payload, so the payload is never lost. -/
theorem payload_ofBody (nameIndex : PoolIndex) (info : Bytes) (body : Body Attribute) :
    (ofBody nameIndex info body).payload = .ok info := by
  unfold ofBody
  cases hwrite : encodeBody body with
  | error e => exact payload_of_none rfl
  | ok written =>
    show (if written = info then _ else _ : Attribute).payload = .ok info
    by_cases heq : written = info
    · rw [if_pos heq, payload_of_body rfl, hwrite, heq]
    · rw [if_neg heq]
      exact payload_of_none rfl

/-- The name and the bytes of an attribute are kept in any case. -/
theorem nameIndex_ofBody (nameIndex : PoolIndex) (info : Bytes) (body : Body Attribute) :
    (ofBody nameIndex info body).nameIndex = nameIndex ∧
      (ofBody nameIndex info body).info = info := by
  unfold ofBody
  cases encodeBody body with
  | error e => exact ⟨rfl, rfl⟩
  | ok written =>
    show (if written = info then _ else _ : Attribute).nameIndex = nameIndex ∧
      (if written = info then _ else _ : Attribute).info = info
    split <;> exact ⟨rfl, rfl⟩

/-- More depth than the payload is long changes nothing. -/
theorem ofPayloadWithin_eq (pool : Pool) {d d' : Nat} {raw : RawAttribute}
    (h : raw.info.length < d) (h' : raw.info.length < d') :
    ofPayloadWithin pool d raw = ofPayloadWithin pool d' raw := by
  induction d generalizing d' raw with
  | zero => cases h
  | succ d ih =>
    cases d' with
    | zero => cases h'
    | succ d' =>
      rw [ofPayloadWithin, ofPayloadWithin]
      cases AttributeKind.ofName? (pool.utf8 raw.nameIndex) with
      | none => rfl
      | some kind =>
        cases hbody : Body.ofPayload kind raw.info with
        | error fault => simp only [hbody]
        | ok body =>
          -- what is nested is shorter than `raw`, so both depths are still enough for it
          have hmap : body.map (ofPayloadWithin pool d) = body.map (ofPayloadWithin pool d') := by
            refine Body.map_congr fun nested hnested => ?_
            have hlt := Body.length_nested_lt hbody hnested
            exact ih (by omega) (by omega)
          simp only [hbody, hmap]

/-- The attribute of a payload, without the bound on the depth. -/
theorem ofPayload_eq (pool : Pool) (raw : RawAttribute) :
    ofPayload pool raw =
      match AttributeKind.ofName? (pool.utf8 raw.nameIndex) with
      | none => ⟨raw.nameIndex, raw.info, false, none⟩
      | some kind =>
        match Body.ofPayload kind raw.info with
        | .ok body => ofBody raw.nameIndex raw.info (body.map (ofPayload pool))
        | .error _ => ⟨raw.nameIndex, raw.info, true, none⟩ := by
  rw [ofPayload, ofPayloadWithin]
  cases AttributeKind.ofName? (pool.utf8 raw.nameIndex) with
  | none => rfl
  | some kind =>
    cases hbody : Body.ofPayload kind raw.info with
    | error fault => simp only [hbody]
    | ok body =>
      have hmap : body.map (ofPayloadWithin pool raw.info.length) = body.map (ofPayload pool) := by
        refine Body.map_congr fun nested hnested => ?_
        exact ofPayloadWithin_eq pool (Body.length_nested_lt hbody hnested) (Nat.lt_succ_self _)
      simp only [hbody, hmap]

/-- Decoding looks at the pool only to find out what attributes are called. -/
theorem ofPayload_congr {pool pool' : Pool} (h : pool'.utf8 = pool.utf8) :
    ofPayload pool' = ofPayload pool := by
  have hwithin (d : Nat) : ofPayloadWithin pool' d = ofPayloadWithin pool d := by
    induction d with
    | zero => rfl
    | succ d ih =>
      funext raw
      rw [ofPayloadWithin, ofPayloadWithin, h, ih]
  funext raw
  rw [ofPayload, ofPayload, hwithin]

/-- **An attribute made from a payload is written as that payload.** -/
theorem payload_ofPayload (pool : Pool) (raw : RawAttribute) :
    (ofPayload pool raw).payload = .ok raw.info := by
  rw [ofPayload_eq]
  split
  · exact payload_of_none rfl
  · split
    · exact payload_ofBody _ _ _
    · exact payload_of_none rfl

theorem nameIndex_ofPayload (pool : Pool) (raw : RawAttribute) :
    (ofPayload pool raw).nameIndex = raw.nameIndex ∧ (ofPayload pool raw).info = raw.info := by
  rw [ofPayload_eq]
  split
  · exact ⟨rfl, rfl⟩
  · split
    · exact nameIndex_ofBody _ _ _
    · exact ⟨rfl, rfl⟩

/-! ## Decoded attributes -/

/-- The name and the payload that an attribute was read from. -/
def raw (a : Attribute) : RawAttribute := ⟨a.nameIndex, a.info⟩

/-- The attribute is what its own payload decodes to, and a file can hold that payload. -/
structure Decoded (pool : Pool) (a : Attribute) : Prop where
  eq : ofPayload pool a.raw = a
  fits : a.raw.Fits

/-- An attribute that was made from a payload of legal length is what its payload decodes to. -/
theorem decoded_ofPayload (pool : Pool) {raw : RawAttribute} (hfits : raw.Fits) :
    (ofPayload pool raw).Decoded pool := by
  have hraw : (ofPayload pool raw).raw = raw := by
    obtain ⟨hname, hinfo⟩ := nameIndex_ofPayload pool raw
    rw [Attribute.raw, hname, hinfo]
  constructor
  · rw [hraw]
  · rw [hraw]
    exact hfits

namespace Decoded

variable {pool : Pool} {a : Attribute}

theorem payload (h : a.Decoded pool) : a.payload = .ok a.info := by
  have hpayload := payload_ofPayload pool a.raw
  rw [h.eq] at hpayload
  exact hpayload

/-- A body is there only when the name asks for its kind and the payload decodes to it. -/
theorem body (h : a.Decoded pool) {body : Body Attribute} (hbody : a.body = some body) :
    a.malformed = false ∧ a.kind? pool = some body.kind ∧
      ∃ rawBody, Body.ofPayload body.kind a.info = .ok rawBody ∧
        body = rawBody.map (ofPayload pool) := by
  have heq := ofPayload_eq pool a.raw
  rw [h.eq] at heq
  split at heq
  · rw [heq] at hbody
    cases hbody
  · rename_i kind hkind
    split at heq
    · rename_i rawBody hraw
      -- a body is there, so it reproduced the payload
      have hform : a.malformed = false ∧ body = rawBody.map (ofPayload pool) := by
        rw [heq] at hbody ⊢
        unfold ofBody at hbody ⊢
        cases hwrite : encodeBody (rawBody.map (ofPayload pool)) with
        | error e =>
          simp only [hwrite] at hbody
          cases hbody
        | ok written =>
          simp only [hwrite] at hbody ⊢
          by_cases hsame : written = a.raw.info
          · rw [if_pos hsame] at hbody ⊢
            exact ⟨rfl, (Option.some.inj hbody).symm⟩
          · rw [if_neg hsame] at hbody
            cases hbody
      obtain ⟨hmalformed, rfl⟩ := hform
      have hkindBody : (rawBody.map (ofPayload pool)).kind = kind := by
        rw [Body.kind_map]
        exact Body.ofPayload_kind hraw
      rw [hkindBody]
      exact ⟨hmalformed, hkind, rawBody, hraw, rfl⟩
    · rw [heq] at hbody
      cases hbody

theorem kind?_of_body (h : a.Decoded pool) {body : Body Attribute} (hbody : a.body = some body) :
    a.kind? pool = some body.kind := (h.body hbody).2.1

/-- What is nested in a decoded attribute is decoded. -/
theorem nested (h : a.Decoded pool) {body : Body Attribute} (hbody : a.body = some body)
    {b : Attribute} (hb : b ∈ body.nested) : b.Decoded pool := by
  obtain ⟨-, -, rawBody, hraw, rfl⟩ := h.body hbody
  obtain ⟨raw, hmem, rfl⟩ := Body.mem_nested_map.mp hb
  exact decoded_ofPayload pool (Body.fits_nested hraw hmem)

/-- The only row that stores a decoded attribute is the one that it was read from. -/
theorem raw_of_stored (h : a.Decoded pool) {row : RawAttribute} (hrow : Stored a row) :
    row = a.raw := by
  obtain ⟨nameIndex, info⟩ := row
  obtain ⟨hname, hinfo⟩ := hrow
  have hname : nameIndex = a.nameIndex := hname
  rw [h.payload] at hinfo
  have hinfo : a.info = info := Except.ok.inj hinfo
  rw [Attribute.raw, hname, hinfo]

end Decoded

/-! ## Bodies around decoded attributes -/

/-- A row that a decoded attribute is written as is the row that it was made from. -/
theorem rows_of_decoded {pool : Pool} {attributes : List Attribute} {rows : List RawAttribute}
    (h : List.Forall₂ Stored attributes rows) (hdecoded : ∀ a ∈ attributes, a.Decoded pool) :
    rows = attributes.map raw := by
  induction h with
  | nil => rfl
  | cons hrow _ ih =>
    rw [List.map_cons, (hdecoded _ List.mem_cons_self).raw_of_stored hrow,
      ih fun a ha => hdecoded a (List.mem_cons_of_mem _ ha)]

/-- The encoding of decoded attributes is a table of the rows that they were read from. -/
theorem table_of_encodeTable {pool : Pool} {attributes : List Attribute} {bytes : Bytes}
    (h : encodeTable attributes = .ok bytes) (hdecoded : ∀ a ∈ attributes, a.Decoded pool) :
    RawAttribute.Table bytes (attributes.map raw) := by
  obtain ⟨hlen, rows, hrows, -, rfl⟩ := encodeTable_eq_ok.mp h
  have hrows' := rows_of_decoded hrows hdecoded
  subst hrows'
  rw [← List.length_map raw] at hlen ⊢
  refine ⟨hlen, ?_, rfl⟩
  intro row hrow
  obtain ⟨a, ha, rfl⟩ := List.mem_map.mp hrow
  exact (hdecoded a ha).fits

/-- Record components with decoded attributes are written as the components that they were made
from. -/
theorem rows_of_encodeComponents {pool : Pool} {components : List (Component Attribute)}
    {bytes : Bytes} (h : encodeComponents components = .ok bytes)
    (hdecoded : ∀ c ∈ components, ∀ a ∈ c.attributes, a.Decoded pool) :
    Rows Component.Spells bytes (components.map (Component.map raw)) := by
  induction components generalizing bytes with
  | nil =>
    rw [encodeComponents] at h
    cases h
    exact .nil
  | cons c components ih =>
    obtain ⟨nameIndex, descriptorIndex, attributes⟩ := c
    rw [encodeComponents] at h
    obtain ⟨table, htable, h⟩ := bind_eq_ok.mp h
    obtain ⟨more, hmore, h⟩ := bind_eq_ok.mp h
    cases h
    -- the rows of a component spell its raw form
    have hspells : Component.Spells (Bytes.ofU2 nameIndex ++ (Bytes.ofU2 descriptorIndex ++ table))
        (Component.map raw ⟨nameIndex, descriptorIndex, attributes⟩) :=
      ⟨table, table_of_encodeTable htable (hdecoded _ List.mem_cons_self), rfl⟩
    have hrows := Rows.cons hspells
      (ih hmore fun c hc => hdecoded c (List.mem_cons_of_mem _ hc))
    simp only [List.append_assoc] at hrows
    exact hrows

/-- The encoding of a body around decoded attributes spells that body. -/
theorem ofPayload_encodeBody {pool : Pool} {body : Body Attribute} {info : Bytes}
    (h : encodeBody body = .ok info) (hnested : ∀ a ∈ body.nested, a.Decoded pool)
    (hcode : ∀ c, body = .code c → c.code.length ≤ 0xFFFFFFFF)
    (hleaf : ∀ leaf, body ≠ .leaf leaf) :
    Body.ofPayload body.kind info = .ok (body.map raw) := by
  cases body with
  | leaf leaf => exact absurd rfl (hleaf leaf)
  | code c =>
    rw [encodeBody_code] at h
    obtain ⟨head, hhead, h⟩ := bind_eq_ok.mp h
    obtain ⟨table, htable, h⟩ := bind_eq_ok.mp h
    cases h
    exact Body.ofPayload_code.mpr
      ⟨head, table, hhead, table_of_encodeTable htable hnested, hcode c rfl, rfl⟩
  | record components =>
    rw [encodeBody_record, Codec.withCount2_eq_ok] at h
    obtain ⟨hlen, rows, hrows, rfl⟩ := h
    have hspells := rows_of_encodeComponents hrows fun c hc a ha =>
      hnested a (List.mem_flatMap.mpr ⟨c, hc, ha⟩)
    rw [← List.length_map (Component.map raw)] at hlen ⊢
    exact Body.ofPayload_record.mpr ⟨hlen, rows, hspells, rfl⟩

/-- **A body around decoded attributes comes back from its encoding**, even when no payload ever
had these bytes. -/
theorem decoded_of_encodeBody {pool : Pool} {body : Body Attribute} {nameIndex : PoolIndex}
    {info : Bytes} (h : encodeBody body = .ok info)
    (hkind : AttributeKind.ofName? (pool.utf8 nameIndex) = some body.kind)
    (hnested : ∀ a ∈ body.nested, a.Decoded pool)
    (hcode : ∀ c, body = .code c → c.code.length ≤ 0xFFFFFFFF)
    (hleaf : ∀ leaf, body ≠ .leaf leaf) (hfits : info.length ≤ 0x7FFFFFFF) :
    Decoded pool ⟨nameIndex, info, false, some body⟩ := by
  refine ⟨?_, hfits⟩
  have hraw := ofPayload_encodeBody h hnested hcode hleaf
  -- what is nested was decoded from its own row, and is decoded from it again
  have hmap : (body.map raw).map (ofPayload pool) = body := by
    rw [Body.map_map]
    exact Body.map_eq_self fun a ha => (hnested a ha).eq
  rw [ofPayload_eq]
  simp only [Attribute.raw, hkind, hraw, hmap, ofBody, h, if_true]

end Attribute

end ClassPrune
