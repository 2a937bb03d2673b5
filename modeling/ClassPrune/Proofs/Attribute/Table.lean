import ClassPrune.Attribute.Body
import ClassPrune.Proofs.Codec

/-!
# Attribute tables and the bodies that carry them

The formats of the raw structures in which attributes are nested, each with its reader in both
directions:

- `RawAttribute.Table`: a counted table of attributes.
- `Code.Spells`, `Component.Spells`, `Components`: a code body, a record component and the list
  of components.
- `Body.read_kind`: a reader gives bodies of its own kind only.
- `Body.nested`: the attributes in a body. In a file each of them is shorter than the payload
  around it (`Body.length_nested_lt`), which is why the depth of nesting is bounded.

Attributes are decoded from the outside to the inside: a body is read with raw rows first, and then
each row is decoded under the same pool. The formats here are about the raw rows. What is said of
`Body.nested` and `Body.map` is all that later modules use of the two bodies that have attributes.
-/

namespace ClassPrune

/-! ## Tables -/

namespace RawAttribute

/-- The bytes of one row of an attribute table. -/
def encode (raw : RawAttribute) : Bytes :=
  Bytes.ofU2 raw.nameIndex ++ (Bytes.ofU4 (UInt32.ofNat raw.info.length) ++ raw.info)

/-- The payload is not longer than readers accept. -/
def Fits (raw : RawAttribute) : Prop := raw.info.length ≤ 0x7FFFFFFF

/-- A row has six bytes besides its payload. -/
theorem length_encode (raw : RawAttribute) : raw.encode.length = 6 + raw.info.length := by
  rw [encode, List.length_append, List.length_append, Bytes.length_ofU2, Bytes.length_ofU4]
  omega

/-- The bytes of rows, one after the other. -/
def bytesOf (rows : List RawAttribute) : Bytes := rows.flatMap encode

theorem bytesOf_cons (row : RawAttribute) (rows : List RawAttribute) :
    bytesOf (row :: rows) = row.encode ++ bytesOf rows := rfl

theorem length_le_bytesOf {row : RawAttribute} {rows : List RawAttribute} (h : row ∈ rows) :
    row.encode.length ≤ (bytesOf rows).length := by
  induction rows with
  | nil => cases h
  | cons row' rows ih =>
    rw [bytesOf_cons, List.length_append]
    rcases List.mem_cons.mp h with rfl | h
    · omega
    · have := ih h
      omega

/-- A payload has the length that the row tells, and no payload is longer than the reader can hold.
-/
theorem readPayload_sound (ordinal : Nat) (length : UInt32) :
    Sound (readPayload ordinal length) fun front info =>
      front = info ∧ info.length = length.toNat ∧ info.length ≤ 0x7FFFFFFF := by
  intro c c' info h
  unfold readPayload at h
  obtain ⟨hshort, h⟩ := ite_error_eq_ok.mp h
  obtain ⟨front, hpass, hfront, hlen⟩ := bytesOr_sound _ _ h
  exact ⟨front, hpass, hfront, hlen, by omega⟩

/-- A payload of legal length is read to its end, whatever stands behind it. -/
theorem readPayload_reads (ordinal : Nat) {raw : RawAttribute} (h : raw.Fits) :
    Reads (readPayload ordinal (UInt32.ofNat raw.info.length)) raw.info raw.info := by
  have hle : raw.info.length ≤ 0x7FFFFFFF := h
  have hlen : (UInt32.ofNat raw.info.length).toNat = raw.info.length := by
    rw [UInt32.toNat_ofNat', Nat.mod_eq_of_lt (by omega)]
  intro pos rest
  unfold readPayload
  rw [if_neg (by omega), hlen]
  exact bytesOr_reads _ raw.info pos rest

/-- Rows that were read have legal lengths, and their bytes stand one behind the other. -/
theorem readRows_sound (n ordinal : Nat) :
    Sound (readRows n ordinal) fun front rows =>
      rows.length = n ∧ (∀ row ∈ rows, row.Fits) ∧ front = bytesOf rows := by
  induction n generalizing ordinal with
  | zero =>
    intro c c' rows h
    obtain ⟨rfl, rfl⟩ := run_pure_eq_ok.mp h
    exact ⟨[], .nil c, rfl, fun row hrow => (nomatch hrow), rfl⟩
  | succ n ih =>
    intro c c' rows h
    obtain ⟨nameIndex, d, hname, h⟩ := run_bind_eq_ok.mp h
    obtain ⟨length, d, hlength, h⟩ := run_bind_eq_ok.mp h
    obtain ⟨info, d, hinfo, h⟩ := run_bind_eq_ok.mp h
    obtain ⟨more, d, hmore, h⟩ := run_bind_eq_ok.mp h
    obtain ⟨rfl, rfl⟩ := run_pure_eq_ok.mp h
    -- the reads of one row, and then of the rows behind it
    obtain ⟨b₁, hpass₁, rfl⟩ := u2_sound hname
    obtain ⟨b₂, hpass₂, rfl⟩ := u4_sound hlength
    obtain ⟨b₃, hpass₃, rfl, hlen, hle⟩ := readPayload_sound ordinal length hinfo
    obtain ⟨b₄, hpass₄, hcount, hfits, rfl⟩ := ih (ordinal + 1) hmore
    refine ⟨_, hpass₁.trans (hpass₂.trans (hpass₃.trans hpass₄)), ?_, ?_, ?_⟩
    · rw [List.length_cons, hcount]
    · intro row hrow
      rcases List.mem_cons.mp hrow with rfl | hrow
      · exact hle
      · exact hfits row hrow
    · rw [bytesOf_cons, encode]
      simp only [hlen, UInt32.ofNat_toNat, List.append_assoc]

/-- Rows of legal lengths are read again from their bytes. -/
theorem readRows_reads (ordinal : Nat) {rows : List RawAttribute} (h : ∀ row ∈ rows, row.Fits) :
    Reads (readRows rows.length ordinal) (bytesOf rows) rows := by
  induction rows generalizing ordinal with
  | nil => exact Reads.pure []
  | cons row rows ih =>
    have hrow := readPayload_reads ordinal (h row List.mem_cons_self)
    have hrest := ih (ordinal + 1) fun row' hrow' => h row' (List.mem_cons_of_mem _ hrow')
    rw [bytesOf_cons, encode, List.append_assoc, List.append_assoc]
    exact (u2_reads _).bind ((u4_reads _).bind (hrow.bind (hrest.bind_pure _)))

/-- A counted table of attributes. -/
def Table (front : Bytes) (rows : List RawAttribute) : Prop :=
  rows.length ≤ 0xFFFF ∧ (∀ row ∈ rows, row.Fits) ∧
    front = Bytes.ofU2 (UInt16.ofNat rows.length) ++ bytesOf rows

/-- What a table was read from is a count and that many rows. -/
theorem readTable_sound : Sound readTable Table := by
  intro c c' rows h
  obtain ⟨count, d, hcount, h⟩ := run_bind_eq_ok.mp h
  obtain ⟨front, hpass, rfl⟩ := u2_sound hcount
  obtain ⟨back, hpass', hlen, hfits, rfl⟩ := readRows_sound count.toNat 0 h
  have hlt := count.toNat_lt
  refine ⟨_, hpass.trans hpass', by omega, hfits, ?_⟩
  rw [hlen, UInt16.ofNat_toNat]

/-- A table is read again, whatever stands behind it. -/
theorem readTable_complete : Complete readTable Table := by
  rintro front rows ⟨hlen, hfits, rfl⟩
  have hcount : (UInt16.ofNat rows.length).toNat = rows.length := by
    rw [UInt16.toNat_ofNat', Nat.mod_eq_of_lt (by omega)]
  have hread := readRows_reads 0 hfits
  rw [← hcount] at hread
  exact (u2_reads _).bind hread

/-- The payload of a row is shorter than the table around it. -/
theorem Table.length_lt {front : Bytes} {rows : List RawAttribute} (h : Table front rows)
    {row : RawAttribute} (hrow : row ∈ rows) : row.info.length < front.length := by
  obtain ⟨-, -, rfl⟩ := h
  have hle := length_le_bytesOf hrow
  rw [length_encode] at hle
  rw [List.length_append]
  omega

end RawAttribute

/-! ## Code and components -/

theorem ExceptionHandler.codec_lawful : ExceptionHandler.codec.Lawful :=
  Codec.iso_lawful
    (Codec.pair_lawful Codec.u2_lawful (Codec.pair_lawful Codec.u2_lawful
      (Codec.pair_lawful Codec.u2_lawful Codec.u2_lawful)))
    (fun _ => rfl) (fun _ => rfl)

namespace Code

variable {α β : Type}

/-- The same code with other attributes. -/
def withAttributes (c : Code α) (attributes : List β) : Code β :=
  ⟨c.maxStack, c.maxLocals, c.code, c.handlers, attributes⟩

/-- A code body in a file. -/
def Spells (front : Bytes) (c : Code RawAttribute) : Prop :=
  ∃ head table, c.writeHead = .ok head ∧ RawAttribute.Table table c.attributes ∧
    c.code.length ≤ 0xFFFFFFFF ∧ front = head ++ table

/-- The part of a code body in front of its attributes is written when the table of handlers can be
counted. -/
theorem writeHead_eq_ok {c : Code α} {head : Bytes} :
    c.writeHead = .ok head ↔ ∃ handlers, ExceptionHandler.codec.table2.Spells handlers c.handlers ∧
      head = Bytes.ofU2 c.maxStack ++ (Bytes.ofU2 c.maxLocals ++
        (Bytes.ofU4 (UInt32.ofNat c.code.length) ++ (c.code ++ handlers))) := by
  unfold writeHead
  rw [map_eq_ok]
  constructor
  · rintro ⟨handlers, hhandlers, rfl⟩
    exact ⟨handlers, hhandlers, rfl⟩
  · rintro ⟨handlers, hhandlers, rfl⟩
    exact ⟨handlers, hhandlers, rfl⟩

/-- The bytes that a code body was read from are its words, its code, its handlers and its
attributes. -/
theorem read_sound : Sound read Spells := by
  intro s s' c h
  obtain ⟨maxStack, d, hstack, h⟩ := run_bind_eq_ok.mp h
  obtain ⟨maxLocals, d, hlocals, h⟩ := run_bind_eq_ok.mp h
  obtain ⟨length, d, hlength, h⟩ := run_bind_eq_ok.mp h
  obtain ⟨code, d, hcode, h⟩ := run_bind_eq_ok.mp h
  obtain ⟨handlers, d, hhandlers, h⟩ := run_bind_eq_ok.mp h
  obtain ⟨attributes, d, hattributes, h⟩ := run_bind_eq_ok.mp h
  obtain ⟨rfl, rfl⟩ := run_pure_eq_ok.mp h
  obtain ⟨b₁, hpass₁, rfl⟩ := u2_sound hstack
  obtain ⟨b₂, hpass₂, rfl⟩ := u2_sound hlocals
  obtain ⟨b₃, hpass₃, rfl⟩ := u4_sound hlength
  obtain ⟨b₄, hpass₄, rfl, hlen⟩ := bytesOr_sound _ _ hcode
  obtain ⟨b₅, hpass₅, hspells⟩ :=
    (Codec.table2_lawful ExceptionHandler.codec_lawful).sound hhandlers
  obtain ⟨b₆, hpass₆, htable⟩ := RawAttribute.readTable_sound hattributes
  have hlt := length.toNat_lt
  refine ⟨_, hpass₁.trans (hpass₂.trans (hpass₃.trans (hpass₄.trans (hpass₅.trans hpass₆)))),
    _, b₆, writeHead_eq_ok.mpr ⟨b₅, hspells, rfl⟩, htable, ?_, ?_⟩
  · show b₄.length ≤ _
    omega
  · simp only [hlen, UInt32.ofNat_toNat, List.append_assoc]

/-- A code body is read again from such bytes. -/
theorem read_complete : Complete read Spells := by
  rintro front c ⟨head, table, hhead, htable, hcode, rfl⟩
  obtain ⟨handlers, hhandlers, rfl⟩ := writeHead_eq_ok.mp hhead
  have hlen : (UInt32.ofNat c.code.length).toNat = c.code.length := by
    rw [UInt32.toNat_ofNat', Nat.mod_eq_of_lt (by omega)]
  have hbytes : Reads (Reader.bytesOr (UInt32.ofNat c.code.length).toNat
      fun _ => .codeTooLong (UInt32.ofNat c.code.length)) c.code c.code := by
    rw [hlen]
    exact bytesOr_reads _ c.code
  have htail := (RawAttribute.readTable_complete htable).bind_pure
    (fun attributes => (⟨c.maxStack, c.maxLocals, c.code, c.handlers, attributes⟩ : Code _))
  simp only [List.append_assoc]
  exact (u2_reads _).bind ((u2_reads _).bind ((u4_reads _).bind (hbytes.bind
    (((Codec.table2_lawful ExceptionHandler.codec_lawful).complete hhandlers).bind htail))))

end Code

namespace Component

/-- A record component in a file. -/
def Spells (front : Bytes) (c : Component RawAttribute) : Prop :=
  ∃ table, RawAttribute.Table table c.attributes ∧
    front = Bytes.ofU2 c.nameIndex ++ (Bytes.ofU2 c.descriptorIndex ++ table)

/-- A record component is a name, a descriptor and a table of attributes. -/
theorem read_sound : Sound read Spells := by
  intro s s' c h
  obtain ⟨nameIndex, d, hname, h⟩ := run_bind_eq_ok.mp h
  obtain ⟨descriptorIndex, d, hdescriptor, h⟩ := run_bind_eq_ok.mp h
  obtain ⟨attributes, d, hattributes, h⟩ := run_bind_eq_ok.mp h
  obtain ⟨rfl, rfl⟩ := run_pure_eq_ok.mp h
  obtain ⟨b₁, hpass₁, rfl⟩ := u2_sound hname
  obtain ⟨b₂, hpass₂, rfl⟩ := u2_sound hdescriptor
  obtain ⟨b₃, hpass₃, htable⟩ := RawAttribute.readTable_sound hattributes
  exact ⟨_, hpass₁.trans (hpass₂.trans hpass₃), b₃, htable, rfl⟩

theorem read_complete : Complete read Spells := by
  rintro front c ⟨table, htable, rfl⟩
  exact (u2_reads _).bind ((u2_reads _).bind
    ((RawAttribute.readTable_complete htable).bind_pure _))

end Component

/-- The components of a record in a file. -/
def Components (front : Bytes) (components : List (Component RawAttribute)) : Prop :=
  components.length ≤ 0xFFFF ∧ ∃ rows, Rows Component.Spells rows components ∧
    front = Bytes.ofU2 (UInt16.ofNat components.length) ++ rows

/-! ## Bodies -/

/-- Code and records are the bodies with attributes of their own. -/
theorem LeafBody.kind_ne (body : LeafBody) : body.kind ≠ .code ∧ body.kind ≠ .record := by
  cases body with
  | annotations visibility _ | parameterAnnotations visibility _ | typeAnnotations visibility _ =>
    cases visibility <;> simp [kind]
  | _ => simp [kind]

namespace Body

variable {α β : Type}

/-- The attributes that a body carries. -/
def nested : Body α → List α
  | .leaf _ => []
  | .code c => c.attributes
  | .record components => components.flatMap Component.attributes

theorem readLeaf_eq_ok {make : α → LeafBody} {layout : Codec α} {c c' : Cursor}
    {body : Body RawAttribute} (h : readLeaf make layout c = .ok (body, c')) :
    ∃ v, body = .leaf (make v) := by
  obtain ⟨v, d, -, h⟩ := run_bind_eq_ok.mp h
  obtain ⟨rfl, rfl⟩ := run_pure_eq_ok.mp h
  exact ⟨v, rfl⟩

/-- A reader gives bodies of its own kind. -/
theorem read_kind {kind : AttributeKind} {c c' : Cursor} {body : Body RawAttribute}
    (h : read kind c = .ok (body, c')) : body.kind = kind := by
  cases kind with
  | code =>
    obtain ⟨code, d, -, h⟩ := run_bind_eq_ok.mp h
    obtain ⟨rfl, rfl⟩ := run_pure_eq_ok.mp h
    rfl
  | record =>
    obtain ⟨count, d, -, h⟩ := run_bind_eq_ok.mp h
    obtain ⟨components, d, -, h⟩ := run_bind_eq_ok.mp h
    obtain ⟨rfl, rfl⟩ := run_pure_eq_ok.mp h
    rfl
  | _ =>
    obtain ⟨v, rfl⟩ := readLeaf_eq_ok h
    rfl

/-- A whole payload is read to its end. -/
theorem ofPayload_eq_ok {kind : AttributeKind} {info : Bytes} {body : Body RawAttribute} :
    ofPayload kind info = .ok body ↔
      ∃ pos, read kind (.ofBytes info) = .ok (body, ⟨pos, []⟩) := by
  unfold ofPayload
  cases h : read kind (.ofBytes info) with
  | error fault => simp
  | ok p =>
    obtain ⟨body', pos, rest⟩ := p
    cases rest with
    | nil => simp
    | cons b rest => simp

/-- A payload decodes to a body of the kind that its name asks for. -/
theorem ofPayload_kind {kind : AttributeKind} {info : Bytes} {body : Body RawAttribute}
    (h : ofPayload kind info = .ok body) : body.kind = kind := by
  obtain ⟨pos, hread⟩ := ofPayload_eq_ok.mp h
  exact read_kind hread

/-- What a reader of a whole payload passes over is the payload. -/
theorem Passes.eq_info {info front : Bytes} {pos : Nat}
    (h : (Cursor.ofBytes info).Passes front ⟨pos, []⟩) : front = info := by
  have hrest : info = front ++ [] := h.rest_eq
  rw [hrest, List.append_nil]

/-- The payloads that decode to a code body are its spellings; no bytes may be left over. -/
theorem ofPayload_code {info : Bytes} {c : Code RawAttribute} :
    ofPayload .code info = .ok (.code c) ↔ Code.Spells info c := by
  rw [ofPayload_eq_ok]
  constructor
  · rintro ⟨pos, h⟩
    obtain ⟨code, d, hcode, h⟩ := run_bind_eq_ok.mp h
    obtain ⟨hbody, rfl⟩ := run_pure_eq_ok.mp h
    cases hbody
    obtain ⟨front, hpass, hspells⟩ := Code.read_sound hcode
    rw [← Passes.eq_info hpass]
    exact hspells
  · intro h
    have hread := (Code.read_complete h).bind_pure Body.code 0 []
    rw [List.append_nil] at hread
    exact ⟨_, hread⟩

theorem ofPayload_record {info : Bytes} {components : List (Component RawAttribute)} :
    ofPayload .record info = .ok (.record components) ↔ Components info components := by
  rw [ofPayload_eq_ok]
  constructor
  · rintro ⟨pos, h⟩
    obtain ⟨count, d, hcount, h⟩ := run_bind_eq_ok.mp h
    obtain ⟨components', d', hcomponents, h⟩ := run_bind_eq_ok.mp h
    obtain ⟨hbody, rfl⟩ := run_pure_eq_ok.mp h
    cases hbody
    obtain ⟨rows, hpass, hlen, hrows⟩ := counted_sound Component.read_sound hcount hcomponents
    exact ⟨hlen, rows, hrows, (Passes.eq_info hpass).symm⟩
  · rintro ⟨hlen, rows, hrows, rfl⟩
    have hcount : (UInt16.ofNat components.length).toNat = components.length := by
      rw [UInt16.toNat_ofNat', Nat.mod_eq_of_lt (by omega)]
    have htimes := times_complete Component.read_complete hrows
    rw [← hcount] at htimes
    have hreads : Reads (read .record)
        (Bytes.ofU2 (UInt16.ofNat components.length) ++ rows) (.record components) :=
      (u2_reads _).bind (htimes.bind_pure Body.record)
    have hread := hreads 0 []
    rw [List.append_nil] at hread
    exact ⟨_, hread⟩

/-- What is nested in a record component is shorter than the rows of all components. -/
theorem length_lt_of_rows {components : List (Component RawAttribute)} {rows : Bytes}
    (h : Rows Component.Spells rows components) {c : Component RawAttribute}
    (hc : c ∈ components) {raw : RawAttribute} (hraw : raw ∈ c.attributes) :
    raw.info.length < rows.length := by
  induction h with
  | nil => cases hc
  | cons head _ ih =>
    rw [List.length_append]
    rcases List.mem_cons.mp hc with rfl | hc
    · obtain ⟨table, htable, rfl⟩ := head
      have hlt := htable.length_lt hraw
      rw [List.length_append, List.length_append]
      omega
    · have hlt := ih hc
      omega

/-- An attribute nested in a payload is shorter than the payload. -/
theorem length_nested_lt {kind : AttributeKind} {info : Bytes} {body : Body RawAttribute}
    (h : ofPayload kind info = .ok body) {raw : RawAttribute} (hraw : raw ∈ body.nested) :
    raw.info.length < info.length := by
  have hkind := ofPayload_kind h
  subst hkind
  cases body with
  | leaf body => cases hraw
  | code c =>
    -- the head of the code stands in front of the table
    obtain ⟨head, table, -, htable, -, rfl⟩ := ofPayload_code.mp h
    have hlt := htable.length_lt hraw
    rw [List.length_append]
    omega
  | record components =>
    -- the count of the components stands in front of their rows
    obtain ⟨-, rows, hrows, rfl⟩ := ofPayload_record.mp h
    obtain ⟨c, hc, hmem⟩ := List.mem_flatMap.mp hraw
    have hlt := length_lt_of_rows hrows hc hmem
    rw [List.length_append]
    omega

theorem fits_of_rows {components : List (Component RawAttribute)} {rows : Bytes}
    (h : Rows Component.Spells rows components) {c : Component RawAttribute}
    (hc : c ∈ components) {raw : RawAttribute} (hraw : raw ∈ c.attributes) : raw.Fits := by
  induction h with
  | nil => cases hc
  | cons head _ ih =>
    rcases List.mem_cons.mp hc with rfl | hc
    · obtain ⟨table, ⟨-, hfits, -⟩, -⟩ := head
      exact hfits raw hraw
    · exact ih hc

/-- So has everything that is nested in a body that was read. -/
theorem fits_nested {kind : AttributeKind} {info : Bytes} {body : Body RawAttribute}
    (h : ofPayload kind info = .ok body) {raw : RawAttribute} (hraw : raw ∈ body.nested) :
    raw.Fits := by
  have hkind := ofPayload_kind h
  subst hkind
  cases body with
  | leaf body => cases hraw
  | code c =>
    obtain ⟨head, table, -, ⟨-, hfits, -⟩, -, -⟩ := ofPayload_code.mp h
    exact hfits raw hraw
  | record components =>
    obtain ⟨-, rows, hrows, -⟩ := ofPayload_record.mp h
    obtain ⟨c, hc, hmem⟩ := List.mem_flatMap.mp hraw
    exact fits_of_rows hrows hc hmem

theorem map_congr {f g : α → β} {body : Body α} (h : ∀ a ∈ body.nested, f a = g a) :
    body.map f = body.map g := by
  cases body with
  | leaf body => rfl
  | code c =>
    have hmap : c.attributes.map f = c.attributes.map g := List.map_congr_left h
    show Body.code (c.withAttributes _) = .code (c.withAttributes _)
    rw [hmap]
  | record components =>
    have hmap : components.map (Component.map f) = components.map (Component.map g) := by
      refine List.map_congr_left fun c hc => ?_
      have hattributes : c.attributes.map f = c.attributes.map g :=
        List.map_congr_left fun a ha => h a (List.mem_flatMap.mpr ⟨c, hc, ha⟩)
      show (⟨_, _, _⟩ : Component β) = ⟨_, _, _⟩
      rw [hattributes]
    show Body.record _ = .record _
    rw [hmap]

theorem map_map {γ : Type} (g : β → γ) (f : α → β) (body : Body α) :
    (body.map f).map g = body.map fun a => g (f a) := by
  cases body with
  | leaf body => rfl
  | code c =>
    show Body.code (c.withAttributes ((c.attributes.map f).map g)) = .code (c.withAttributes _)
    rw [List.map_map]
    rfl
  | record components =>
    show Body.record ((components.map (Component.map f)).map (Component.map g)) = .record _
    rw [List.map_map]
    congr 1
    refine List.map_congr_left fun c _ => ?_
    show (⟨_, _, (c.attributes.map f).map g⟩ : Component γ) = ⟨_, _, _⟩
    rw [List.map_map]
    rfl

/-- A pass that leaves each attribute alone leaves the body alone. -/
theorem map_eq_self {f : α → α} {body : Body α} (h : ∀ a ∈ body.nested, f a = a) :
    body.map f = body := by
  rw [map_congr (g := id) h]
  cases body with
  | leaf body => rfl
  | code c =>
    show Body.code (c.withAttributes (c.attributes.map id)) = .code c
    rw [List.map_id]
    rfl
  | record components =>
    have hid : components.map (Component.map id) = components := by
      refine (List.map_congr_left fun c _ => ?_).trans (List.map_id components)
      show (⟨_, _, c.attributes.map id⟩ : Component α) = c
      rw [List.map_id]
    show Body.record _ = .record _
    rw [hid]

theorem kind_map (f : α → β) (body : Body α) : (body.map f).kind = body.kind := by
  cases body <;> rfl

theorem mem_nested_map {f : α → β} {body : Body α} {b : β} :
    b ∈ (body.map f).nested ↔ ∃ a ∈ body.nested, f a = b := by
  cases body with
  | leaf body =>
    show b ∈ [] ↔ ∃ a ∈ [], f a = b
    simp
  | code c => exact List.mem_map
  | record components =>
    show b ∈ (components.map (Component.map f)).flatMap Component.attributes ↔ _
    rw [List.flatMap_map]
    simp only [List.mem_flatMap, nested]
    constructor
    · rintro ⟨c, hc, hb⟩
      obtain ⟨a, ha, rfl⟩ := List.mem_map.mp hb
      exact ⟨a, ⟨c, hc, ha⟩, rfl⟩
    · rintro ⟨a, ⟨c, hc, ha⟩, rfl⟩
      exact ⟨c, hc, List.mem_map_of_mem ha⟩

end Body

end ClassPrune
