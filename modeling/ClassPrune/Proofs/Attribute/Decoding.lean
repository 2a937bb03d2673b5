import ClassPrune.Proofs.Attribute.Leaf
import ClassPrune.Proofs.Attribute.Payload

/-!
# Decoding attributes is exact

A payload that decodes is written again from its typed form alone. The comparison that is made
before a typed form is kept therefore never fails, and an attribute is malformed exactly when its
payload does not decode.

- `Attribute.encodeBody_ofPayload`: a decoded body is written as the payload.
- `Attribute.Made`, `Attribute.made_ofPayload`: the three ways in which an attribute is made.
- `Outcome.Holds`: what each of the three says of an attribute; `Attribute.Contains` reaches the
  attributes in it at any depth.
- `Attribute.decodeBody_exact`: decoding is exact, and each attribute, wherever it is nested, has
  exactly one outcome.
-/

namespace ClassPrune

namespace Attribute

/-! ## Decoded bodies are written as they were read -/

/-- An attribute that was just made from a row of a table is written as that row. -/
theorem stored_ofPayload (pool : Pool) (raw : RawAttribute) : Stored (ofPayload pool raw) raw :=
  ⟨(nameIndex_ofPayload pool raw).1.symm, payload_ofPayload pool raw⟩

/-- A table that was read is written as its bytes, its attributes decoded or not. -/
theorem encodeTable_ofPayload (pool : Pool) {table : Bytes} {rows : List RawAttribute}
    (h : RawAttribute.Table table rows) :
    encodeTable (rows.map (ofPayload pool)) = .ok table := by
  obtain ⟨hlen, hfits, rfl⟩ := h
  have hstored : List.Forall₂ Stored (rows.map (ofPayload pool)) rows :=
    List.forall₂_map_left_iff.mpr (List.forall₂_same.mpr fun raw _ => stored_ofPayload pool raw)
  rw [← List.length_map (ofPayload pool)] at hlen ⊢
  refine encodeTable_eq_ok.mpr ⟨hlen, rows, hstored, ?_, rfl⟩
  intro row hrow
  have hrow : row.info.length ≤ 0x7FFFFFFF := hfits row hrow
  omega

/-- Decoding the attributes of record components does not change what is written for the components.
-/
theorem encodeComponents_ofPayload (pool : Pool) {bytes : Bytes}
    {components : List (Component RawAttribute)} (h : Rows Component.Spells bytes components) :
    encodeComponents (components.map (Component.map (ofPayload pool))) = .ok bytes := by
  induction h with
  | nil => rw [List.map_nil, encodeComponents]
  | @cons front back c components head _ ih =>
    obtain ⟨table, htable, rfl⟩ := head
    rw [List.map_cons, Component.map, encodeComponents]
    refine bind_eq_ok.mpr ⟨table, encodeTable_ofPayload pool htable, ?_⟩
    refine bind_eq_ok.mpr ⟨back, ih, ?_⟩
    simp only [List.append_assoc]
    rfl

/-- **A body that a payload decodes to is written as that payload.** -/
theorem encodeBody_ofPayload (pool : Pool) {kind : AttributeKind} {info : Bytes}
    {body : Body RawAttribute} (h : Body.ofPayload kind info = .ok body) :
    encodeBody (body.map (ofPayload pool)) = .ok info := by
  have hkind := Body.ofPayload_kind h
  subst hkind
  cases body with
  | leaf leaf =>
    rw [Body.map, encodeBody]
    exact Body.ofPayload_leaf h
  | code c =>
    obtain ⟨head, table, hhead, htable, -, rfl⟩ := Body.ofPayload_code.mp h
    rw [Body.map, encodeBody_code]
    exact bind_eq_ok.mpr
      ⟨head, hhead, bind_eq_ok.mpr ⟨table, encodeTable_ofPayload pool htable, rfl⟩⟩
  | record components =>
    obtain ⟨hlen, rows, hrows, rfl⟩ := Body.ofPayload_record.mp h
    rw [Body.map, encodeBody_record, List.length_map]
    exact Codec.withCount2_eq_ok.mpr ⟨hlen, rows, encodeComponents_ofPayload pool hrows, rfl⟩

/-- **Decoding loses nothing.** The typed form alone gives the payload back, byte for byte. -/
theorem encodeBody_of_decodeBody {pool : Pool} {name : String} {info : Bytes}
    {body : Body Attribute} (h : decodeBody pool name info = .ok body) :
    encodeBody body = .ok info := by
  unfold decodeBody at h
  split at h
  · cases h
  · split at h
    · rename_i hraw
      cases h
      exact encodeBody_ofPayload pool hraw
    · cases h

/-! ## The ways in which an attribute is made -/

/-- The attribute that is made of a name index and a payload. -/
inductive Made (pool : Pool) (raw : RawAttribute) : Attribute → Prop
  | unknown (name : AttributeKind.ofName? (pool.utf8 raw.nameIndex) = none) :
    Made pool raw ⟨raw.nameIndex, raw.info, false, none⟩
  | parsed {kind : AttributeKind} {body : Body RawAttribute}
    (name : AttributeKind.ofName? (pool.utf8 raw.nameIndex) = some kind)
    (decodes : Body.ofPayload kind raw.info = .ok body) :
    Made pool raw ⟨raw.nameIndex, raw.info, false, some (body.map (ofPayload pool))⟩
  | malformed {kind : AttributeKind} {fault : Fault}
    (name : AttributeKind.ofName? (pool.utf8 raw.nameIndex) = some kind)
    (fails : Body.ofPayload kind raw.info = .error fault) :
    Made pool raw ⟨raw.nameIndex, raw.info, true, none⟩

/-- The comparison with the payload never rejects a body. -/
theorem made_ofPayload (pool : Pool) (raw : RawAttribute) : Made pool raw (ofPayload pool raw) := by
  rw [ofPayload_eq]
  cases hname : AttributeKind.ofName? (pool.utf8 raw.nameIndex) with
  | none => exact .unknown hname
  | some kind =>
    cases hbody : Body.ofPayload kind raw.info with
    | error fault =>
      simp only [hbody]
      exact .malformed hname hbody
    | ok body =>
      simp only [hbody, ofBody, encodeBody_ofPayload pool hbody, if_true]
      exact .parsed hname hbody

/-! ## Outcomes -/

end Attribute

/-- How an attribute came out of decoding. -/
inductive Outcome where
  /-- The name has no typed form. -/
  | unknown
  | parsed
  | malformed
  deriving DecidableEq, Repr

namespace Outcome

/-- What the outcome says of an attribute. -/
def Holds (pool : Pool) (a : Attribute) : Outcome → Prop
  | .unknown => a.kind? pool = none ∧ a.malformed = false ∧ a.body = none
  | .parsed => ∃ body, decodeBody pool (a.name pool) a.info = .ok body ∧ a.malformed = false ∧
    a.body = some body ∧ a.payload = .ok a.info
  | .malformed => a.kind? pool ≠ none ∧
    (∃ fault, decodeBody pool (a.name pool) a.info = .error fault) ∧ a.malformed = true ∧
    a.body = none

/-- The mark and the typed form of an attribute tell which outcome it had. -/
theorem Holds.traces {pool : Pool} {a : Attribute} {o : Outcome} (h : o.Holds pool a) :
    a.malformed = (o == .malformed) ∧ a.body.isSome = (o == .parsed) := by
  cases o with
  | unknown =>
    obtain ⟨-, hmalformed, hbody⟩ := h
    rw [hmalformed, hbody]
    exact ⟨rfl, rfl⟩
  | parsed =>
    obtain ⟨body, -, hmalformed, hbody, -⟩ := h
    rw [hmalformed, hbody]
    exact ⟨rfl, rfl⟩
  | malformed =>
    obtain ⟨-, -, hmalformed, hbody⟩ := h
    rw [hmalformed, hbody]
    exact ⟨rfl, rfl⟩

theorem eq_of_traces : ∀ {o o' : Outcome}, (o == .malformed) = (o' == .malformed) →
    (o == .parsed) = (o' == .parsed) → o = o' := by
  intro o o'
  cases o <;> cases o' <;> decide

/-- No attribute has two outcomes. -/
theorem Holds.unique {pool : Pool} {a : Attribute} {o o' : Outcome} (h : o.Holds pool a)
    (h' : o'.Holds pool a) : o = o' := by
  obtain ⟨hmalformed, hbody⟩ := h.traces
  obtain ⟨hmalformed', hbody'⟩ := h'.traces
  exact eq_of_traces (hmalformed.symm.trans hmalformed') (hbody.symm.trans hbody')

end Outcome

namespace Attribute

/-- The attribute itself, and those in its body at any depth. -/
inductive Contains (a : Attribute) : Attribute → Prop
  | self : Contains a a
  | nested {b c : Attribute} {body : Body Attribute} (outer : Contains a b)
    (hbody : b.body = some body) (hmem : c ∈ body.nested) : Contains a c

/-- Whatever is nested in an attribute was made of a payload itself. -/
theorem Contains.exists_made {pool : Pool} {raw : RawAttribute} {a : Attribute}
    (h : (ofPayload pool raw).Contains a) : ∃ raw', a = ofPayload pool raw' := by
  induction h with
  | self => exact ⟨raw, rfl⟩
  | @nested b c body _ hbody hmem ih =>
    obtain ⟨raw', rfl⟩ := ih
    have hmade := made_ofPayload pool raw'
    generalize ofPayload pool raw' = b at hbody hmade
    cases hmade with
    | unknown _ => cases hbody
    | malformed _ _ => cases hbody
    | parsed _ _ =>
      cases hbody
      obtain ⟨inner, -, rfl⟩ := Body.mem_nested_map.mp hmem
      exact ⟨inner, rfl⟩

theorem exists_outcome (pool : Pool) (raw : RawAttribute) :
    ∃ o : Outcome, o.Holds pool (ofPayload pool raw) := by
  have hpayload := payload_ofPayload pool raw
  have hmade := made_ofPayload pool raw
  generalize ofPayload pool raw = a at hpayload hmade
  cases hmade with
  | unknown name => exact ⟨.unknown, name, rfl, rfl⟩
  | @parsed kind body name decodes =>
    refine ⟨.parsed, body.map (ofPayload pool), ?_, rfl, rfl, hpayload⟩
    unfold decodeBody Attribute.name
    simp only [name, decodes]
  | @malformed kind fault name fails =>
    refine ⟨.malformed, ?_, ⟨fault, ?_⟩, rfl, rfl⟩
    · unfold kind? Attribute.name
      simp only [name, ne_eq, reduceCtorEq, not_false_eq_true]
    · unfold decodeBody Attribute.name
      simp only [name, fails]

/-- **Decoding is exact.** A body that is decoded is written as the payload. So each attribute
that is made of a payload, and each that is nested in one, is of an unknown name, or parsed and
written as it was, or malformed since its payload does not decode: one of the three, and only
one. -/
theorem decodeBody_exact (pool : Pool) :
    (∀ name info body, decodeBody pool name info = .ok body → encodeBody body = .ok info) ∧
      ∀ raw a, (ofPayload pool raw).Contains a → ∃! o : Outcome, o.Holds pool a := by
  refine ⟨fun name info body h => encodeBody_of_decodeBody h, fun raw a h => ?_⟩
  obtain ⟨raw', rfl⟩ := h.exists_made
  obtain ⟨o, ho⟩ := exists_outcome pool raw'
  exact ⟨o, ho, fun o' ho' => ho'.unique ho⟩

/-- The names of the attributes of `nestedCode`. -/
def codePool : Pool where
  cells := #[⟨.utf8 [0x43, 0x6F, 0x64, 0x65], 1⟩,
    ⟨.utf8 [0x4C, 0x69, 0x6E, 0x65, 0x4E, 0x75, 0x6D, 0x62, 0x65, 0x72, 0x54, 0x61, 0x62, 0x6C,
      0x65], 2⟩]
  slots := #[some 0, some 1]

/-- The code of a method with two tables of line numbers, of which the first is cut short. -/
def nestedCode : Bytes :=
  [0x00, 0x01, 0x00, 0x01, 0x00, 0x00, 0x00, 0x01, 0xB1, 0x00, 0x00, 0x00, 0x02,
    0x00, 0x02, 0x00, 0x00, 0x00, 0x03, 0x00, 0x01, 0x00,
    0x00, 0x02, 0x00, 0x00, 0x00, 0x06, 0x00, 0x01, 0x00, 0x00, 0x00, 0x07]

theorem decodeBody_exact_nestedCode :
    (∃ body, decodeBody codePool "Code" nestedCode = .ok body ∧ encodeBody body = .ok nestedCode) ∧
      ∃ a, (ofPayload codePool ⟨1, nestedCode⟩).Contains a ∧ a.malformed = true ∧
        ∃! o : Outcome, o.Holds codePool a := by
  obtain ⟨hexact, houtcome⟩ := decodeBody_exact codePool
  have hdecode : ∃ body, decodeBody codePool "Code" nestedCode = .ok body := ⟨_, rfl⟩
  have hcontains : ∃ a, (ofPayload codePool ⟨1, nestedCode⟩).Contains a ∧ a.malformed = true :=
    ⟨_, .nested .self rfl List.mem_cons_self, rfl⟩
  obtain ⟨body, hbody⟩ := hdecode
  obtain ⟨a, ha, hmalformed⟩ := hcontains
  exact ⟨⟨body, hbody, hexact _ _ _ hbody⟩, a, ha, hmalformed, houtcome _ _ ha⟩

end Attribute

end ClassPrune
