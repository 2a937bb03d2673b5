import ClassPrune.Attribute.Annotations
import ClassPrune.Proofs.Codec

/-!
# Annotations that were read

What an annotation was read from is what it is written as, however deep its values are nested and
whatever depth the reader was told.

- `ElementValue.read_sound`: element values, by induction on the depth.
- `AnnotationUse.codec_sound`, `TypeAnnotationUse.codec_sound`: annotations, and annotations on
  types.

Values hold annotations and annotations hold values. The format of an annotation is therefore a
relation over the format of its values (`AnnotationSpelled`), and the induction on the depth runs
over values only. Nothing is assumed about the depth: a reader that is told too little fails, and
then there is nothing to show.
-/

namespace ClassPrune

/-! ## Annotations around values -/

/-- The bytes of an element name and a value. -/
def PairSpelled {α : Type} (P : Bytes → α → Prop) (bytes : Bytes) (pair : PoolIndex × α) : Prop :=
  ∃ back, P back pair.2 ∧ bytes = Bytes.ofU2 pair.1 ++ back

/-- The bytes of an annotation, given what spells its values. -/
def AnnotationSpelled {α : Type} (P : Bytes → α → Prop) (bytes : Bytes) (a : AnnotationOf α) :
    Prop :=
  a.pairs.length ≤ 0xFFFF ∧ ∃ rows, Rows (PairSpelled P) rows a.pairs ∧
    bytes = Bytes.ofU2 a.typeIndex ++ (Bytes.ofU2 (UInt16.ofNat a.pairs.length) ++ rows)

/-- The reader of annotations follows the format around values, whatever the format of the values
is. -/
theorem readAnnotationUse_sound {α : Type} {value : Reader α} {P : Bytes → α → Prop}
    (hvalue : Sound value P) : Sound (readAnnotationUse value) (AnnotationSpelled P) := by
  intro c c' a h
  obtain ⟨typeIndex, d, htype, h⟩ := run_bind_eq_ok.mp h
  obtain ⟨count, d, hcount, h⟩ := run_bind_eq_ok.mp h
  obtain ⟨pairs, d, hpairs, h⟩ := run_bind_eq_ok.mp h
  obtain ⟨rfl, rfl⟩ := run_pure_eq_ok.mp h
  have hpair : Sound
      (do
        let name ← Reader.u2
        let v ← value
        return (name, v)) (PairSpelled P) := by
    intro s s' pair h
    obtain ⟨name, e, hname, h⟩ := run_bind_eq_ok.mp h
    obtain ⟨v, e, hv, h⟩ := run_bind_eq_ok.mp h
    obtain ⟨rfl, rfl⟩ := run_pure_eq_ok.mp h
    obtain ⟨front, hpass, rfl⟩ := u2_sound hname
    obtain ⟨back, hpass', hback⟩ := hvalue hv
    exact ⟨_, hpass.trans hpass', back, hback, rfl⟩
  obtain ⟨front, hpass, rfl⟩ := u2_sound htype
  obtain ⟨rows, hpass', hlen, hrows⟩ := counted_sound hpair hcount hpairs
  exact ⟨_, hpass.trans hpass', hlen, rows, hrows, rfl⟩

/-! ## Element values -/

namespace ElementValue

/-- The bytes that a value is written as. -/
def Spells (bytes : Bytes) (v : ElementValue) : Prop := v.write = .ok bytes

/-- The values of an array are written one behind the other. -/
theorem writeValues_of_rows {values : List ElementValue} {bytes : Bytes}
    (h : Rows Spells bytes values) : writeValues values = .ok bytes := by
  induction h with
  | nil => rw [writeValues]
  | cons head _ ih =>
    rw [writeValues]
    exact bind_eq_ok.mpr ⟨_, head, bind_eq_ok.mpr ⟨_, ih, rfl⟩⟩

/-- Pairs of names and values are written one behind the other, once each value can be written. -/
theorem writePairs_of_rows {pairs : List (PoolIndex × ElementValue)} {bytes : Bytes}
    (h : Rows (PairSpelled Spells) bytes pairs) : writePairs pairs = .ok bytes := by
  induction h with
  | nil => rw [writePairs]
  | @cons front back pair pairs head _ ih =>
    obtain ⟨own, hown, rfl⟩ := head
    rw [writePairs]
    exact bind_eq_ok.mpr ⟨_, hown, bind_eq_ok.mpr ⟨_, ih, rfl⟩⟩

theorem write_nested {tag : UInt8} {inner : AnnotationUse} {bytes : Bytes}
    (h : AnnotationSpelled Spells bytes inner) : (nested tag inner).write = .ok (tag :: bytes) := by
  obtain ⟨hlen, rows, hrows, rfl⟩ := h
  obtain ⟨typeIndex, pairs⟩ := inner
  rw [write]
  exact map_eq_ok.mpr
    ⟨_, Codec.withCount2_eq_ok.mpr ⟨hlen, rows, writePairs_of_rows hrows, rfl⟩, rfl⟩

/-- An array is written as its tag, the number of its values, and the values. The bound is what the
count can say. -/
theorem write_array {tag : UInt8} {values : List ElementValue} {rows : Bytes}
    (hlen : values.length ≤ 0xFFFF) (h : Rows Spells rows values) :
    (array tag values).write
      = .ok (tag :: (Bytes.ofU2 (UInt16.ofNat values.length) ++ rows)) := by
  rw [write]
  exact map_eq_ok.mpr
    ⟨_, Codec.withCount2_eq_ok.mpr ⟨hlen, rows, writeValues_of_rows h, rfl⟩, rfl⟩

/-- **A value that was read is written as its bytes**, whatever the depth. -/
theorem read_sound (depth : Nat) : Sound (read depth) Spells := by
  induction depth with
  | zero =>
    intro c c' v h
    cases h
  | succ depth ih =>
    intro c c' v h
    obtain ⟨tag, d, htag, h⟩ := run_bind_eq_ok.mp h
    obtain ⟨front, hpass, rfl⟩ := u1_sound htag
    cases hform : ElementForm.ofTag? tag with
    | none =>
      rw [hform] at h
      cases h
    | some form =>
      rw [hform] at h
      cases form with
      | constant =>
        obtain ⟨index, d, hindex, h⟩ := run_bind_eq_ok.mp h
        obtain ⟨rfl, rfl⟩ := run_pure_eq_ok.mp h
        obtain ⟨back, hpass', rfl⟩ := u2_sound hindex
        exact ⟨_, hpass.trans hpass', by rw [Spells, write]; rfl⟩
      | enumConstant =>
        obtain ⟨typeIndex, d, htype, h⟩ := run_bind_eq_ok.mp h
        obtain ⟨nameIndex, d, hname, h⟩ := run_bind_eq_ok.mp h
        obtain ⟨rfl, rfl⟩ := run_pure_eq_ok.mp h
        obtain ⟨back, hpass', rfl⟩ := u2_sound htype
        obtain ⟨back, hpass'', rfl⟩ := u2_sound hname
        exact ⟨_, hpass.trans (hpass'.trans hpass''), by rw [Spells, write]; rfl⟩
      | nested =>
        obtain ⟨inner, d, hinner, h⟩ := run_bind_eq_ok.mp h
        obtain ⟨rfl, rfl⟩ := run_pure_eq_ok.mp h
        obtain ⟨back, hpass', hspelled⟩ := readAnnotationUse_sound ih hinner
        exact ⟨_, hpass.trans hpass', write_nested hspelled⟩
      | array =>
        obtain ⟨count, d, hcount, h⟩ := run_bind_eq_ok.mp h
        obtain ⟨values, d, hvalues, h⟩ := run_bind_eq_ok.mp h
        obtain ⟨rfl, rfl⟩ := run_pure_eq_ok.mp h
        obtain ⟨rows, hpass', hlen, hrows⟩ := counted_sound ih hcount hvalues
        exact ⟨_, hpass.trans hpass', write_array hlen hrows⟩

end ElementValue

/-! ## Annotations -/

/-- What an annotation was read from is what it is written as. -/
theorem AnnotationUse.codec_sound (depth : Nat) : (AnnotationUse.codec depth).Sound := by
  intro c c' a h
  obtain ⟨bytes, hpass, hlen, rows, hrows, rfl⟩ :=
    readAnnotationUse_sound (ElementValue.read_sound depth) h
  have hpairs := ElementValue.writePairs_of_rows hrows
  exact ⟨_, hpass, map_eq_ok.mpr ⟨_, Codec.withCount2_eq_ok.mpr ⟨hlen, rows, hpairs, rfl⟩, rfl⟩⟩

/-! ## Type annotations -/

/-- A look ahead stays where it is. -/
theorem peek2_cursor {c c' : Cursor} {v : UInt16} (h : Reader.peek2 c = .ok (v, c')) : c' = c := by
  obtain ⟨pos, rest⟩ := c
  match rest, h with
  | [], h => cases h
  | [_], h => cases h
  | _ :: _ :: _, h => exact (Prod.mk.inj (Except.ok.inj h)).2.symm

/-- The description of a target is kept as it is, so how long it is does not matter. -/
theorem targetCodec_sound : targetCodec.Sound := by
  intro c c' v h
  obtain ⟨targetType, d, htype, h⟩ := run_bind_eq_ok.mp h
  obtain ⟨front, hpass, rfl⟩ := u1_sound htype
  cases hsize : TargetSize.ofType? targetType with
  | none =>
    rw [hsize] at h
    cases h
  | some size =>
    rw [hsize] at h
    cases size with
    | fixed length =>
      obtain ⟨info, d, hinfo, h⟩ := run_bind_eq_ok.mp h
      obtain ⟨rfl, rfl⟩ := run_pure_eq_ok.mp h
      obtain ⟨back, hpass', rfl, -⟩ := bytesOr_sound _ _ hinfo
      exact ⟨_, hpass.trans hpass', rfl⟩
    | ranges =>
      obtain ⟨count, e, hcount, hmore⟩ := run_bind_eq_ok.mp h
      obtain rfl := peek2_cursor hcount
      obtain ⟨info, d, hinfo, hmore⟩ := run_bind_eq_ok.mp hmore
      obtain ⟨rfl, rfl⟩ := run_pure_eq_ok.mp hmore
      obtain ⟨back, hpass', rfl, -⟩ := bytesOr_sound _ _ hinfo
      exact ⟨_, hpass.trans hpass', rfl⟩

theorem PathStep.codec_lawful : PathStep.codec.Lawful :=
  Codec.iso_lawful (Codec.pair_lawful Codec.u1_lawful Codec.u1_lawful) (fun _ => rfl) fun _ => rfl

/-- An annotation on a type is its target, the path to the part of the type that is meant, and the
annotation itself. -/
theorem TypeAnnotationUse.codec_sound (depth : Nat) : (TypeAnnotationUse.codec depth).Sound :=
  Codec.iso_sound (Codec.pair_sound targetCodec_sound
    (Codec.pair_sound (Codec.table1_sound PathStep.codec_lawful.sound)
      (AnnotationUse.codec_sound depth)))
    fun _ => rfl

end ClassPrune
