import ClassPrune.Proofs.Attribute.Annotations

/-!
# Annotations that were made in memory

A value made in memory may have content that its tag does not ask for, and the description of a
target may have any length. Where neither is the case, what is written is read again.

- `ElementValue.Canonical`, `AnnotationUse.Canonical`: the content of each value is what its tag
  asks for, at any depth.
- `ElementValue.read_complete`: such values are read again, by induction on the depth.
- `DescribesTarget`, `TypeAnnotationUse.Canonical`: the type of the target is known, and its
  description is as long as that type asks for.
- `AnnotationUse.codec_within`, `TypeAnnotationUse.codec_within`: annotations, and annotations on
  types.
-/

namespace ClassPrune

/-! ## Annotations around values -/

/-- An annotation is read again when its values are, whatever their format is. -/
theorem readAnnotationUse_complete {α : Type} {value : Reader α} {P : Bytes → α → Prop}
    (hvalue : Complete value P) : Complete (readAnnotationUse value) (AnnotationSpelled P) := by
  rintro bytes a ⟨hlen, rows, hrows, rfl⟩
  have hpair : Complete
      (do
        let name ← Reader.u2
        let v ← value
        return (name, v)) (PairSpelled P) := by
    rintro front pair ⟨back, hback, rfl⟩
    exact (u2_reads pair.1).bind ((hvalue hback).bind_pure _)
  exact (u2_reads a.typeIndex).bind
    (counted_reads hpair (fun pairs => (⟨a.typeIndex, pairs⟩ : AnnotationOf α)) hlen hrows)

/-! ## Element values -/

/-- The tags of constants: the primitive types, strings and classes. -/
def constantTags : List UInt8 :=
  [0x42, 0x43, 0x44, 0x46, 0x49, 0x4A, 0x53, 0x5A, 0x63, 0x73]

/-- The content of a value is what its tag asks for, at any depth. -/
inductive ElementValue.Canonical : ElementValue → Prop
  | constant {tag : UInt8} (known : tag ∈ constantTags) (index : PoolIndex) :
    Canonical (.constant tag index)
  | enumConstant (typeIndex nameIndex : PoolIndex) :
    Canonical (.enumConstant 0x65 typeIndex nameIndex)
  | nested {inner : AnnotationOf ElementValue}
    (values : ∀ pair ∈ inner.pairs, Canonical pair.2) : Canonical (.nested 0x40 inner)
  | array {values : List ElementValue} (members : ∀ v ∈ values, Canonical v) :
    Canonical (.array 0x5B values)

/-- The values of an annotation have the content that their tags ask for. -/
def AnnotationUse.Canonical (a : AnnotationUse) : Prop := ∀ pair ∈ a.pairs, pair.2.Canonical

/-- The tags of constants have no other form. -/
theorem ElementForm.ofTag?_of_mem {tag : UInt8} (h : tag ∈ constantTags) :
    ElementForm.ofTag? tag = some .constant := by
  have hall : constantTags.all (ElementForm.ofTag? · = some .constant) = true := by decide
  exact of_decide_eq_true (List.all_eq_true.mp hall tag h)

namespace ElementValue

/-- Values that can be written together can be written one by one. -/
theorem rows_of_writeValues {values : List ElementValue} {bytes : Bytes}
    (h : writeValues values = .ok bytes) : Rows Spells bytes values := by
  induction values generalizing bytes with
  | nil =>
    rw [writeValues] at h
    cases h
    exact .nil
  | cons v values ih =>
    rw [writeValues] at h
    obtain ⟨front, hfront, h⟩ := bind_eq_ok.mp h
    obtain ⟨back, hback, h⟩ := bind_eq_ok.mp h
    cases h
    exact .cons hfront (ih hback)

theorem rows_of_writePairs {pairs : List (PoolIndex × ElementValue)} {bytes : Bytes}
    (h : writePairs pairs = .ok bytes) : Rows (PairSpelled Spells) bytes pairs := by
  induction pairs generalizing bytes with
  | nil =>
    rw [writePairs] at h
    cases h
    exact .nil
  | cons pair pairs ih =>
    obtain ⟨name, v⟩ := pair
    rw [writePairs] at h
    obtain ⟨front, hfront, h⟩ := bind_eq_ok.mp h
    obtain ⟨back, hback, h⟩ := bind_eq_ok.mp h
    cases h
    exact .cons ⟨front, hfront, rfl⟩ (ih hback)

end ElementValue

/-- What is written of an annotation spells it. -/
theorem AnnotationUse.spelled_of_write {a : AnnotationUse} {bytes : Bytes} {depth : Nat}
    (h : (codec depth).Spells bytes a) : AnnotationSpelled ElementValue.Spells bytes a := by
  obtain ⟨counted, hcounted, rfl⟩ := map_eq_ok.mp h
  obtain ⟨hlen, rows, hrows, rfl⟩ := Codec.withCount2_eq_ok.mp hcounted
  exact ⟨hlen, rows, ElementValue.rows_of_writePairs hrows, rfl⟩

namespace ElementValue

/-- A value of no more than `n` bytes whose content is what its tag asks for. -/
def SpellsWithin (n : Nat) (bytes : Bytes) (v : ElementValue) : Prop :=
  v.Spells bytes ∧ v.Canonical ∧ bytes.length ≤ n

end ElementValue

/-- The values of a canonical annotation are canonical, and none is longer than the annotation. -/
theorem AnnotationUse.spelled_within {a : AnnotationUse} {bytes : Bytes} {n : Nat}
    (h : AnnotationSpelled ElementValue.Spells bytes a) (hcanonical : a.Canonical)
    (hle : bytes.length ≤ n) : AnnotationSpelled (ElementValue.SpellsWithin n) bytes a := by
  obtain ⟨hlen, rows, hrows, rfl⟩ := h
  simp only [List.length_append] at hle
  refine ⟨hlen, rows, hrows.imp ?_, rfl⟩
  rintro front pair hpair hfront ⟨back, hback, rfl⟩
  rw [List.length_append] at hfront
  exact ⟨back, ⟨hback, hcanonical pair hpair, by omega⟩, rfl⟩

namespace ElementValue

/-- A written value starts with its tag. -/
theorem exists_of_spells {v : ElementValue} {bytes : Bytes} (h : v.Spells bytes) :
    ∃ content, bytes = v.tag :: content := by
  unfold Spells at h
  cases v with
  | empty tag =>
    rw [write] at h
    cases h
  | constant tag index =>
    rw [write] at h
    cases h
    exact ⟨_, rfl⟩
  | enumConstant tag typeIndex nameIndex =>
    rw [write] at h
    cases h
    exact ⟨_, rfl⟩
  | nested tag inner =>
    obtain ⟨typeIndex, pairs⟩ := inner
    rw [write] at h
    obtain ⟨rows, -, rfl⟩ := map_eq_ok.mp h
    exact ⟨_, rfl⟩
  | array tag values =>
    rw [write] at h
    obtain ⟨rows, -, rfl⟩ := map_eq_ok.mp h
    exact ⟨_, rfl⟩

/-- **A canonical value is read again from what is written of it**, if the depth is enough. -/
theorem read_complete (depth : Nat) : Complete (read depth) (SpellsWithin depth) := by
  induction depth with
  | zero =>
    rintro bytes v ⟨hspells, -, hle⟩
    obtain ⟨content, rfl⟩ := exists_of_spells hspells
    cases hle
  | succ depth ih =>
    rintro bytes v ⟨hspells, hcanonical, hle⟩
    unfold Spells at hspells
    cases hcanonical with
    | @constant tag known index =>
      rw [write] at hspells
      cases hspells
      refine (u1_reads tag).bind ?_
      simp only [ElementForm.ofTag?_of_mem known]
      exact (u2_reads index).bind_pure _
    | enumConstant typeIndex nameIndex =>
      rw [write] at hspells
      cases hspells
      exact (u1_reads 0x65).bind ((u2_reads typeIndex).bind ((u2_reads nameIndex).bind_pure _))
    | @nested inner hvalues =>
      obtain ⟨typeIndex, pairs⟩ := inner
      rw [write] at hspells
      obtain ⟨counted, hcounted, rfl⟩ := map_eq_ok.mp hspells
      obtain ⟨hlen, rows, hrows, rfl⟩ := Codec.withCount2_eq_ok.mp hcounted
      have hspelled : AnnotationSpelled Spells _ ⟨typeIndex, pairs⟩ :=
        ⟨hlen, rows, rows_of_writePairs hrows, rfl⟩
      have hwithin := AnnotationUse.spelled_within hspelled hvalues (Nat.le_of_succ_le_succ hle)
      exact (u1_reads 0x40).bind ((readAnnotationUse_complete ih hwithin).bind_pure _)
    | @array values hmembers =>
      rw [write] at hspells
      obtain ⟨counted, hcounted, rfl⟩ := map_eq_ok.mp hspells
      obtain ⟨hlen, rows, hrows, rfl⟩ := Codec.withCount2_eq_ok.mp hcounted
      have hwithin : Rows (SpellsWithin depth) rows values :=
        (rows_of_writeValues hrows).imp fun front v hv hfront hspells => by
          rw [List.length_cons, List.length_append] at hle
          exact ⟨hspells, hmembers v hv, by omega⟩
      exact (u1_reads 0x5B).bind (counted_reads ih (array 0x5B) hlen hwithin)

end ElementValue

/-! ## Annotations -/

/-- Annotations with canonical values are read again by a reader that is told a sufficient depth. -/
theorem AnnotationUse.codec_within (depth : Nat) :
    (codec depth).CompleteWithin depth AnnotationUse.Canonical := by
  rintro bytes a ⟨hspells, hcanonical, hle⟩
  have hspelled := spelled_within (spelled_of_write hspells) hcanonical hle
  exact readAnnotationUse_complete (ElementValue.read_complete depth) hspelled

/-! ## Type annotations -/

/-- The description of a target is as long as the type of the target asks for: nothing for the
types of fields, results and receivers, one or two bytes for an index or an offset, three for an
index and an offset, and for local variables a count with six bytes for each range. -/
inductive DescribesTarget : (targetType : UInt8) → Bytes → Prop
  | nothing {targetType : UInt8} (known : targetType ∈ [0x13, 0x14, 0x15]) :
    DescribesTarget targetType []
  | one {targetType : UInt8} {info : Bytes} (known : targetType ∈ [0x00, 0x01, 0x16])
    (length_eq : info.length = 1) : DescribesTarget targetType info
  | two {targetType : UInt8} {info : Bytes}
    (known : targetType ∈ [0x10, 0x11, 0x12, 0x17, 0x42, 0x43, 0x44, 0x45, 0x46])
    (length_eq : info.length = 2) : DescribesTarget targetType info
  | three {targetType : UInt8} {info : Bytes}
    (known : targetType ∈ [0x47, 0x48, 0x49, 0x4A, 0x4B])
    (length_eq : info.length = 3) : DescribesTarget targetType info
  | ranges {targetType : UInt8} {rows : Bytes} (known : targetType ∈ [0x40, 0x41])
    (count : UInt16) (length_eq : rows.length = 6 * count.toNat) :
    DescribesTarget targetType (Bytes.ofU2 count ++ rows)

/-- Looking at a word does not move the cursor. -/
theorem peek2_of_ofU2 (pos : Nat) (v : UInt16) (rest : Bytes) :
    Reader.peek2 ⟨pos, Bytes.ofU2 v ++ rest⟩ = .ok (v, ⟨pos, Bytes.ofU2 v ++ rest⟩) := by
  show Except.ok (Bytes.toU2 _ _, _) = _
  rw [Bytes.toU2_ofNat]

/-- A target whose type gives the length of its description. -/
theorem targetCodec_reads_fixed {targetType : UInt8} {info : Bytes}
    (h : TargetSize.ofType? targetType = some (.fixed info.length)) :
    Reads targetCodec.read (targetType :: info) (targetType, info) := by
  refine (u1_reads targetType).bind ?_
  simp only [h]
  exact (bytesOr_reads _ info).bind_pure _

/-- A target whose description counts its own rows, of six bytes each. The count is looked at first
and then read again as a part of the description. -/
theorem targetCodec_reads_ranges {targetType : UInt8} {count : UInt16} {rows : Bytes}
    (h : TargetSize.ofType? targetType = some .ranges) (hlen : rows.length = 6 * count.toNat) :
    Reads targetCodec.read (targetType :: (Bytes.ofU2 count ++ rows))
      (targetType, Bytes.ofU2 count ++ rows) := by
  refine (u1_reads targetType).bind (?_ : Reads _ (Bytes.ofU2 count ++ rows) _)
  simp only [h]
  intro pos rest
  rw [run_bind_eq_ok]
  refine ⟨count, ⟨pos, Bytes.ofU2 count ++ rows ++ rest⟩, ?_, ?_⟩
  · rw [List.append_assoc]
    exact peek2_of_ofU2 pos count (rows ++ rest)
  · have hinfo : 2 + 6 * count.toNat = (Bytes.ofU2 count ++ rows).length := by
      rw [List.length_append, Bytes.length_ofU2, hlen]
    rw [hinfo]
    exact (bytesOr_reads _ (Bytes.ofU2 count ++ rows)).bind_pure _ pos rest

theorem TargetSize.ofType?_of_mem {types : List UInt8} {size : TargetSize}
    (hall : types.all (TargetSize.ofType? · = some size) = true) {t : UInt8} (h : t ∈ types) :
    TargetSize.ofType? t = some size :=
  of_decide_eq_true (List.all_eq_true.mp hall t h)

/-- Both together: a description is read again when it is as long as the type of the target asks
for. -/
theorem targetCodec_reads {targetType : UInt8} {info : Bytes}
    (h : DescribesTarget targetType info) :
    Reads targetCodec.read (targetType :: info) (targetType, info) := by
  cases h with
  | nothing known => exact targetCodec_reads_fixed (TargetSize.ofType?_of_mem (by decide) known)
  | one known hlen | two known hlen | three known hlen =>
    refine targetCodec_reads_fixed ?_
    rw [hlen]
    exact TargetSize.ofType?_of_mem (by decide) known
  | ranges known count hlen =>
    exact targetCodec_reads_ranges (TargetSize.ofType?_of_mem (by decide) known) hlen

/-- The target is described as its type asks for, and the annotation proper is canonical. -/
structure TypeAnnotationUse.Canonical (a : TypeAnnotationUse) : Prop where
  target : DescribesTarget a.targetType a.targetInfo
  inner : a.inner.Canonical

theorem targetCodec_within (n : Nat) :
    targetCodec.CompleteWithin n fun v => DescribesTarget v.1 v.2 := by
  rintro bytes v ⟨hspells, hdescribes, -⟩
  cases hspells
  exact targetCodec_reads hdescribes

/-- Annotations on types are read again when their target, their path and their values are. -/
theorem TypeAnnotationUse.codec_within (depth : Nat) :
    (codec depth).CompleteWithin depth TypeAnnotationUse.Canonical := by
  have hpath : PathStep.codec.table1.CompleteWithin depth fun path => ∀ step ∈ path, True :=
    Codec.table1_within (Codec.Complete.within PathStep.codec_lawful.complete depth)
  rintro bytes a ⟨hspells, hcanonical, hle⟩
  exact Codec.iso_within (Codec.pair_within (targetCodec_within depth)
    (Codec.pair_within hpath (AnnotationUse.codec_within depth))) (fun _ => rfl)
    ⟨hspells, ⟨hcanonical.target, fun _ _ => trivial, hcanonical.inner⟩, hle⟩

end ClassPrune
