import ClassPrune.Proofs.Attribute.Annotations
import ClassPrune.Proofs.Attribute.Frames
import ClassPrune.Proofs.Attribute.Table

/-!
# Bodies without attributes of their own

Each of these bodies is read by one codec, and every codec here writes what was read as the bytes
that were read.

- The `codec_lawful` of each kind of row.
- `Body.read_leaf_sound`: every kind but the code of a method and the record declaration.

A row is a record whose fields are words and tables. Its codec is put together from theirs by pairs
and then regrouped as the record, so that its law is that of the combinators and two proofs by `rfl`
that the regrouping can be undone. The kinds of body are gone through once, in `read_leaf_sound`: a
new kind adds one line there, and one row law if it has rows of a new form.
-/

namespace ClassPrune

/-! ## Rows -/

section Rows

open Codec

/-- The layouts of rows are pairs of words and tables, so that the laws of the combinators apply
field by field. Only the regrouping of the fields is particular to a row. -/
theorem InnerClass.codec_lawful : InnerClass.codec.Lawful :=
  iso_lawful (pair_lawful u2_lawful (pair_lawful u2_lawful (pair_lawful u2_lawful u2_lawful)))
    (fun _ => rfl) fun _ => rfl

theorem LineNumber.codec_lawful : LineNumber.codec.Lawful :=
  iso_lawful (pair_lawful u2_lawful u2_lawful) (fun _ => rfl) fun _ => rfl

/-- Variables and the types of variables have the same five words. -/
theorem LocalVariable.codec_lawful : LocalVariable.codec.Lawful :=
  iso_lawful (pair_lawful u2_lawful (pair_lawful u2_lawful (pair_lawful u2_lawful
    (pair_lawful u2_lawful u2_lawful)))) (fun _ => rfl) fun _ => rfl

/-- A bootstrap method is a method handle and its arguments, a table of words. -/
theorem BootstrapMethod.codec_lawful : BootstrapMethod.codec.Lawful :=
  iso_lawful (pair_lawful u2_lawful words_lawful) (fun _ => rfl) fun _ => rfl

theorem MethodParameter.codec_lawful : MethodParameter.codec.Lawful :=
  iso_lawful (pair_lawful u2_lawful u2_lawful) (fun _ => rfl) fun _ => rfl

theorem ModuleRequires.codec_lawful : ModuleRequires.codec.Lawful :=
  iso_lawful (pair_lawful u2_lawful (pair_lawful u2_lawful u2_lawful)) (fun _ => rfl) fun _ => rfl

theorem ModuleExposes.codec_lawful : ModuleExposes.codec.Lawful :=
  iso_lawful (pair_lawful u2_lawful (pair_lawful u2_lawful words_lawful)) (fun _ => rfl)
    fun _ => rfl

/-- A service comes with its implementations, a table of words. -/
theorem ModuleProvides.codec_lawful : ModuleProvides.codec.Lawful :=
  iso_lawful (pair_lawful u2_lawful words_lawful) (fun _ => rfl) fun _ => rfl

/-- The declaration of a module is three words and five tables, whose rows are lawful by themselves.
-/
theorem ModuleInfo.codec_lawful : ModuleInfo.codec.Lawful :=
  iso_lawful (pair_lawful u2_lawful (pair_lawful u2_lawful (pair_lawful u2_lawful
    (pair_lawful (table2_lawful ModuleRequires.codec_lawful)
      (pair_lawful (table2_lawful ModuleExposes.codec_lawful)
        (pair_lawful (table2_lawful ModuleExposes.codec_lawful)
          (pair_lawful words_lawful (table2_lawful ModuleProvides.codec_lawful))))))))
    (fun _ => rfl) fun _ => rfl

/-! ## Lists of annotations -/

namespace LeafBody

/-- The depth that the reader is told is the number of bytes that are left, and nothing here depends
on it. -/
theorem annotationsCodec_sound : annotationsCodec.Sound :=
  measured_sound (fun left => table2_sound (AnnotationUse.codec_sound left))
    fun _ => write_table2_congr rfl

/-- The lists of all parameters are counted by one byte, their annotations by two. -/
theorem parametersCodec_sound : parametersCodec.Sound :=
  measured_sound (fun left => table1_sound (table2_sound (AnnotationUse.codec_sound left)))
    fun _ => write_table1_congr (write_table2_congr rfl)

/-- Annotations on types, with the depth handed through in the same way. -/
theorem typeAnnotationsCodec_sound : typeAnnotationsCodec.Sound :=
  measured_sound (fun left => table2_sound (TypeAnnotationUse.codec_sound left)) fun _ =>
    write_table2_congr (write_iso_congr _ _ (write_pair_congr rfl (write_pair_congr rfl rfl)))

/-- A single element value. -/
theorem defaultCodec_sound : defaultCodec.Sound :=
  measured_sound (fun left => ElementValue.read_sound left) fun _ => rfl

end LeafBody

end Rows

/-! ## Bodies -/

namespace Body

/-- The body is a leaf that is written as the bytes. -/
def LeafSpelled (bytes : Bytes) (body : Body RawAttribute) : Prop :=
  ∃ leaf, body = .leaf leaf ∧ leaf.write = .ok bytes

/-- A body that one codec reads is written by that codec, so that the law of the codec is a law of
the body. -/
theorem readLeaf_sound {α : Type} {make : α → LeafBody} {layout : Codec α} (h : layout.Sound)
    (hwrite : ∀ v, (make v).write = layout.write v) :
    Sound (readLeaf make layout) LeafSpelled := by
  intro c c' body hread
  obtain ⟨v, d, hv, hread⟩ := run_bind_eq_ok.mp hread
  obtain ⟨rfl, rfl⟩ := run_pure_eq_ok.mp hread
  obtain ⟨front, hpass, hspells⟩ := h hv
  exact ⟨front, hpass, make v, rfl, (hwrite v).trans hspells⟩

open Codec in
/-- **A body without attributes is written as the bytes that it was read from.** -/
theorem read_leaf_sound {kind : AttributeKind} (hcode : kind ≠ .code) (hrecord : kind ≠ .record) :
    Sound (read kind) LeafSpelled := by
  cases kind with
  | code => exact absurd rfl hcode
  | record => exact absurd rfl hrecord
  | constantValue | signature | sourceFile | nestHost | moduleMainClass =>
    exact readLeaf_sound u2_lawful.sound fun _ => rfl
  | exceptions | nestMembers | permittedSubclasses | modulePackages =>
    exact readLeaf_sound words_lawful.sound fun _ => rfl
  | innerClasses => exact readLeaf_sound (table2_sound InnerClass.codec_lawful.sound) fun _ => rfl
  | enclosingMethod =>
    exact readLeaf_sound (pair_sound u2_lawful.sound u2_lawful.sound) fun _ => rfl
  | synthetic | deprecated => exact readLeaf_sound (nothing_sound ()) fun _ => rfl
  | sourceDebugExtension => exact readLeaf_sound rest_sound fun _ => rfl
  | lineNumberTable =>
    exact readLeaf_sound (table2_sound LineNumber.codec_lawful.sound) fun _ => rfl
  | localVariableTable | localVariableTypeTable =>
    exact readLeaf_sound (table2_sound LocalVariable.codec_lawful.sound) fun _ => rfl
  | stackMapTable => exact readLeaf_sound (table2_sound StackMapFrame.codec_sound) fun _ => rfl
  | bootstrapMethods =>
    exact readLeaf_sound (table2_sound BootstrapMethod.codec_lawful.sound) fun _ => rfl
  | methodParameters =>
    exact readLeaf_sound (table1_sound MethodParameter.codec_lawful.sound) fun _ => rfl
  | moduleInfo => exact readLeaf_sound ModuleInfo.codec_lawful.sound fun _ => rfl
  | visibleAnnotations | invisibleAnnotations =>
    exact readLeaf_sound LeafBody.annotationsCodec_sound fun _ => rfl
  | visibleParameterAnnotations | invisibleParameterAnnotations =>
    exact readLeaf_sound LeafBody.parametersCodec_sound fun _ => rfl
  | visibleTypeAnnotations | invisibleTypeAnnotations =>
    exact readLeaf_sound LeafBody.typeAnnotationsCodec_sound fun _ => rfl
  | annotationDefault => exact readLeaf_sound LeafBody.defaultCodec_sound fun _ => rfl

/-- A payload that decodes to a body without attributes is what this body is written as. -/
theorem ofPayload_leaf {kind : AttributeKind} {info : Bytes} {leaf : LeafBody}
    (h : ofPayload kind info = .ok (.leaf leaf)) : leaf.write = .ok info := by
  obtain ⟨pos, hread⟩ := ofPayload_eq_ok.mp h
  obtain rfl : leaf.kind = kind := ofPayload_kind h
  obtain ⟨front, hpass, leaf', heq, hwrite⟩ := read_leaf_sound leaf.kind_ne.1 leaf.kind_ne.2 hread
  cases heq
  rw [hwrite, Passes.eq_info hpass]

end Body

end ClassPrune
