import ClassPrune.Proofs.Attribute.Decoding
import ClassPrune.Proofs.Attribute.Frames
import ClassPrune.Proofs.Attribute.Values

/-!
# Bodies that were made in memory

A body that was read is written as its payload. A body that was made in memory need not be one
that any payload decodes to. The converse round trip therefore holds on the canonical bodies:

- `LeafBody.Canonical`: element values, targets and frames are as their tags and types ask for.
- `Attribute.Rebuilt`: the attribute is what its own payload decodes to.
- `Body.Canonical`: the leaves are canonical, the code is not too long for its length word, and
  what is nested is rebuilt.
- `Attribute.decodeBody_of_encodeBody`: a canonical body comes back from its encoding.

None of the conditions mentions a reader. They say what the typed form of a body could hold and its
payload could not, so that two bodies would have one encoding or one body none.
-/

namespace ClassPrune

/-! ## Leaves -/

namespace LeafBody

/-- What the body keeps apart in memory is as its tags and types ask for. -/
def Canonical : LeafBody → Prop
  | .stackMapTable frames => ∀ f ∈ frames, f.Canonical
  | .annotations _ items => ∀ a ∈ items, a.Canonical
  | .parameterAnnotations _ parameters => ∀ items ∈ parameters, ∀ a ∈ items, a.Canonical
  | .typeAnnotations _ items => ∀ a ∈ items, a.Canonical
  | .annotationDefault value => value.Canonical
  | _ => True

/-- A list of annotations is read again when the values in each of them are canonical. -/
theorem annotationsCodec_within (n : Nat) :
    annotationsCodec.CompleteWithin n fun items => ∀ a ∈ items, a.Canonical :=
  Codec.measured_within (fun left => Codec.table2_within (AnnotationUse.codec_within left))
    (fun _ => Codec.write_table2_congr rfl) n

/-- The same for the annotations of parameters, which are one list for each parameter. -/
theorem parametersCodec_within (n : Nat) :
    parametersCodec.CompleteWithin n fun parameters =>
      ∀ items ∈ parameters, ∀ a ∈ items, a.Canonical :=
  Codec.measured_within
    (fun left => Codec.table1_within (Codec.table2_within (AnnotationUse.codec_within left)))
    (fun _ => Codec.write_table1_congr (Codec.write_table2_congr rfl)) n

theorem typeAnnotationsCodec_within (n : Nat) :
    typeAnnotationsCodec.CompleteWithin n fun items => ∀ a ∈ items, a.Canonical :=
  Codec.measured_within (fun left => Codec.table2_within (TypeAnnotationUse.codec_within left))
    (fun _ => Codec.write_table2_congr (Codec.write_iso_congr _ _
      (Codec.write_pair_congr rfl (Codec.write_pair_congr rfl rfl)))) n

/-- The default of an annotation element is a single value. -/
theorem defaultCodec_within (n : Nat) :
    defaultCodec.CompleteWithin n ElementValue.Canonical := by
  refine Codec.measured_within (fun left => ?_) (fun _ => rfl) n
  exact ElementValue.read_complete left

end LeafBody

namespace Body

/-- A payload that is one spelling of a layout decodes to the value that it spells. -/
theorem ofPayload_readLeaf {α : Type} {kind : AttributeKind} {make : α → LeafBody}
    {layout : Codec α} {ok : α → Prop} {info : Bytes} {v : α}
    (hread : read kind = readLeaf make layout) (hlayout : layout.CompleteWithin info.length ok)
    (hspells : layout.Spells info v) (hok : ok v) :
    ofPayload kind info = .ok (.leaf (make v)) := by
  rw [ofPayload_eq_ok, hread]
  have hreads := (hlayout ⟨hspells, hok, Nat.le_refl _⟩).bind_pure
    (fun v => (leaf (make v) : Body RawAttribute)) 0 []
  rw [List.append_nil] at hreads
  exact ⟨_, hreads⟩

open Codec in
/-- **A canonical leaf comes back from its encoding.** -/
theorem ofPayload_of_write {leaf : LeafBody} {info : Bytes} (hcanonical : leaf.Canonical)
    (h : leaf.write = .ok info) : ofPayload leaf.kind info = .ok (.leaf leaf) := by
  -- a layout that is complete without any condition
  have hplain {α : Type} {kind : AttributeKind} {make : α → LeafBody} {layout : Codec α} {v : α}
      (hread : read kind = readLeaf make layout) (hlayout : layout.Complete)
      (hspells : layout.Spells info v) : ofPayload kind info = .ok (.leaf (make v)) :=
    ofPayload_readLeaf hread (Complete.within hlayout info.length) hspells trivial
  cases leaf with
  | constantValue _ | signature _ | sourceFile _ | nestHost _ | moduleMainClass _ =>
    exact hplain rfl u2_lawful.complete h
  | exceptions _ | nestMembers _ | permittedSubclasses _ | modulePackages _ =>
    exact hplain rfl words_lawful.complete h
  | innerClasses _ => exact hplain rfl (table2_lawful InnerClass.codec_lawful).complete h
  | enclosingMethod classIndex methodIndex =>
    have hread : read .enclosingMethod = readLeaf (fun (a, b) => .enclosingMethod a b) _ := rfl
    exact hplain (v := (classIndex, methodIndex)) hread (pair_lawful u2_lawful u2_lawful).complete h
  | synthetic | deprecated =>
    cases h
    rfl
  | sourceDebugExtension text =>
    -- the only layout that takes all that is left
    cases h
    rfl
  | lineNumberTable _ => exact hplain rfl (table2_lawful LineNumber.codec_lawful).complete h
  | localVariableTable _ | localVariableTypeTable _ =>
    exact hplain rfl (table2_lawful LocalVariable.codec_lawful).complete h
  | stackMapTable _ =>
    exact ofPayload_readLeaf rfl (table2_within (StackMapFrame.codec_within _)) h hcanonical
  | bootstrapMethods _ => exact hplain rfl (table2_lawful BootstrapMethod.codec_lawful).complete h
  | methodParameters _ =>
    exact ofPayload_readLeaf rfl
      (table1_within (Complete.within MethodParameter.codec_lawful.complete _)) h fun _ _ => trivial
  | moduleInfo _ => exact hplain rfl ModuleInfo.codec_lawful.complete h
  | annotations retention _ =>
    cases retention <;>
      exact ofPayload_readLeaf rfl (LeafBody.annotationsCodec_within _) h hcanonical
  | parameterAnnotations retention _ =>
    cases retention <;>
      exact ofPayload_readLeaf rfl (LeafBody.parametersCodec_within _) h hcanonical
  | typeAnnotations retention _ =>
    cases retention <;>
      exact ofPayload_readLeaf rfl (LeafBody.typeAnnotationsCodec_within _) h hcanonical
  | annotationDefault _ =>
    exact ofPayload_readLeaf rfl (LeafBody.defaultCodec_within _) h hcanonical

end Body

/-! ## Attributes -/

namespace Attribute

/-- The attribute is what its own payload decodes to, and a file can hold that payload. -/
def Rebuilt (pool : Pool) (a : Attribute) : Prop :=
  ∃ info, a.payload = .ok info ∧ info.length ≤ 0x7FFFFFFF ∧ ofPayload pool ⟨a.nameIndex, info⟩ = a

/-- What is rebuilt here is what other modules call decoded, so that nothing has to be proved twice
about attributes that are nested. -/
theorem rebuilt_iff {pool : Pool} {a : Attribute} : a.Rebuilt pool ↔ a.Decoded pool := by
  constructor
  · rintro ⟨info, -, hfits, heq⟩
    rw [← heq]
    exact decoded_ofPayload pool hfits
  · intro h
    exact ⟨a.info, h.payload, h.fits, h.eq⟩

end Attribute

/-! ## Bodies -/

/-- A body that some payload decodes to, as far as the body alone can tell. -/
structure Body.Canonical (pool : Pool) (body : Body Attribute) : Prop where
  leaf : ∀ leaf, body = .leaf leaf → leaf.Canonical
  code : ∀ c, body = .code c → c.code.length ≤ 0xFFFFFFFF
  nested : ∀ a ∈ body.nested, a.Rebuilt pool

/-- The kinds are told apart by their names. -/
theorem AttributeKind.ofName?_name (kind : AttributeKind) : ofName? kind.name = some kind := by
  cases kind <;> decide

namespace Attribute

/-- **A canonical body comes back from its encoding**: when a body of any kind can be written, its
payload decodes, under the name of its kind, to the same body. -/
theorem decodeBody_of_encodeBody {pool : Pool} {body : Body Attribute} {info : Bytes}
    (hcanonical : body.Canonical pool) (h : encodeBody body = .ok info) :
    decodeBody pool body.kind.name info = .ok body := by
  have hdecoded : ∀ a ∈ body.nested, a.Decoded pool := fun a ha =>
    rebuilt_iff.mp (hcanonical.nested a ha)
  -- the payload is cut into the body with its attributes still raw
  have hraw : Body.ofPayload body.kind info = .ok (body.map raw) := by
    cases body with
    | leaf leaf =>
      rw [encodeBody] at h
      exact Body.ofPayload_of_write (hcanonical.leaf leaf rfl) h
    | code c =>
      refine ofPayload_encodeBody h hdecoded (fun c' hc' => ?_) fun leaf hleaf => by cases hleaf
      have hlt := hcanonical.code c' hc'
      omega
    | record components =>
      exact ofPayload_encodeBody h hdecoded (fun c hc => by cases hc)
        fun leaf hleaf => by cases hleaf
  -- and each attribute in it decodes from its own row
  have hmap : (body.map raw).map (ofPayload pool) = body := by
    rw [Body.map_map]
    exact Body.map_eq_self fun a ha => (hdecoded a ha).eq
  unfold decodeBody
  simp only [AttributeKind.ofName?_name, hraw, hmap]

/-- A type annotation on a local variable of one range, with a nested annotation in an array. -/
def rangedLocals : TypeAnnotationUse where
  targetType := 0x40
  targetInfo := [0x00, 0x01, 0x00, 0x00, 0x00, 0x05, 0x00, 0x01]
  path := [⟨3, 0⟩]
  inner := ⟨1, [(2, .array 0x5B [.constant 0x49 1, .nested 0x40 ⟨1, []⟩])]⟩

/-- The local variable is live in two ranges, and so its description has two rows. -/
theorem rangedLocals_canonical : rangedLocals.Canonical where
  target := .ranges (by decide) 1 rfl
  inner := by
    rintro pair hpair
    obtain rfl := List.mem_singleton.mp hpair
    refine .array fun v hv => ?_
    rcases List.mem_cons.mp hv with rfl | hv
    · exact .constant (by decide) 1
    · obtain rfl := List.mem_singleton.mp hv
      exact .nested fun pair hpair => nomatch hpair

/-- Code with two tables of line numbers, of which the first is cut short. -/
def patchedCode : Body Attribute :=
  .code ⟨1, 1, [0xB1], [], [ofPayload codePool ⟨2, [0x00, 0x01, 0x00]⟩,
    ofPayload codePool ⟨2, [0x00, 0x01, 0x00, 0x00, 0x00, 0x07]⟩]⟩

/-- The body was never read from a file. The attribute in it is what its own payload decodes to. -/
theorem patchedCode_canonical : patchedCode.Canonical codePool where
  leaf := fun leaf hleaf => nomatch hleaf
  code := by
    intro c hc
    cases hc
    decide
  nested := by
    intro a ha
    rcases List.mem_cons.mp ha with rfl | ha
    · exact rebuilt_iff.mpr (decoded_ofPayload codePool (by decide : (3 : Nat) ≤ 0x7FFFFFFF))
    · obtain rfl := List.mem_singleton.mp ha
      exact rebuilt_iff.mpr (decoded_ofPayload codePool (by decide : (6 : Nat) ≤ 0x7FFFFFFF))

theorem decodeBody_of_encodeBody_rangedLocals :
    (∃ info, encodeBody (.leaf (.typeAnnotations .visible [rangedLocals])) = .ok info ∧
      decodeBody codePool "RuntimeVisibleTypeAnnotations" info
        = .ok (.leaf (.typeAnnotations .visible [rangedLocals]))) ∧
      ∃ info, encodeBody patchedCode = .ok info ∧
        decodeBody codePool "Code" info = .ok patchedCode := by
  have hwrite : ∃ info,
      encodeBody (.leaf (.typeAnnotations .visible [rangedLocals])) = .ok info := ⟨_, rfl⟩
  have hcode : ∃ info, encodeBody patchedCode = .ok info := ⟨_, rfl⟩
  obtain ⟨info, hinfo⟩ := hwrite
  obtain ⟨info', hinfo'⟩ := hcode
  refine ⟨⟨info, hinfo, decodeBody_of_encodeBody ⟨?_, ?_, ?_⟩ hinfo⟩, info', hinfo',
    decodeBody_of_encodeBody patchedCode_canonical hinfo'⟩
  · rintro leaf hleaf
    cases hleaf
    intro a ha
    obtain rfl := List.mem_singleton.mp ha
    exact rangedLocals_canonical
  · exact fun c hc => nomatch hc
  · exact fun a ha => nomatch ha

end Attribute

end ClassPrune
