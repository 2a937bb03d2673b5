import ClassPrune.Proofs.Strip.Accounting

/-!
# The report tells the truth

The report says that a class was changed exactly when the output differs from the input. The four
kinds of change cannot cancel out: where an attribute is gone the output is shorter, and where none
is gone, an output that is the input would be read back as the class that was stripped, although
another constant stands in a filled slot and no reserved opcode is left.

- `ClassFile.lost_eq_zero_iff`: nothing is lost exactly when no attribute was dropped and the
  bootstrap methods stay.
- `ClassFile.strip_eq_self`: what is not reported as changed is the same class.
- `ClassFile.changed_eq_false_of_rewritten`: while no attribute is gone, a changed class is not read
  back as the one that was stripped.
- `ClassFile.encode_strip_eq_iff`, `ClassFile.strip_changed_iff`: the report against the bytes.
-/

namespace ClassPrune

/-! ## Empty reports -/

/-- A report without changes is empty. -/
theorem Report.changed_eq_false_iff {r : Report} : r.changed = false ↔
    r.dropped = [] ∧ r.filled = [] ∧ r.bootstrapMethodsRemoved = false ∧ r.substitutions = 0 := by
  simp [changed, and_assoc]

/-! ## Standard form -/

namespace Attribute

variable {a : Attribute} {d : Decoder}

/-- Code counts as soon as it changes: a reserved opcode is never replaced by itself. -/
theorem substitutions_eq_zero_iff : a.substitutions d = 0 ↔ (a.standardize d).body = a.body := by
  rw [substitutions, standardize]
  cases hc : a.code? with
  | none => simp [mapCode_of_none hc]
  | some c =>
    rw [mapCode_of_some hc, body_of_code? hc]
    refine Decoder.substitutions_eq_zero_iff.trans ?_
    obtain ⟨maxStack, maxLocals, code, handlers, attributes⟩ := c
    simp

/-- Where nothing is counted the attribute is the same. -/
theorem standardize_eq_self (h : a.substitutions d = 0) : a.standardize d = a := by
  refine mapCode_eq_self fun c hc => ?_
  rw [substitutions, hc] at h
  rw [Decoder.substitutions_eq_zero_iff.mp h]

end Attribute

namespace ClassFile

variable {k : ClassFile} {d : Decoder}

theorem substitutions_eq_zero_iff : k.substitutions d = 0 ↔
    ∀ m ∈ k.methods, ∀ a ∈ m.attributes, a.substitutions d = 0 := by
  rw [substitutions, total_eq_zero_iff]
  simp only [List.mem_flatMap, List.mem_map]
  constructor
  · intro h m hm a ha
    exact h _ ⟨m, hm, a, ha, rfl⟩
  · rintro h n ⟨m, hm, a, ha, rfl⟩
    exact h m hm a ha

theorem standardize_eq_self (h : k.substitutions d = 0) : k.standardize d = k := by
  have hmethods : k.methods.map (Inspector.standardMethod d) = k.methods := by
    refine map_eq_self_of_mem fun m hm => ?_
    rw [Inspector.standardMethod, map_eq_self_of_mem fun a ha =>
      Attribute.standardize_eq_self (substitutions_eq_zero_iff.mp h m hm a ha)]
  show { k with methods := k.methods.map (Inspector.standardMethod d) } = k
  rw [hmethods]

end ClassFile

/-! ## Nothing dropped -/

namespace Inspector

variable {i : Inspector} {k : ClassFile}

/-- Where nothing is dropped every verdict is favourable. -/
theorem verdicts_of_drops (h : i.drops k = []) :
    k.Levels fun site a => i.verdict? site a = none := by
  have hroster : ∀ r ∈ i.rosters k, ∀ a ∈ r.attributes, i.verdict? r.site a = none := by
    intro r hr a ha
    have hnone := List.filterMap_eq_nil_iff.mp (List.flatMap_eq_nil_iff.mp h r hr) a ha
    exact Option.map_eq_none_iff.mp hnone
  have hclass := hroster _ List.mem_cons_self
  have hfield (f : Member) (hf : f ∈ k.fields) := hroster (i.fieldRoster f)
    (List.mem_cons_of_mem _ (List.mem_append_left _ (List.mem_append_left _
      (List.mem_map_of_mem hf))))
  have hmethod (m : Member) (hm : m ∈ k.methods) (r : Roster) (hr : r ∈ i.methodRosters m) :=
    hroster r (List.mem_cons_of_mem _ (List.mem_append_left _ (List.mem_append_right _
      (List.mem_flatMap.mpr ⟨m, hm, hr⟩))))
  refine ⟨hclass, ?_, hfield, fun m hm => hmethod m hm _ List.mem_cons_self, ?_⟩
  · intro a ha components hcomponents c hc
    have hstays : a ∈ i.keep .ofClass k.attributes := by
      refine List.mem_map.mpr ⟨a, List.mem_filter.mpr ⟨ha, by simp [hclass a ha]⟩, ?_⟩
      refine settle_of_none ?_
      rw [Attribute.code?, Attribute.body_of_components? hcomponents]
    refine hroster (i.componentRoster c) (List.mem_cons_of_mem _ (List.mem_append_right _ ?_))
    refine List.mem_flatMap.mpr ⟨a, hstays, ?_⟩
    rw [hcomponents]
    exact List.mem_map_of_mem hc
  · intro m hm a ha c hc
    have hstays : a ∈ i.keep (.ofMethod m) m.attributes := by
      have hverdict := hmethod m hm _ List.mem_cons_self a ha
      exact List.mem_map.mpr ⟨a, List.mem_filter.mpr ⟨ha, by simp [hverdict]⟩, settle_onMethod rfl⟩
    refine hmethod m hm ⟨.ofCode m, s!"code of {i.methodLabel m}", c.attributes⟩
      (List.mem_cons_of_mem _ ?_)
    refine List.mem_filterMap.mpr ⟨a, hstays, ?_⟩
    rw [hc]
    rfl

/-- Where every verdict is favourable every attribute is cleared. -/
theorem clears_of_verdicts (hk : k.Decoded) (hpool : i.pool = k.pool)
    (h : (k.standardize i.decoder).Levels fun site a => i.verdict? site a = none) :
    (k.standardize i.decoder).Levels i.Clears := by
  obtain ⟨hfields, hmethods, hattributes⟩ := hk
  simp only [Member.Decoded, ← hpool] at hfields hmethods hattributes
  refine ⟨?_, ?_, ?_, ?_, ?_⟩
  · intro a ha
    exact clears_of_verdict (hattributes a ha) (h.ofClass a ha) fun hcontext => by cases hcontext
  · intro a ha components hcomponents c hc b hb
    have hdecoded := (hattributes a ha).of_mem_component hcomponents hc b hb
    exact clears_of_verdict hdecoded (h.ofComponent a ha components hcomponents c hc b hb)
      fun hcontext => by cases hcontext
  · intro f hf a ha
    exact clears_of_verdict (hfields f hf a ha) (h.ofField f hf a ha)
      fun hcontext => by cases hcontext
  · intro m' hm' a' ha'
    have hverdict := h.ofMethod m' hm' a' ha'
    obtain ⟨m, hm, rfl⟩ := List.mem_map.mp hm'
    obtain ⟨a, ha, rfl⟩ := List.mem_map.mp ha'
    exact clears_standardize (hmethods m hm a ha) hverdict
  · intro m' hm' a' ha' c' hc' b hb
    have hverdict := h.ofCode m' hm' a' ha' c' hc' b hb
    obtain ⟨m, hm, rfl⟩ := List.mem_map.mp hm'
    obtain ⟨a, ha, rfl⟩ := List.mem_map.mp ha'
    -- standard form leaves what is nested in the code
    rw [Attribute.standardize, Attribute.code?_mapCode] at hc'
    obtain ⟨c, hc, rfl⟩ := Option.map_eq_some_iff.mp hc'
    have hdecoded := (hmethods m hm a ha).of_mem_code hc b hb
    exact clears_of_verdict hdecoded hverdict fun hcontext => by cases hcontext

end Inspector

namespace ClassFile

variable {profile : Profile} {k : ClassFile}

/-- Where nothing is dropped every attribute is cleared, once code is in standard form. -/
theorem standardize_clears (hdecoded : k.Decoded) (hdropped : (k.strip profile).2.dropped = []) :
    (k.standardize (Inspector.ofPool profile k.pool).decoder).Levels
      (Inspector.ofPool profile k.pool).Clears :=
  Inspector.clears_of_verdicts hdecoded rfl (Inspector.verdicts_of_drops hdropped)

/-- While no attribute is gone only reserved opcodes and slots of the pool are changed. -/
theorem strip_eq_of_dropped (hdecoded : k.Decoded) (hdropped : (k.strip profile).2.dropped = [])
    (hremoved : (k.strip profile).2.bootstrapMethodsRemoved = false) :
    (k.strip profile).1 = { k.standardize (Inspector.ofPool profile k.pool).decoder with
      pool := k.pool.fill (k.disused profile) } := by
  have hsifted : k.sifted profile = k.standardize (Inspector.ofPool profile k.pool).decoder :=
    Inspector.siftClass_eq_self (standardize_clears hdecoded hdropped)
  rw [strip_eq, hremoved, patched, hsifted]
  rfl

/-- What the four parts of an empty report say of the class. -/
theorem changed_eq_false_iff (hdecoded : k.Decoded) : (k.strip profile).2.changed = false ↔
    (k.strip profile).2.dropped = [] ∧ (k.strip profile).2.bootstrapMethodsRemoved = false ∧
      k.disused profile = [] ∧ k.substitutions (Inspector.ofPool profile k.pool).decoder = 0 := by
  have hfilled : (k.strip profile).2.filled = k.disused profile := rfl
  have hsubstitutions : (k.strip profile).2.substitutions
      = k.substitutions (Inspector.ofPool profile k.pool).decoder
        + (Inspector.ofPool profile k.pool).lateSubstitutions
          (k.standardize (Inspector.ofPool profile k.pool).decoder) := rfl
  rw [Report.changed_eq_false_iff, hfilled, hsubstitutions]
  constructor
  · rintro ⟨hdropped, hnone, hremoved, hzero⟩
    exact ⟨hdropped, hremoved, hnone, Nat.eq_zero_of_add_eq_zero_right hzero⟩
  · rintro ⟨hdropped, hremoved, hnone, hzero⟩
    have hlate := Inspector.lateSubstitutions_eq_zero (standardize_clears hdecoded hdropped)
    exact ⟨hdropped, hnone, hremoved, by rw [hzero, hlate]⟩

/-- **What is not reported as changed is the same class.** -/
theorem strip_eq_self (hdecoded : k.Decoded) (hchanged : (k.strip profile).2.changed = false) :
    (k.strip profile).1 = k := by
  obtain ⟨hdropped, hremoved, hnone, hzero⟩ := (changed_eq_false_iff hdecoded).mp hchanged
  rw [strip_eq_of_dropped hdecoded hdropped hremoved, hnone, standardize_eq_self hzero]
  rfl

/-- **A changed class in which no attribute is gone is not read back as the one that was
stripped**: it has the number zero in a slot of a dynamic constant, or code in which nothing is
reserved. -/
theorem changed_eq_false_of_rewritten (hwritable : k.Writable) (hdecoded : k.Decoded)
    (hdropped : (k.strip profile).2.dropped = [])
    (hremoved : (k.strip profile).2.bootstrapMethodsRemoved = false)
    (hsame : (k.strip profile).1.Rewritten k) : (k.strip profile).2.changed = false := by
  have hwell := hwritable.wellFormed
  rw [strip_eq_of_dropped hdecoded hdropped hremoved] at hsame
  refine (changed_eq_false_iff hdecoded).mpr ⟨hdropped, hremoved, ?_, ?_⟩
  · refine List.eq_nil_iff_forall_not_mem.mpr fun index hmem => ?_
    have hzero := (fill_disused hwell profile).constant?_filled index hmem
    have hconst := hsame.pool.constant_eq index
    obtain ⟨kind, bootstrap, nameType, hcomputed⟩ := Pool.exists_computed_of_mem_disused hwell hmem
    rw [hcomputed] at hconst
    cases hzero.symm.trans hconst
  · refine substitutions_eq_zero_iff.mpr fun m hm a ha => ?_
    -- the methods and their attributes are compared one by one
    have hmethods := List.forall₂_same.mp (List.forall₂_map_left_iff.mp hsame.methods)
    have hattributes :=
      List.forall₂_same.mp (List.forall₂_map_left_iff.mp (hmethods m hm).attributes)
    exact Attribute.substitutions_eq_zero_iff.mpr (hattributes a ha).body_eq.symm

/-! ## Nothing lost -/

/-- Nothing is dropped when every verdict is favourable. -/
theorem dropped_eq_nil_iff (hdecoded : k.Decoded) : (k.strip profile).2.dropped = [] ↔
    ∀ h ∈ (Inspector.ofPool profile k.pool).survivors k, ∀ a ∈ k.attributesAt h,
      (Inspector.ofPool profile k.pool).judge k h a = none := by
  have hdropped : (k.strip profile).2.dropped = _ := Inspector.drops_standardize hdecoded rfl
  rw [hdropped, List.flatMap_eq_nil_iff]
  simp only [List.filterMap_eq_nil_iff, Option.map_eq_none_iff]

/-- Where bootstrap methods are removed the class that was read had some. -/
theorem exists_of_bootstrapMethodsRemoved (hwritable : k.Writable) (hdecoded : k.Decoded)
    (hremoved : (k.strip profile).2.bootstrapMethodsRemoved = true) :
    ∃ a ∈ k.attributes, isBootstrapMethods k.pool a = true := by
  have hany : (k.patched profile).attributes.any
      (isBootstrapMethods (k.patched profile).pool) = true := by
    have hremoved : (!(k.disused profile).isEmpty && !(k.patched profile).pool.hasDynamic &&
        (k.patched profile).attributes.any
          (isBootstrapMethods (k.patched profile).pool)) = true := hremoved
    exact (Bool.and_eq_true_iff.mp hremoved).2
  obtain ⟨a', ha', hname⟩ := List.any_eq_true.mp hany
  rw [isBootstrapMethods_patched hwritable] at hname
  change a' ∈ (Inspector.ofPool profile k.pool).siftClassAttributes k.attributes at ha'
  rw [Inspector.siftClassAttributes_eq hdecoded rfl] at ha'
  obtain ⟨a, ha, rfl⟩ := List.mem_map.mp ha'
  rw [Inspector.isBootstrapMethods_settledOnClass] at hname
  exact ⟨a, (List.mem_filter.mp ha).1, hname⟩

/-- **Nothing is lost exactly when no attribute was dropped and the bootstrap methods stay.** -/
theorem lost_eq_zero_iff (hwritable : k.Writable) (hdecoded : k.Decoded) (profile : Profile) :
    (Inspector.ofPool profile k.pool).lost k (k.strip profile).2.bootstrapMethodsRemoved = 0 ↔
      (k.strip profile).2.dropped = [] ∧ (k.strip profile).2.bootstrapMethodsRemoved = false := by
  rw [Inspector.lost_eq_zero_iff, dropped_eq_nil_iff hdecoded]
  constructor
  · intro h
    refine ⟨fun holder hmem a ha => ?_, ?_⟩
    · have hremains := h holder hmem a ha
      rw [Inspector.remains, Bool.and_eq_true] at hremains
      exact Option.isNone_iff_eq_none.mp hremains.1
    · by_contra hremoved
      rw [Bool.not_eq_false] at hremoved
      obtain ⟨a, ha, hname⟩ := exists_of_bootstrapMethodsRemoved hwritable hdecoded hremoved
      -- the class itself survives whatever the verdicts are
      have hmem : .onClass ∈ (Inspector.ofPool profile k.pool).survivors k :=
        List.mem_filter.mpr ⟨List.mem_cons_self, rfl⟩
      have hremains := h .onClass hmem a ha
      simp [Inspector.remains, hremoved, hname] at hremains
  · rintro ⟨hjudge, hremoved⟩ holder hmem a ha
    simp [Inspector.remains, hremoved, hjudge holder hmem a ha]

/-! ## The report and the bytes -/

/-- The output is the input exactly when nothing is reported as changed. -/
theorem encode_strip_eq_iff {data written : Bytes} (h : parse data = .ok k)
    (hwritten : (k.strip profile).1.encode = .ok written) :
    written = data ↔ (k.strip profile).2.changed = false := by
  obtain ⟨hencode, hwritable, hdecoded⟩ := parse_sound h
  constructor
  · rintro rfl
    obtain ⟨written', k', hwritten', hparse, hrewritten, -⟩ :=
      (strip_settled hwritable hdecoded profile).parse_encode
    have hlen := length_strip h hwritten
    -- nothing is lost, and the class reads back as the one that was stripped
    obtain ⟨hdropped, hremoved⟩ := (lost_eq_zero_iff hwritable hdecoded profile).mp (by omega)
    cases hwritten.symm.trans hwritten'
    cases h.symm.trans hparse
    exact changed_eq_false_of_rewritten hwritable hdecoded hdropped hremoved hrewritten
  · intro hchanged
    rw [strip_eq_self hdecoded hchanged, hencode] at hwritten
    exact (Except.ok.inj hwritten).symm

/-- **The report tells the truth.** A class is reported as changed exactly when the output differs
from the input. The output is never longer, and it is as long as the input exactly when no attribute
was dropped and the bootstrap methods were not removed. -/
theorem strip_changed_iff {data : Bytes} (h : parse data = .ok k) (profile : Profile) :
    ∃ written, (k.strip profile).1.encode = .ok written ∧
      ((k.strip profile).2.changed = true ↔ written ≠ data) ∧ written.length ≤ data.length ∧
      (written.length = data.length ↔ (k.strip profile).2.dropped = [] ∧
        (k.strip profile).2.bootstrapMethodsRemoved = false) := by
  obtain ⟨-, hwritable, hdecoded⟩ := parse_sound h
  obtain ⟨written, -, hwritten, -⟩ := (strip_settled hwritable hdecoded profile).parse_encode
  have hlen := length_strip h hwritten
  have hzero := lost_eq_zero_iff hwritable hdecoded profile
  refine ⟨written, hwritten, ?_, by omega, ?_⟩
  · rw [← Bool.not_eq_false, not_iff_not]
    exact (encode_strip_eq_iff h hwritten).symm
  · rw [← hzero]
    omega

/-- The crafted class comes out shorter. -/
theorem strip_changed_iff_craftedClass :
    ∃ k, parse craftedClass = .ok k ∧ (k.strip .standard).2.dropped ≠ [] ∧
      ∃ written, (k.strip .standard).1.encode = .ok written ∧
        ((k.strip .standard).2.changed = true ↔ written ≠ craftedClass) ∧
        written.length ≤ craftedClass.length ∧
        (written.length = craftedClass.length ↔ (k.strip .standard).2.dropped = [] ∧
          (k.strip .standard).2.bootstrapMethodsRemoved = false) := by
  have hparse : (parse craftedClass).toOption.any (fun k =>
      decide ((k.strip .standard).2.dropped ≠ [])) = true := by decide +kernel
  obtain ⟨k, hk, hdropped⟩ := exists_of_toOption hparse
  exact ⟨k, hk, of_decide_eq_true hdropped, strip_changed_iff hk .standard⟩

end ClassFile

end ClassPrune
