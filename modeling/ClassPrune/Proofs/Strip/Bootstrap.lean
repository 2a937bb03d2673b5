import ClassPrune.Proofs.Strip.Report

/-!
# Bootstrap methods

Two things take the bootstrap methods from a class: the verdict on them, and their removal once no
dynamic constant is left. Only the second looks at the constants that would name them.

- `BootstrapMethod.Legal`, `Attribute.legalBootstraps`: what a verdict asks of bootstrap methods.
- `Inspector.staysOnClass_eq_legalBootstraps`: it asks nothing else.
- `ClassFile.bootstrapTables_strip`: what stripping leaves of the bootstrap methods of a class.
- `ClassFile.bootstrapTables_of_dynamic`: as long as a dynamic constant is left, all of them stay
  that are legal.
-/

namespace ClassPrune

/-! ## Legal bootstrap methods -/

/-- The method is a method handle, and its arguments are constants that can be loaded. -/
structure BootstrapMethod.Legal (p : Pool) (m : BootstrapMethod) : Prop where
  method : p.tag? m.methodIndex = some .methodHandle
  arguments : ∀ index ∈ m.arguments, (p.tag? index).any Tag.isLoadable = true

instance (p : Pool) (m : BootstrapMethod) : Decidable (m.Legal p) :=
  decidable_of_iff (p.tag? m.methodIndex = some .methodHandle ∧
      m.arguments.all (fun index => (p.tag? index).any Tag.isLoadable) = true)
    ⟨fun h => ⟨h.1, List.all_eq_true.mp h.2⟩, fun h => ⟨h.1, List.all_eq_true.mpr h.2⟩⟩

/-- Bootstrap methods that have decoded and are all legal. -/
def Attribute.legalBootstraps (p : Pool) (a : Attribute) : Bool :=
  match a.body with
  | some (.leaf (.bootstrapMethods methods)) => methods.all fun m => decide (m.Legal p)
  | _ => false

namespace Demand

theorem test_argument_eq_none_iff {p : Pool} {ordinal : Nat} {index : PoolIndex} :
    (Demand.argument ordinal index).test p = none ↔ (p.tag? index).any Tag.isLoadable = true := by
  rw [test]
  cases p.tag? index with
  | none => simp
  | some found => simp

end Demand

/-- The demands on bootstrap methods are met when each method is legal. The numbers of the methods
only matter for messages. -/
theorem forall_bootstrapDemands_iff {p : Pool} {ordinal : Nat} {methods : List BootstrapMethod} :
    (∀ d ∈ bootstrapDemands ordinal methods, d.test p = none) ↔ ∀ m ∈ methods, m.Legal p := by
  induction methods generalizing ordinal with
  | nil => simp [bootstrapDemands]
  | cons m methods ih =>
    rw [bootstrapDemands, List.forall_mem_cons, List.forall_mem_append, List.forall_mem_map, ih,
      List.forall_mem_cons, Demand.test_kind_eq_none_iff, ← and_assoc]
    refine and_congr_left fun _ => ?_
    simp only [Demand.test_argument_eq_none_iff]
    exact ⟨fun ⟨hmethod, harguments⟩ => ⟨hmethod, harguments⟩,
      fun hlegal => ⟨hlegal.method, hlegal.arguments⟩⟩

theorem Body.exists_bootstrapMethods {α : Type} {body : Body α}
    (h : body.kind = .bootstrapMethods) : ∃ methods, body = .leaf (.bootstrapMethods methods) := by
  cases body with
  | leaf body =>
    cases body with
    | bootstrapMethods methods => exact ⟨methods, rfl⟩
    | annotations retention _ | parameterAnnotations retention _ | typeAnnotations retention _ =>
      cases retention <;> cases h
    | _ => cases h
  | _ => cases h

namespace Inspector

variable {i : Inspector} {a : Attribute}

/-- **Bootstrap methods stay on their class exactly when they are legal.** -/
theorem staysOnClass_eq_legalBootstraps (hdecoded : a.Decoded i.pool)
    (hname : ClassFile.isBootstrapMethods i.pool a = true) :
    i.staysOnClass a = a.legalBootstraps i.pool := by
  have hkind := ClassFile.kind?_of_isBootstrapMethods hname
  have htext : i.pool.tag? a.nameIndex = some .utf8 := by
    refine Pool.tag?_of_utf8_ne fun hempty => ?_
    have hsame : a.name i.pool = AttributeKind.bootstrapMethods.name := of_decide_eq_true hname
    rw [Attribute.name, hempty] at hsame
    exact absurd hsame (by decide)
  rw [Bool.eq_iff_iff, staysOnClass, Option.isNone_iff_eq_none, verdict?_eq_none_iff, hkind,
    and_iff_right htext, Attribute.legalBootstraps]
  cases hbody : a.body with
  | none => simp
  | some body =>
    -- the name decides the kind of the body
    have hsame := hdecoded.kind?_of_body hbody
    rw [hkind] at hsame
    obtain ⟨methods, rfl⟩ := Body.exists_bootstrapMethods (Option.some.inj hsame).symm
    simp only [Option.some.injEq, forall_eq', exists_eq_left', demands, LeafBody.demands,
      forall_bootstrapDemands_iff, List.all_eq_true, decide_eq_true_eq]
    exact and_iff_right rfl

end Inspector

/-! ## What stripping leaves of them -/

namespace Pool

/-- A dynamic constant or call site is left in the pool. -/
theorem hasDynamic_of_tag {p : Pool} (hsize : p.size ≤ 0xFFFF) {index : PoolIndex}
    (h : p.tag? index = some .dynamic ∨ p.tag? index = some .invokeDynamic) :
    p.hasDynamic = true := by
  cases hfind : p.find? index with
  | none => simp [tag?, entry?, hfind] at h
  | some id =>
    refine List.any_eq_true.mpr ⟨(index, id), (mem_occupied_iff hsize).mpr hfind, ?_⟩
    refine isDynamic_iff.mpr ?_
    simpa [tag?, entry?, hfind] using h

end Pool

namespace ClassFile

variable {profile : Profile} {k : ClassFile}

/-- The attributes of the class that are called as the bootstrap methods are. -/
def bootstrapTables (k : ClassFile) : List Attribute :=
  k.attributes.filter (isBootstrapMethods k.pool)

/-- The legal bootstrap methods are left, unless the report says that they were removed. -/
theorem bootstrapTables_strip (hwritable : k.Writable) (hdecoded : k.Decoded)
    (profile : Profile) : (k.strip profile).1.bootstrapTables
      = if (k.strip profile).2.bootstrapMethodsRemoved then []
        else k.bootstrapTables.filter (Attribute.legalBootstraps k.pool) := by
  let i := Inspector.ofPool profile k.pool
  have hnames : isBootstrapMethods (k.strip profile).1.pool = isBootstrapMethods k.pool := by
    rw [pool_strip]
    exact funext fun a => isBootstrapMethods_patched hwritable profile a
  rw [bootstrapTables, hnames, attributes_strip_eq_leftAt hwritable hdecoded,
    Inspector.leftAt_onClass, List.filter_filter]
  cases hremoved : (k.strip profile).2.bootstrapMethodsRemoved with
  | true => simp
  | false =>
    simp only [Bool.false_and, Bool.not_false, Bool.and_true, Bool.false_eq_true, if_false]
    have hsettled : isBootstrapMethods k.pool ∘ i.settledOnClass = isBootstrapMethods k.pool :=
      funext fun a => Inspector.isBootstrapMethods_settledOnClass i k.pool a
    rw [List.filter_map, hsettled, List.filter_filter, bootstrapTables, List.filter_filter]
    -- bootstrap methods are no record, so there is nothing in them to sift
    refine (map_eq_self_of_mem fun a ha => ?_).trans (List.filter_congr fun a ha => ?_)
    · obtain ⟨hmem, hboth⟩ := List.mem_filter.mp ha
      have hname := (Bool.and_eq_true_iff.mp hboth).1
      exact Attribute.mapComponents_of_none
        (components?_of_isBootstrapMethods (hdecoded.attributes a hmem) hname) _
    · by_cases hname : isBootstrapMethods k.pool a = true
      · have hlegal : i.staysOnClass a = a.legalBootstraps k.pool :=
          Inspector.staysOnClass_eq_legalBootstraps (hdecoded.attributes a ha) hname
        rw [hname, hlegal, Bool.true_and, Bool.and_true]
      · rw [Bool.eq_false_iff.mpr hname, Bool.false_and, Bool.and_false]

/-- Bootstrap methods are removed only when no dynamic constant is left. -/
theorem bootstrapMethodsRemoved_eq_false (h : (k.strip profile).1.pool.hasDynamic = true) :
    (k.strip profile).2.bootstrapMethodsRemoved = false := by
  rw [pool_strip] at h
  show (!(k.disused profile).isEmpty && !(k.pool.fill (k.disused profile)).hasDynamic && _) = false
  rw [h]
  simp

/-- As long as a dynamic constant is left, so are the legal bootstrap methods. -/
theorem bootstrapTables_of_hasDynamic (hwritable : k.Writable) (hdecoded : k.Decoded)
    {index : PoolIndex} (hdynamic : (k.strip profile).1.pool.tag? index = some .dynamic ∨
      (k.strip profile).1.pool.tag? index = some .invokeDynamic) :
    (k.strip profile).1.bootstrapTables
      = k.bootstrapTables.filter (Attribute.legalBootstraps k.pool) := by
  have hsize := (strip_settled hwritable hdecoded profile).writable.wellFormed.size_le
  have hkept := bootstrapMethodsRemoved_eq_false (Pool.hasDynamic_of_tag hsize hdynamic)
  rw [bootstrapTables_strip hwritable hdecoded, hkept]
  rfl

/-- Bootstrap methods that are not legal are dropped, and the report says so. -/
theorem mem_dropped_of_not_legal (hdecoded : k.Decoded) (profile : Profile) {a : Attribute}
    (ha : a ∈ k.bootstrapTables) (hlegal : a.legalBootstraps k.pool = false) :
    ∃ violation, ⟨s!"class {k.className}", "BootstrapMethods", violation⟩
      ∈ (k.strip profile).2.dropped := by
  let i := Inspector.ofPool profile k.pool
  obtain ⟨hmem, hname⟩ := List.mem_filter.mp ha
  have hstays : i.staysOnClass a = a.legalBootstraps k.pool :=
    Inspector.staysOnClass_eq_legalBootstraps (hdecoded.attributes a hmem) hname
  rw [hlegal] at hstays
  obtain ⟨violation, hviolation⟩ :=
    Option.isSome_iff_exists.mp (Option.isNone_eq_false_iff.mp hstays)
  have hlabel : i.attributeLabel a = "BootstrapMethods" := by
    have hsame : a.name k.pool = "BootstrapMethods" := of_decide_eq_true hname
    show (if a.name k.pool = "" then _ else a.name k.pool) = _
    rw [hsame]
    rfl
  have hdropped : (k.strip profile).2.dropped = _ := Inspector.drops_standardize hdecoded rfl
  refine ⟨violation, ?_⟩
  rw [hdropped, List.mem_flatMap]
  refine ⟨.onClass, List.mem_filter.mpr ⟨List.mem_cons_self, rfl⟩, ?_⟩
  refine List.mem_filterMap.mpr ⟨a, hmem, ?_⟩
  have hjudge : i.judge k .onClass a = some violation := hviolation
  rw [hjudge, hlabel]
  rfl

/-- **As long as a dynamic constant or call site is left in the pool, stripping leaves exactly the
legal bootstrap methods on the class**, as they were and in their order, so that a class with legal
ones keeps some. Those that are not legal are dropped although constants may name them; the report
lists them. -/
theorem bootstrapTables_of_dynamic {data : Bytes} (h : parse data = .ok k) (profile : Profile)
    {index : PoolIndex} (hdynamic : (k.strip profile).1.pool.tag? index = some .dynamic ∨
      (k.strip profile).1.pool.tag? index = some .invokeDynamic) :
    (k.strip profile).1.bootstrapTables
        = k.bootstrapTables.filter (Attribute.legalBootstraps k.pool) ∧
      ∀ a ∈ k.bootstrapTables, a.legalBootstraps k.pool = false →
        ∃ violation, ⟨s!"class {k.className}", "BootstrapMethods", violation⟩
          ∈ (k.strip profile).2.dropped := by
  obtain ⟨-, hwritable, hdecoded⟩ := parse_sound h
  exact ⟨bootstrapTables_of_hasDynamic hwritable hdecoded hdynamic,
    fun a ha hlegal => mem_dropped_of_not_legal hdecoded profile ha hlegal⟩

/-- What the sifted class stores keeps its kind. -/
theorem tag?_strip_of_root (hwritable : k.Writable) {index : PoolIndex}
    (hroot : index ∈ (Inspector.ofPool profile k.pool).roots .afterSifting (k.sifted profile)) :
    (k.strip profile).1.pool.tag? index = k.pool.tag? index := by
  rw [pool_strip]
  exact (agreeOff_patched hwritable profile).tag?_eq index
    (not_mem_disused_of_root hwritable.wellFormed hroot)

/-- A class with a method that makes a dynamic call, and with a table of one bootstrap method for
each of the references. Constant 9 is a method handle, and constant 7 a name with a descriptor. -/
def callSiteClass (references : List UInt8) : Bytes :=
  [0xCA, 0xFE, 0xBA, 0xBE, 0, 0, 0, 52,
    0, 11, 1, 0, 1, 65, 7, 0, 1, 1, 0, 1, 109, 1, 0, 3, 40, 41, 86, 1, 0, 4, 67, 111, 100, 101,
    1, 0, 16, 66, 111, 111, 116, 115, 116, 114, 97, 112, 77, 101, 116, 104, 111, 100, 115,
    12, 0, 3, 0, 4, 10, 0, 2, 0, 7, 15, 6, 0, 8, 18, 0, 0, 0, 7,
    0, 0x21, 0, 2, 0, 0, 0, 0,
    0, 0,
    0, 1,
    0, 9, 0, 3, 0, 4, 0, 1,
    0, 5, 0, 0, 0, 18, 0, 0, 0, 0, 0, 0, 0, 6, 0xBA, 0, 10, 0, 0, 0xB1, 0, 0, 0, 0,
    0, UInt8.ofNat references.length] ++
  references.flatMap fun reference => [0, 6, 0, 0, 0, 6, 0, 1, 0, reference, 0, 0]

/-- Of two tables the one with the method handle is left. -/
theorem bootstrapTables_of_dynamic_callSiteClass :
    ∃ k, parse (callSiteClass [9, 7]) = .ok k ∧ k.bootstrapTables.length = 2 ∧
      (k.strip .standard).1.pool.tag? 10 = some .invokeDynamic ∧
      (k.strip .standard).1.bootstrapTables.length = 1 ∧
      (k.strip .standard).1.bootstrapTables
          = k.bootstrapTables.filter (Attribute.legalBootstraps k.pool) ∧
        ∀ a ∈ k.bootstrapTables, a.legalBootstraps k.pool = false →
          ∃ violation, ⟨s!"class {k.className}", "BootstrapMethods", violation⟩
            ∈ (k.strip .standard).2.dropped := by
  have hparse : (parse (callSiteClass [9, 7])).toOption.any (fun k =>
      decide (10 ∈ (Inspector.ofPool .standard k.pool).roots .afterSifting (k.sifted .standard) ∧
        k.pool.tag? 10 = some .invokeDynamic ∧ k.bootstrapTables.length = 2 ∧
        (k.bootstrapTables.filter (Attribute.legalBootstraps k.pool)).length = 1)) = true := by
    decide +kernel
  obtain ⟨k, hk, hcheck⟩ := exists_of_toOption hparse
  obtain ⟨hroot, htag, hbefore, hafter⟩ := of_decide_eq_true hcheck
  rw [← tag?_strip_of_root (parse_sound hk).2.1 hroot] at htag
  obtain ⟨hleft, hreported⟩ := bootstrapTables_of_dynamic hk .standard (.inr htag)
  exact ⟨k, hk, hbefore, htag, hleft ▸ hafter, hleft, hreported⟩

/-- A class whose only table is not legal loses it, although its method still makes the call. -/
theorem bootstrapTables_lost_callSiteClass :
    ∃ k, parse (callSiteClass [7]) = .ok k ∧ k.bootstrapTables ≠ [] ∧
      (k.strip .standard).1.pool.tag? 10 = some .invokeDynamic ∧
      (k.strip .standard).1.bootstrapTables = [] := by
  have hparse : (parse (callSiteClass [7])).toOption.any (fun k =>
      decide (10 ∈ (Inspector.ofPool .standard k.pool).roots .afterSifting (k.sifted .standard) ∧
        k.pool.tag? 10 = some .invokeDynamic ∧ k.bootstrapTables.length ≠ 0 ∧
        (k.bootstrapTables.filter (Attribute.legalBootstraps k.pool)).length = 0)) = true := by
    decide +kernel
  obtain ⟨k, hk, hcheck⟩ := exists_of_toOption hparse
  obtain ⟨hroot, htag, hbefore, hafter⟩ := of_decide_eq_true hcheck
  obtain ⟨-, hwritable, hdecoded⟩ := parse_sound hk
  rw [← tag?_strip_of_root hwritable hroot] at htag
  have hleft := bootstrapTables_of_hasDynamic hwritable hdecoded (.inr htag)
  exact ⟨k, hk, fun hnil => hbefore (hnil ▸ rfl), htag, hleft ▸ List.length_eq_zero_iff.mp hafter⟩

end ClassFile

end ClassPrune
