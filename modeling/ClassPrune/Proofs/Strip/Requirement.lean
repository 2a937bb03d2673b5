import ClassPrune.Proofs.Pool.Lookup
import ClassPrune.Strip.Demand
import Mathlib.Data.Option.Basic

/-!
# What the format requires of the indices in an attribute

The demands of a body say what is tested. The requirements of a body say what the format allows:
for every index that the body stores, in the order of the layout, the kinds of constant that it
may name and whether it may be zero.

- `LeafBody.requirements`: the requirements, one for each of `LeafBody.references`
  (`LeafBody.map_index_requirements`).
- `Covers`: demands that are all met imply requirements, and ask about no other index. It is
  closed under the ways in which bodies are put together, so that `LeafBody.covers` follows the
  layout of each body.
- `Demand.test_eq`, `Demand.test_congr`: a demand looks at the pool only through look-ups.
-/

namespace ClassPrune

/-! ## Demands and the pool -/

namespace Demand

/-- The indices whose kind a demand asks about. -/
def indices : Demand → List PoolIndex
  | .kind _ index _ | .fieldDescriptor _ index | .returnDescriptor index | .catchType index
  | .argument _ index => [index]
  | .parameters _ _ | .never _ => []

/-- A demand for a kind is met by a constant of one of the kinds that are asked for. Index zero is
none. -/
theorem testKind_eq_none {p : Pool} {role : Role} {index : PoolIndex} {wanted : List Tag}
    (h : testKind p role index wanted = none) : ∃ tag ∈ wanted, p.tag? index = some tag := by
  unfold testKind at h
  cases htag : p.tag? index with
  | none =>
    rw [htag] at h
    cases h
  | some found =>
    rw [htag] at h
    simp only at h
    by_cases hmem : found ∈ wanted
    · exact ⟨found, hmem, rfl⟩
    · rw [if_neg hmem] at h
      cases h

theorem test_kind_eq_none_iff {p : Pool} {role : Role} {index : PoolIndex} {wanted : Tag} :
    (Demand.kind role index [wanted]).test p = none ↔ p.tag? index = some wanted := by
  constructor
  · intro h
    obtain ⟨tag, hmem, htag⟩ := testKind_eq_none h
    rw [List.mem_singleton.mp hmem] at htag
    exact htag
  · intro htag
    rw [test, testKind, htag]
    exact if_pos (List.mem_singleton_self wanted)

/-- A demand looks at the pool at its indices only, and at the descriptor of the method. -/
theorem test_eq {p q : Pool} {d : Demand} (hindices : ∀ index ∈ d.indices, p.AgreeAt q index)
    (hdescriptor : ∀ count index, d = .parameters count index → q.utf8 index = p.utf8 index) :
    d.test q = d.test p := by
  cases d with
  | kind role index wanted | fieldDescriptor role index | returnDescriptor index
  | catchType index | argument ordinal index =>
    have hindex := hindices index List.mem_cons_self
    simp only [test, testKind, hindex.tag?_eq, hindex.utf8_eq, hindex.className_eq]
  | parameters count descriptorIndex => simp only [test, hdescriptor count descriptorIndex rfl]
  | never violation => rfl

/-- **A demand is met or not met alike in pools that agree on its indices.** -/
theorem test_congr {changed : List PoolIndex} {p q : Pool} (hpool : p.AgreeOff changed q)
    {d : Demand} (hd : ∀ index ∈ d.indices, index ∉ changed) : d.test q = d.test p :=
  test_eq (fun index hindex => hpool.agreeAt (hd index hindex))
    fun _ index _ => congrFun hpool.utf8_eq index

end Demand

/-- There is no violation when every demand is met, -/
theorem firstViolation?_eq_none {p : Pool} {demands : List Demand} :
    firstViolation? p demands = none ↔ ∀ d ∈ demands, d.test p = none :=
  List.findSome?_eq_none_iff

/-- and the first violation is the same where the pools answer every demand alike. -/
theorem firstViolation?_congr {p q : Pool} {demands : List Demand}
    (h : ∀ d ∈ demands, d.test q = d.test p) :
    firstViolation? q demands = firstViolation? p demands := by
  induction demands with
  | nil => rfl
  | cons d demands ih =>
    have hhead := h d List.mem_cons_self
    have htail := ih fun d' hd' => h d' (List.mem_cons_of_mem _ hd')
    rw [firstViolation?, firstViolation?] at *
    rw [List.findSome?_cons, List.findSome?_cons, hhead, htail]

/-! ## Requirements -/

/-- What the format allows an index to name. -/
structure Requirement where
  index : PoolIndex
  tags : List Tag
  /-- Whether the index may be zero instead. -/
  mayBeZero : Bool := false

/-- The index names an existing constant of a kind that is allowed, or is zero where it may be. -/
def Requirement.Met (p : Pool) (r : Requirement) : Prop :=
  (r.mayBeZero = true ∧ r.index = 0) ∨ ∃ tag ∈ r.tags, p.tag? r.index = some tag

/-- The kinds of constant that a load instruction or a bootstrap argument may name. -/
def loadableTags : List Tag := Tag.all.filter Tag.isLoadable

namespace ElementValue

mutual

/-- The requirements of an element value. -/
def requirements : ElementValue → List Requirement
  | .empty _ => []
  | .constant tag index => [{ index, tags := (constantTagOf? tag).toList }]
  | .enumConstant _ typeIndex nameIndex =>
    [{ index := typeIndex, tags := [.utf8] }, { index := nameIndex, tags := [.utf8] }]
  | .nested _ ⟨typeIndex, pairs⟩ =>
    { index := typeIndex, tags := [.utf8] } :: pairRequirements pairs
  | .array _ values => valueRequirements values

/-- The requirements of values, one after the other. -/
def valueRequirements : List ElementValue → List Requirement
  | [] => []
  | v :: vs => requirements v ++ valueRequirements vs

/-- The requirements of element names and their values. -/
def pairRequirements : List (PoolIndex × ElementValue) → List Requirement
  | [] => []
  | (name, v) :: more =>
    { index := name, tags := [.utf8] } :: (requirements v ++ pairRequirements more)

end

end ElementValue

/-- The requirements of an annotation. -/
def AnnotationUse.requirements (a : AnnotationUse) : List Requirement :=
  { index := a.typeIndex, tags := [.utf8] } :: ElementValue.pairRequirements a.pairs

/-- The requirements of the declaration of a module. -/
def ModuleInfo.requirements (m : ModuleInfo) : List Requirement :=
  { index := m.nameIndex, tags := [.moduleRef] } ::
    { index := m.versionIndex, tags := [.utf8], mayBeZero := true } ::
      (m.requires.flatMap (fun r =>
          [{ index := r.moduleIndex, tags := [.moduleRef] },
            { index := r.versionIndex, tags := [.utf8], mayBeZero := true }])
        ++ m.exports.flatMap (fun e =>
          { index := e.packageIndex, tags := [.packageRef] } ::
            e.targets.map fun index => { index, tags := [.moduleRef] })
        ++ m.opens.flatMap (fun o =>
          { index := o.packageIndex, tags := [.packageRef] } ::
            o.targets.map fun index => { index, tags := [.moduleRef] })
        ++ m.uses.map (fun index => { index, tags := [.classRef] })
        ++ m.provides.flatMap (fun p =>
          { index := p.serviceIndex, tags := [.classRef] } ::
            p.providers.map fun index => { index, tags := [.classRef] }))

/-- The requirements of a body without attributes of its own. -/
def LeafBody.requirements : LeafBody → List Requirement
  | .constantValue index => [{ index, tags := fieldConstantTags }]
  | .exceptions classes => classes.map fun index => { index, tags := [.classRef] }
  | .innerClasses classes =>
    classes.flatMap fun k =>
      [{ index := k.innerIndex, tags := [.classRef] },
        { index := k.outerIndex, tags := [.classRef], mayBeZero := true },
        { index := k.nameIndex, tags := [.utf8], mayBeZero := true }]
  | .enclosingMethod classIndex methodIndex =>
    [{ index := classIndex, tags := [.classRef] },
      { index := methodIndex, tags := [.nameAndType], mayBeZero := true }]
  | .synthetic => []
  | .deprecated => []
  | .signature index => [{ index, tags := [.utf8] }]
  | .sourceFile index => [{ index, tags := [.utf8] }]
  | .sourceDebugExtension _ => []
  | .lineNumberTable _ => []
  | .localVariableTable locals | .localVariableTypeTable locals =>
    locals.flatMap fun v =>
      [{ index := v.nameIndex, tags := [.utf8] }, { index := v.typeIndex, tags := [.utf8] }]
  | .stackMapTable frames =>
    (frames.flatMap StackMapFrame.objects).map fun index => { index, tags := [.classRef] }
  | .bootstrapMethods methods =>
    methods.flatMap fun m =>
      { index := m.methodIndex, tags := [.methodHandle] } ::
        m.arguments.map fun index => { index, tags := loadableTags }
  | .methodParameters parameters =>
    parameters.map fun p => { index := p.nameIndex, tags := [.utf8], mayBeZero := true }
  | .nestHost index => [{ index, tags := [.classRef] }]
  | .nestMembers classes | .permittedSubclasses classes =>
    classes.map fun index => { index, tags := [.classRef] }
  | .moduleInfo info => info.requirements
  | .modulePackages packages => packages.map fun index => { index, tags := [.packageRef] }
  | .moduleMainClass index => [{ index, tags := [.classRef] }]
  | .annotations _ items => items.flatMap AnnotationUse.requirements
  | .parameterAnnotations _ parameters =>
    parameters.flatMap fun items => items.flatMap AnnotationUse.requirements
  | .typeAnnotations _ items => items.flatMap fun a => a.inner.requirements
  | .annotationDefault value => value.requirements

/-- The requirements of a body. What its own attributes store is not counted. -/
def Body.requirements {α : Type} : Body α → List Requirement
  | .leaf body => body.requirements
  | .code c =>
    c.handlers.map fun h => { index := h.catchType, tags := [.classRef], mayBeZero := true }
  | .record components =>
    components.flatMap fun c =>
      [{ index := c.nameIndex, tags := [.utf8] }, { index := c.descriptorIndex, tags := [.utf8] }]

/-! ## Every index has a requirement -/

theorem map_index_of (tags : List Tag) (mayBeZero : Bool) (indices : List PoolIndex) :
    (indices.map fun index => (⟨index, tags, mayBeZero⟩ : Requirement)).map Requirement.index
      = indices := by
  rw [List.map_map]
  exact List.map_id indices

/-- Requirements that are put together name the indices that are put together. -/
theorem map_index_flatMap {α : Type} {f : α → List Requirement} {g : α → List PoolIndex}
    {xs : List α} (h : ∀ x ∈ xs, (f x).map Requirement.index = g x) :
    (xs.flatMap f).map Requirement.index = xs.flatMap g := by
  rw [List.map_flatMap]
  exact List.flatMap_congr h

namespace ElementValue

mutual

/-- **Every index of an element value has a requirement**, and in the order of the layout. By
induction on the value. -/
theorem map_index_requirements : ∀ v : ElementValue,
    v.requirements.map Requirement.index = v.references
  | .empty tag => by rw [requirements, references]; rfl
  | .constant tag index => by rw [requirements, references]; rfl
  | .enumConstant tag typeIndex nameIndex => by rw [requirements, references]; rfl
  | .nested tag ⟨typeIndex, pairs⟩ => by
    rw [requirements, references, List.map_cons, map_index_pairRequirements pairs]
  | .array tag values => by
    rw [requirements, references, map_index_valueRequirements values]

theorem map_index_valueRequirements : ∀ vs : List ElementValue,
    (valueRequirements vs).map Requirement.index = valueReferences vs
  | [] => by rw [valueRequirements, valueReferences]; rfl
  | v :: vs => by
    rw [valueRequirements, valueReferences, List.map_append, map_index_requirements v,
      map_index_valueRequirements vs]

theorem map_index_pairRequirements : ∀ pairs : List (PoolIndex × ElementValue),
    (pairRequirements pairs).map Requirement.index = pairReferences pairs
  | [] => by rw [pairRequirements, pairReferences]; rfl
  | (name, v) :: more => by
    rw [pairRequirements, pairReferences, List.map_cons, List.map_append,
      map_index_requirements v, map_index_pairRequirements more, List.cons_append]

end

end ElementValue

theorem AnnotationUse.map_index_requirements (a : AnnotationUse) :
    a.requirements.map Requirement.index = a.references := by
  rw [requirements, references, List.map_cons, ElementValue.map_index_pairRequirements]

theorem ModuleInfo.map_index_requirements (m : ModuleInfo) :
    m.requirements.map Requirement.index = m.references := by
  have hexposes (es : List ModuleExposes) : (es.flatMap fun e =>
      (⟨e.packageIndex, [.packageRef], false⟩ : Requirement) ::
        e.targets.map fun index => ⟨index, [.moduleRef], false⟩).map Requirement.index
      = es.flatMap fun e => e.packageIndex :: e.targets := by
    refine map_index_flatMap fun e _ => ?_
    rw [List.map_cons, map_index_of]
  have hrequires : (m.requires.flatMap fun r =>
      [(⟨r.moduleIndex, [.moduleRef], false⟩ : Requirement), ⟨r.versionIndex, [.utf8], true⟩]).map
        Requirement.index = m.requires.flatMap fun r => [r.moduleIndex, r.versionIndex] :=
    map_index_flatMap fun r _ => rfl
  have hprovides : (m.provides.flatMap fun p =>
      (⟨p.serviceIndex, [.classRef], false⟩ : Requirement) ::
        p.providers.map fun index => ⟨index, [.classRef], false⟩).map Requirement.index
      = m.provides.flatMap fun p => p.serviceIndex :: p.providers := by
    refine map_index_flatMap fun p _ => ?_
    rw [List.map_cons, map_index_of]
  rw [requirements, references, List.map_cons, List.map_cons, List.map_append, List.map_append,
    List.map_append, List.map_append, hrequires, hexposes, hexposes, map_index_of, hprovides]

theorem LeafBody.map_index_requirements (body : LeafBody) :
    body.requirements.map Requirement.index = body.references := by
  cases body with
  | exceptions classes | nestMembers classes | permittedSubclasses classes
  | modulePackages classes | stackMapTable classes => exact map_index_of _ _ _
  | innerClasses classes => exact map_index_flatMap fun k _ => rfl
  | localVariableTable locals | localVariableTypeTable locals =>
    exact map_index_flatMap fun v _ => rfl
  | bootstrapMethods methods =>
    refine map_index_flatMap fun m _ => ?_
    rw [List.map_cons, map_index_of]
  | methodParameters parameters =>
    rw [requirements, references, List.map_map]
    rfl
  | moduleInfo info => exact info.map_index_requirements
  | annotations retention items =>
    exact map_index_flatMap fun a _ => a.map_index_requirements
  | parameterAnnotations retention parameters =>
    exact map_index_flatMap fun items _ => map_index_flatMap fun a _ => a.map_index_requirements
  | typeAnnotations retention items =>
    exact map_index_flatMap fun a _ => a.inner.map_index_requirements
  | annotationDefault value => exact value.map_index_requirements
  | _ => rfl

/-- The requirements of a body are those of the indices that it stores. -/
theorem Body.map_index_requirements {α : Type} (body : Body α) :
    body.requirements.map Requirement.index = body.references := by
  cases body with
  | leaf body => exact body.map_index_requirements
  | code c =>
    rw [requirements, references, List.map_map]
    rfl
  | record components => exact map_index_flatMap fun c _ => rfl

/-! ## Demands cover requirements -/

/-- Demands that are met imply the requirements, and ask about no index besides. Index zero may
be asked about as well, but never names anything. -/
structure Covers (demands : List Demand) (requirements : List Requirement) : Prop where
  met : ∀ p : Pool, (∀ d ∈ demands, d.test p = none) → ∀ r ∈ requirements, r.Met p
  indices : ∀ d ∈ demands, ∀ index ∈ d.indices,
    index = 0 ∨ index ∈ requirements.map Requirement.index

namespace Covers

open Demand (optional each)

variable {demands demands' : List Demand} {requirements requirements' : List Requirement}

theorem nil : Covers [] [] :=
  ⟨fun _ _ _ hr => (nomatch hr), fun _ hd => (nomatch hd)⟩

/-- Parts of a layout, one after the other. -/
theorem append (h : Covers demands requirements) (h' : Covers demands' requirements') :
    Covers (demands ++ demands') (requirements ++ requirements') := by
  constructor
  · intro p hp r hr
    rcases List.mem_append.mp hr with hr | hr
    · exact h.met p (fun d hd => hp d (List.mem_append_left _ hd)) r hr
    · exact h'.met p (fun d hd => hp d (List.mem_append_right _ hd)) r hr
  · intro d hd index hindex
    rw [List.map_append, List.mem_append]
    rcases List.mem_append.mp hd with hd | hd
    · exact (h.indices d hd index hindex).imp_right .inl
    · exact (h'.indices d hd index hindex).imp_right .inr

/-- The same, with one demand for one requirement in front. -/
theorem cons {d : Demand} {r : Requirement} (h : Covers [d] [r])
    (h' : Covers demands requirements) : Covers (d :: demands) (r :: requirements) :=
  h.append h'

/-- The same for the rows of a table. -/
theorem flatMap {α : Type} {f : α → List Demand} {g : α → List Requirement} (xs : List α)
    (h : ∀ x ∈ xs, Covers (f x) (g x)) : Covers (xs.flatMap f) (xs.flatMap g) := by
  induction xs with
  | nil => exact nil
  | cons x xs ih =>
    rw [List.flatMap_cons, List.flatMap_cons]
    exact (h x List.mem_cons_self).append (ih fun y hy => h y (List.mem_cons_of_mem _ hy))

/-- A single demand that only kinds on a list can meet. -/
theorem single {d : Demand} {index : PoolIndex} {tags : List Tag} {mayBeZero : Bool}
    (hindices : d.indices = [index])
    (hmet : ∀ p : Pool, d.test p = none → ∃ tag ∈ tags, p.tag? index = some tag) :
    Covers [d] [⟨index, tags, mayBeZero⟩] := by
  constructor
  · intro p hp r hr
    obtain rfl := List.mem_singleton.mp hr
    exact .inr (hmet p (hp d List.mem_cons_self))
  · intro d' hd' index' hindex'
    obtain rfl := List.mem_singleton.mp hd'
    rw [hindices] at hindex'
    exact .inr hindex'

/-- A demand for kinds covers the requirement of these kinds. -/
theorem kind (role : Role) (index : PoolIndex) (wanted : List Tag) :
    Covers [.kind role index wanted] [⟨index, wanted, false⟩] :=
  single rfl fun _ h => Demand.testKind_eq_none h

/-- A demand that lets zero pass covers a requirement that does. -/
theorem optional (role : Role) (index : PoolIndex) (wanted : List Tag) :
    Covers (optional role index wanted) [⟨index, wanted, true⟩] := by
  unfold Demand.optional
  by_cases hzero : index = 0
  · rw [if_pos hzero]
    refine ⟨fun p _ r hr => ?_, fun d hd => (nomatch hd)⟩
    obtain rfl := List.mem_singleton.mp hr
    exact .inl ⟨rfl, hzero⟩
  · rw [if_neg hzero]
    exact single rfl fun _ h => Demand.testKind_eq_none h

/-- A demand in each of several places. -/
theorem map {α : Type} {f : α → Demand} {g : α → Requirement} (xs : List α)
    (h : ∀ x ∈ xs, Covers [f x] [g x]) : Covers (xs.map f) (xs.map g) := by
  rw [List.map_eq_flatMap, List.map_eq_flatMap]
  exact flatMap xs h

theorem each (role : Role) (indices : List PoolIndex) (wanted : List Tag) :
    Covers (each role indices wanted) (indices.map fun index => ⟨index, wanted, false⟩) :=
  map indices fun index _ => kind role index wanted

/-- A descriptor that is legal is the text of a constant, as the requirement says. -/
theorem fieldDescriptor (role : Role) (index : PoolIndex) :
    Covers [.fieldDescriptor role index] [⟨index, [.utf8], false⟩] := by
  refine single rfl fun p h => ?_
  rw [Demand.test] at h
  exact Demand.testKind_eq_none ((Option.orElse_eq_none _ _).mp h).1

theorem returnDescriptor (index : PoolIndex) :
    Covers [.returnDescriptor index] [⟨index, [.utf8], false⟩] := by
  refine single rfl fun p h => ?_
  rw [Demand.test] at h
  exact Demand.testKind_eq_none ((Option.orElse_eq_none _ _).mp h).1

/-- An argument of a bootstrap method may be of any kind that can be loaded. -/
theorem argument (ordinal : Nat) (index : PoolIndex) :
    Covers [.argument ordinal index] [⟨index, loadableTags, false⟩] := by
  refine single rfl fun p h => ?_
  rw [Demand.test] at h
  cases htag : p.tag? index with
  | none =>
    rw [htag] at h
    cases h
  | some found =>
    rw [htag] at h
    simp only at h
    by_cases hloadable : found.isLoadable = true
    · refine ⟨found, List.mem_filter.mpr ⟨?_, hloadable⟩, rfl⟩
      cases found <;> decide
    · rw [if_neg hloadable] at h
      cases h

/-- A demand that cannot be met covers whatever is required. -/
theorem of_unmet {d : Demand} (hunmet : ∀ p : Pool, d.test p ≠ none)
    (hindices : ∀ index ∈ d.indices, index = 0) (requirements : List Requirement) :
    Covers [d] requirements := by
  constructor
  · intro p hp
    exact absurd (hp d List.mem_cons_self) (hunmet p)
  · intro d' hd' index hindex
    obtain rfl := List.mem_singleton.mp hd'
    exact .inl (hindices index hindex)

/-- Demands that cannot be met cover everything. -/
theorem never (violation : Violation) (requirements : List Requirement) :
    Covers [.never violation] requirements :=
  of_unmet (d := .never violation) (fun _ => Option.some_ne_none violation)
    (fun _ hindex => absurd hindex List.not_mem_nil) requirements

end Covers

/-! ### Element values -/

namespace ElementValue

theorem testKind_zero_ne_none (p : Pool) (role : Role) (wanted : List Tag) :
    Demand.testKind p role 0 wanted ≠ none := by
  intro h
  obtain ⟨tag, -, htag⟩ := Demand.testKind_eq_none h
  cases htag

/-- The demands of a tag on index zero cannot be met: zero names no constant. -/
theorem covers_indexDemands_zero (tag : UInt8) (requirements : List Requirement) :
    Covers (indexDemands tag 0) requirements := by
  unfold indexDemands
  split
  · exact Covers.never _ _
  · exact Covers.never _ _
  · exact Covers.never _ _
  · split
    · refine Covers.of_unmet (d := .returnDescriptor 0) (fun p h => ?_)
        (fun index hindex => List.mem_singleton.mp hindex) _
      rw [Demand.test] at h
      exact testKind_zero_ne_none p _ _ ((Option.orElse_eq_none _ _).mp h).1
    · rename_i wanted _ _ _
      exact Covers.of_unmet (d := .kind (.elementValue tag) 0 [wanted])
        (fun p => testKind_zero_ne_none p (.elementValue tag) [wanted])
        (fun index hindex => List.mem_singleton.mp hindex) _
  · exact Covers.never _ _

/-- The tag of an element value says of which kind its constant must be. -/
theorem covers_indexDemands (tag : UInt8) (index : PoolIndex) :
    Covers (indexDemands tag index) [⟨index, (constantTagOf? tag).toList, false⟩] := by
  unfold indexDemands
  split
  · exact Covers.never _ _
  · exact Covers.never _ _
  · exact Covers.never _ _
  · rename_i wanted hform hwanted
    rw [hwanted]
    split
    · rename_i hclass
      have hutf8 : wanted = .utf8 := by
        rw [constantTagOf?, hclass] at hwanted
        exact (Option.some.inj hwanted).symm
      rw [hutf8]
      exact Covers.returnDescriptor index
    · exact Covers.kind _ _ _
  · exact Covers.never _ _

mutual

/-- The demands of an element value cover its requirements, by induction on the value. -/
theorem covers : ∀ v : ElementValue, Covers v.demands v.requirements
  | .empty tag => by
    rw [demands]
    exact covers_indexDemands_zero tag _
  | .constant tag index => by
    rw [demands, requirements]
    exact covers_indexDemands tag index
  | .enumConstant tag typeIndex nameIndex => by
    rw [demands, requirements]
    split
    · exact (Covers.fieldDescriptor _ _).cons (Covers.kind _ _ _)
    · exact covers_indexDemands_zero tag _
  | .nested tag ⟨typeIndex, pairs⟩ => by
    rw [demands, requirements]
    split
    · exact (Covers.fieldDescriptor _ _).cons (covers_pairDemands pairs)
    · exact covers_indexDemands_zero tag _
  | .array tag values => by
    rw [demands, requirements]
    split
    · exact covers_valueDemands values
    · exact covers_indexDemands_zero tag _

theorem covers_valueDemands : ∀ vs : List ElementValue,
    Covers (valueDemands vs) (valueRequirements vs)
  | [] => by
    rw [valueDemands, valueRequirements]
    exact Covers.nil
  | v :: vs => by
    rw [valueDemands, valueRequirements]
    exact (covers v).append (covers_valueDemands vs)

theorem covers_pairDemands : ∀ pairs : List (PoolIndex × ElementValue),
    Covers (pairDemands pairs) (pairRequirements pairs)
  | [] => by
    rw [pairDemands, pairRequirements]
    exact Covers.nil
  | (name, v) :: more => by
    rw [pairDemands, pairRequirements]
    exact (Covers.kind _ _ _).cons ((covers v).append (covers_pairDemands more))

end

end ElementValue

theorem AnnotationUse.covers (a : AnnotationUse) : Covers a.demands a.requirements :=
  (Covers.fieldDescriptor _ _).cons (ElementValue.covers_pairDemands a.pairs)

/-! ### Bodies -/

/-- Bootstrap methods: a method handle and loadable arguments. -/
theorem covers_bootstrapDemands (ordinal : Nat) (methods : List BootstrapMethod) :
    Covers (bootstrapDemands ordinal methods) (LeafBody.bootstrapMethods methods).requirements := by
  induction methods generalizing ordinal with
  | nil => exact Covers.nil
  | cons m more ih =>
    have harguments := Covers.map m.arguments fun index _ => Covers.argument ordinal index
    exact (Covers.kind _ _ _).cons (harguments.append (ih (ordinal + 1)))

theorem ModuleInfo.covers (m : ModuleInfo) : Covers m.demands m.requirements := by
  have hrequires := Covers.flatMap m.requires fun r _ =>
    (Covers.kind .requires r.moduleIndex [.moduleRef]).cons
      (Covers.optional .requiresVersion r.versionIndex [.utf8])
  have hexports := Covers.flatMap m.exports fun e _ =>
    (Covers.kind .exports e.packageIndex [.packageRef]).cons
      (Covers.each .exportsTo e.targets [.moduleRef])
  have hopens := Covers.flatMap m.opens fun o _ =>
    (Covers.kind .opens o.packageIndex [.packageRef]).cons
      (Covers.each .opensTo o.targets [.moduleRef])
  have hprovides := Covers.flatMap m.provides fun p _ =>
    (Covers.kind .provides p.serviceIndex [.classRef]).cons
      (Covers.each .providesWith p.providers [.classRef])
  have huses := Covers.each .uses m.uses [.classRef]
  have hversion := Covers.optional .moduleVersion m.versionIndex [.utf8]
  have hall := (Covers.kind .moduleName m.nameIndex [.moduleRef]).cons
    (((((hversion.append hrequires).append hexports).append hopens).append huses).append hprovides)
  exact hall

/-- **The demands of a body cover its requirements.** -/
theorem LeafBody.covers (method : Option Member) (body : LeafBody) :
    Covers (body.demands method) body.requirements := by
  cases body with
  | constantValue index | signature index | sourceFile index | nestHost index
  | moduleMainClass index => exact Covers.kind _ _ _
  | exceptions classes | nestMembers classes | permittedSubclasses classes
  | modulePackages classes | stackMapTable frames => exact Covers.each _ _ _
  | synthetic | deprecated | sourceDebugExtension _ | lineNumberTable _ => exact Covers.nil
  | innerClasses classes =>
    exact Covers.flatMap classes fun k _ => (Covers.kind _ _ _).cons
      ((Covers.optional _ _ _).append (Covers.optional _ _ _))
  | enclosingMethod classIndex methodIndex =>
    exact (Covers.kind _ _ _).cons (Covers.optional _ _ _)
  | localVariableTable locals | localVariableTypeTable locals =>
    exact Covers.flatMap locals fun v _ => Covers.each _ _ _
  | bootstrapMethods methods => exact covers_bootstrapDemands 0 methods
  | methodParameters parameters =>
    have h := Covers.flatMap parameters fun p _ =>
      Covers.optional .parameterName p.nameIndex [.utf8]
    rw [← List.map_eq_flatMap] at h
    exact h
  | moduleInfo info => exact info.covers
  | annotations retention items => exact Covers.flatMap items fun a _ => a.covers
  | parameterAnnotations retention parameters =>
    cases method with
    | none => exact Covers.never _ _
    | some m =>
      have h := Covers.flatMap parameters fun items _ =>
        Covers.flatMap items fun a _ => a.covers
      -- the number of parameters is asked about without naming a constant
      constructor
      · intro p hp
        exact h.met p fun d hd => hp d (List.mem_cons_of_mem _ hd)
      · intro d hd index hindex
        rcases List.mem_cons.mp hd with rfl | hd
        · cases hindex
        · exact h.indices d hd index hindex
  | typeAnnotations retention items => exact Covers.flatMap items fun a _ => a.inner.covers
  | annotationDefault value => exact value.covers

theorem covers_componentDemands {α : Type} (components : List (Component α)) :
    Covers (componentDemands components) (Body.record components).requirements :=
  Covers.flatMap components fun c _ =>
    (Covers.kind _ _ _).cons (Covers.fieldDescriptor _ c.descriptorIndex)

/-! ### Code -/

/-- The requirements of the instructions of a code body. -/
def operandRequirements (insns : List Instruction) : List Requirement :=
  insns.filterMap fun
    | .constant op index _ => some { index, tags := operandTags op }
    | _ => none

/-- The operands of instructions have requirements, in the order of the instructions. -/
theorem map_index_operandRequirements (insns : List Instruction) :
    (operandRequirements insns).map Requirement.index = poolOperands insns := by
  rw [operandRequirements, poolOperands, List.map_filterMap]
  congr 1
  funext insn
  cases insn <;> rfl

/-- A handler without a type catches everything. -/
theorem Covers.catchType (index : PoolIndex) :
    Covers (if index = 0 then [] else [.catchType index]) [⟨index, [.classRef], true⟩] := by
  by_cases hzero : index = 0
  · rw [if_pos hzero]
    refine ⟨fun p _ r hr => ?_, fun d hd => (nomatch hd)⟩
    obtain rfl := List.mem_singleton.mp hr
    exact .inl ⟨rfl, hzero⟩
  · rw [if_neg hzero]
    refine single rfl fun p h => ?_
    rw [Demand.test] at h
    exact Demand.testKind_eq_none ((Option.orElse_eq_none _ _).mp h).1

/-- The demands of code cover what its instructions and its handlers require. -/
theorem covers_codeDemands {α : Type} (insns : List Instruction) (c : Code α) :
    Covers (codeDemands insns c.handlers)
      (operandRequirements insns ++ (Body.code c).requirements) := by
  have hinsns : Covers (insns.filterMap Instruction.demand?) (operandRequirements insns) := by
    induction insns with
    | nil => exact Covers.nil
    | cons insn insns ih =>
      cases insn with
      | constant op index trailing => exact (Covers.kind _ _ _).cons ih
      | _ => exact ih
  have hhandlers : Covers
      (c.handlers.filterMap fun h =>
        if h.catchType = 0 then none else some (.catchType h.catchType))
      (Body.code c).requirements := by
    rw [Body.requirements]
    induction c.handlers with
    | nil => exact Covers.nil
    | cons h handlers ih =>
      have hhead := (Covers.catchType h.catchType).append ih
      rw [List.filterMap_cons, List.map_cons]
      by_cases hzero : h.catchType = 0
      · rw [if_pos hzero] at hhead ⊢
        exact hhead
      · rw [if_neg hzero] at hhead ⊢
        exact hhead
  exact hinsns.append hhandlers

end ClassPrune
