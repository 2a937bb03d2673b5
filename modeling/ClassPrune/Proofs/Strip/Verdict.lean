import ClassPrune.Proofs.Class.Holder
import ClassPrune.Proofs.Code.Standard
import ClassPrune.Proofs.Strip.Requirement
import ClassPrune.Strip.Reach

/-!
# What a verdict depends on

A verdict looks at the surface of an attribute, which is its name and its body without what is
nested in it, at the kind, flags and descriptor of the holder, and at the constants that the
attribute names.

- `Inspector.verdict?_eq_none_iff`: when an attribute may stay.
- `Inspector.verdict?_eq`: two verdicts are equal when the demands behind them look alike.
- `Inspector.verdict?_congr`: verdicts on attributes with the same surface are the same, as long
  as the pools agree on what the attribute names.
- `Inspector.Clears`: the attribute may stay, is called after its body, and holds no reserved
  opcode. This survives every change that stripping makes (`Inspector.Clears.congr`).
-/

namespace ClassPrune

/-! ## Surfaces -/

/-- A body without the attributes nested in it. -/
def Body.surface {α : Type} : Body α → Body Empty
  | .leaf body => .leaf body
  | .code c => .code ⟨c.maxStack, c.maxLocals, c.code, c.handlers, []⟩
  | .record components => .record (components.map fun c => ⟨c.nameIndex, c.descriptorIndex, []⟩)

/-- The name of an attribute, and its body without the attributes nested in it. -/
def Attribute.surface (a : Attribute) : PoolIndex × Option (Body Empty) :=
  (a.nameIndex, a.body.map Body.surface)

/-- The surface of a code body shows its bytes and its handlers. -/
theorem Body.surface_eq_code {α : Type} {body : Body α} {c : Code Empty}
    (h : body.surface = .code c) : ∃ c', body = .code c' ∧ c'.code = c.code ∧
      c'.handlers = c.handlers := by
  cases body with
  | code c' =>
    cases h
    exact ⟨c', rfl, rfl, rfl⟩
  | _ => cases h

theorem Body.kind_surface {α : Type} (body : Body α) : body.surface.kind = body.kind := by
  cases body <;> rfl

/-- The demands of record components do not look at what is nested in them. -/
theorem componentDemands_surface {α : Type} (components : List (Component α)) :
    componentDemands (components.map fun c => (⟨c.nameIndex, c.descriptorIndex, []⟩ :
      Component Empty)) = componentDemands components := by
  rw [componentDemands, List.flatMap_map]
  rfl

namespace Attribute

variable {a a' : Attribute}

theorem nameIndex_of_surface (h : a'.surface = a.surface) : a'.nameIndex = a.nameIndex :=
  congrArg Prod.fst h

theorem body_of_surface (h : a'.surface = a.surface) :
    a'.body.map Body.surface = a.body.map Body.surface :=
  congrArg Prod.snd h

/-- Attributes with the same surface have bodies of the same form, or none. -/
theorem exists_body_of_surface (h : a'.surface = a.surface) {body' : Body Attribute}
    (hbody' : a'.body = some body') :
    ∃ body, a.body = some body ∧ body'.surface = body.surface := by
  have hmap := body_of_surface h
  rw [hbody', Option.map_some] at hmap
  obtain ⟨body, hbody, hsurface⟩ := Option.map_eq_some_iff.mp hmap.symm
  exact ⟨body, hbody, hsurface.symm⟩

/-- The code below equal surfaces is the same, up to what is nested in it. -/
theorem exists_code_of_surface (h : a'.surface = a.surface) {c' : Code Attribute}
    (hc' : a'.code? = some c') :
    ∃ c, a.code? = some c ∧ c.code = c'.code ∧ c.handlers = c'.handlers := by
  obtain ⟨body, hbody, hsurface⟩ := exists_body_of_surface h (body_of_code? hc')
  obtain ⟨c, rfl, hcode, hhandlers⟩ := Body.surface_eq_code hsurface.symm
  exact ⟨c, code?_of_body hbody, hcode, hhandlers⟩

/-- Edits of what is nested in code leave the surface as it is. -/
theorem surface_mapCode (a : Attribute) {f : Code Attribute → Code Attribute}
    (h : ∀ c, (Body.code (f c)).surface = (Body.code c).surface) :
    (a.mapCode f).surface = a.surface := by
  cases hc : a.code? with
  | none => rw [mapCode_of_none hc]
  | some c =>
    rw [mapCode_of_some hc, surface, surface, body_of_code? hc]
    show (_, some (Body.code (f c)).surface) = (_, some (Body.code c).surface)
    rw [h c]

/-- Edits of what is nested in components leave the surface as it is. -/
theorem surface_mapComponents (a : Attribute) (f : Component Attribute → List Attribute) :
    (a.mapComponents fun components => components.map fun c =>
      { c with attributes := f c }).surface = a.surface := by
  cases hc : a.components? with
  | none => rw [mapComponents_of_none hc]
  | some components =>
    rw [mapComponents_of_some hc, surface, surface, body_of_components? hc]
    show (_, some (Body.record ((components.map _).map _)))
      = (_, some (Body.record (components.map _)))
    rw [List.map_map]
    rfl

end Attribute

/-! ## Holders -/

/-- Verdicts cannot tell the holders apart. -/
structure Site.Alike (site site' : Site) : Prop where
  context_eq : site'.context = site.context
  method_eq : site'.method.map (fun m => (m.flags, m.descriptorIndex))
    = site.method.map (fun m => (m.flags, m.descriptorIndex))

theorem Site.Alike.refl (site : Site) : site.Alike site := ⟨rfl, rfl⟩

theorem Site.Alike.forbidsCode_eq {site site' : Site} (h : site.Alike site') :
    site'.forbidsCode = site.forbidsCode := by
  obtain ⟨context, method⟩ := site
  obtain ⟨context', method'⟩ := site'
  have hmethod := h.method_eq
  cases method with
  | none =>
    cases method' with
    | none => rfl
    | some m' => cases hmethod
  | some m =>
    cases method' with
    | none => cases hmethod
    | some m' =>
      obtain ⟨hflags, -⟩ := Prod.mk.inj (Option.some.inj hmethod)
      show (m'.flags.isAbstract || m'.flags.isNative) = (m.flags.isAbstract || m.flags.isNative)
      rw [hflags]

/-- Of a holder the demands see only flags and the descriptor. -/
theorem Site.Alike.leafDemands_eq {site site' : Site} (h : site.Alike site') (body : LeafBody) :
    body.demands site'.method = body.demands site.method := by
  obtain ⟨context, method⟩ := site
  obtain ⟨context', method'⟩ := site'
  have hmethod := h.method_eq
  cases body with
  | parameterAnnotations retention parameters =>
    cases method with
    | none =>
      cases method' with
      | none => rfl
      | some m' => cases hmethod
    | some m =>
      cases method' with
      | none => cases hmethod
      | some m' =>
        obtain ⟨-, hdescriptor⟩ := Prod.mk.inj (Option.some.inj hmethod)
        show Demand.parameters _ m'.descriptorIndex :: _
          = Demand.parameters _ m.descriptorIndex :: _
        rw [hdescriptor]
  | _ => rfl

namespace Inspector

variable {i i' : Inspector} {site site' : Site} {a a' : Attribute}

/-! ## Demands -/

/-- The demands of a body are those of its surface, and code counts only by what it decodes to. -/
theorem demands_congr (hsite : site.Alike site') {body body' : Body Attribute}
    (hsurface : body'.surface = body.surface)
    (hcode : ∀ c, body = .code c → i'.decoder.decode c.code = i.decoder.decode c.code) :
    i'.demands site' body' = i.demands site body := by
  cases body with
  | leaf body =>
    cases body' with
    | leaf body' =>
      cases hsurface
      exact hsite.leafDemands_eq body
    | _ => cases hsurface
  | code c =>
    obtain ⟨c', rfl, hbytes, hhandlers⟩ := Body.surface_eq_code hsurface
    have hbytes : c'.code = c.code := hbytes
    have hhandlers : c'.handlers = c.handlers := hhandlers
    rw [demands, demands, hsite.forbidsCode_eq, hbytes, hhandlers, hcode c rfl]
  | record components =>
    cases body' with
    | record components' =>
      have hmap := Body.record.inj hsurface
      rw [demands, demands, ← componentDemands_surface components',
        ← componentDemands_surface components, hmap]
    | _ => cases hsurface

/-- Code asks what cannot be met, or else what its instructions and its handlers ask. -/
theorem demands_code_cases (i : Inspector) (site : Site) (c : Code Attribute) :
    (∃ violation, i.demands site (.code c) = [.never violation]) ∨
      ∃ insns, i.decoder.decode c.code = .ok insns ∧
        i.demands site (.code c) = codeDemands insns c.handlers := by
  rw [demands]
  by_cases hforbid : site.forbidsCode = true
  · rw [if_pos hforbid]
    exact .inl ⟨_, rfl⟩
  · rw [if_neg hforbid]
    cases hdecode : i.decoder.decode c.code with
    | error e => exact .inl ⟨_, rfl⟩
    | ok insns => exact .inr ⟨insns, rfl, rfl⟩

/-- Demands ask about what the body names, and about nothing else. -/
theorem indices_demands {body : Body Attribute} {d : Demand} (hd : d ∈ i.demands site body)
    {index : PoolIndex} (hindex : index ∈ d.indices) :
    index = 0 ∨ index ∈ body.references ∨ ∃ c insns, body = .code c ∧
      i.decoder.decode c.code = .ok insns ∧ index ∈ poolOperands insns := by
  cases body with
  | leaf body =>
    have h := (body.covers site.method).indices d hd index hindex
    rw [LeafBody.map_index_requirements] at h
    exact h.imp_right .inl
  | code c =>
    rcases demands_code_cases i site c with ⟨violation, hnever⟩ | ⟨insns, hdecode, hdemands⟩
    · rw [hnever] at hd
      obtain rfl := List.mem_singleton.mp hd
      cases hindex
    · rw [hdemands] at hd
      have h := (covers_codeDemands insns c).indices d hd index hindex
      rw [List.map_append, map_index_operandRequirements, Body.map_index_requirements,
        List.mem_append] at h
      rcases h with h | h | h
      · exact .inl h
      · exact .inr (.inr ⟨c, insns, rfl, hdecode, h⟩)
      · exact .inr (.inl h)
  | record components =>
    have h := (covers_componentDemands components).indices d hd index hindex
    rw [Body.map_index_requirements] at h
    exact h.imp_right .inl

/-! ## Verdicts -/

/-- When an attribute may stay: its name is text, and under a known name it stands where it may,
has decoded, and has every demand met. -/
theorem verdict?_eq_none_iff : i.verdict? site a = none ↔
    i.pool.tag? a.nameIndex = some .utf8 ∧ ∀ kind, a.kind? i.pool = some kind →
      kind.permitted site.context = true ∧ ∃ body, a.body = some body ∧
        ∀ d ∈ i.demands site body, d.test i.pool = none := by
  rw [verdict?, Option.orElse_eq_none]
  refine and_congr Demand.test_kind_eq_none_iff ?_
  cases hkind : a.kind? i.pool with
  | none =>
    refine ⟨fun _ kind h => ?_, fun _ => rfl⟩
    cases h
  | some kind =>
    constructor
    · intro h kind' hkind'
      cases hkind'
      simp only [knownVerdict?] at h
      by_cases hpermitted : kind.permitted site.context = true
      · rw [if_pos hpermitted] at h
        cases hbody : a.body with
        | none =>
          rw [hbody] at h
          cases h
        | some body =>
          rw [hbody] at h
          exact ⟨hpermitted, body, rfl, firstViolation?_eq_none.mp h⟩
      · rw [if_neg hpermitted] at h
        cases h
    · intro h
      obtain ⟨hpermitted, body, hbody, hdemands⟩ := h kind rfl
      simp only [knownVerdict?, if_pos hpermitted, hbody]
      exact firstViolation?_eq_none.mpr hdemands

/-- Code that may stay decodes, and its instructions and handlers have their demands met. -/
theorem exists_decode_of_verdict (h : i.verdict? site a = none)
    (hkind : a.kind? i.pool = some .code) {c : Code Attribute} (hc : a.code? = some c) :
    ∃ insns, i.decoder.decode c.code = .ok insns ∧
      ∀ d ∈ codeDemands insns c.handlers, d.test i.pool = none := by
  obtain ⟨-, body, hbody, hdemands⟩ := (verdict?_eq_none_iff.mp h).2 _ hkind
  rw [Attribute.body_of_code? hc] at hbody
  obtain rfl := Option.some.inj hbody
  rcases demands_code_cases i site c with ⟨violation, hnever⟩ | ⟨insns, hdecode, hcode⟩
  · rw [hnever] at hdemands
    cases hdemands _ List.mem_cons_self
  · rw [hcode] at hdemands
    exact ⟨insns, hdecode, hdemands⟩

/-- What an attribute names does not include a changed index. -/
def Spares (i : Inspector) (site : Site) (a : Attribute) (changed : List PoolIndex) : Prop :=
  0 ∉ changed ∧ ∀ index ∈ i.attributeRoots .afterSifting site.context a, index ∉ changed

/-- Where nothing changed every attribute is spared. -/
theorem spares_nil (i : Inspector) (site : Site) (a : Attribute) : i.Spares site a [] :=
  ⟨List.not_mem_nil, fun _ _ => List.not_mem_nil⟩

/-- Under a known name everything that the demands ask about is among what the attribute names. -/
theorem Spares.demands {changed : List PoolIndex} (h : i.Spares site a changed)
    {kind : AttributeKind} (hkind : a.kind? i.pool = some kind) {body : Body Attribute}
    (hbody : a.body = some body) {d : Demand} (hd : d ∈ i.demands site body) {index : PoolIndex}
    (hindex : index ∈ d.indices) : index ∉ changed := by
  obtain ⟨hzero, hroots⟩ := h
  obtain rfl | href | ⟨c, insns, rfl, hdecode, hoperand⟩ := indices_demands hd hindex
  · exact hzero
  · refine hroots index (List.mem_cons_of_mem _ (List.mem_append_left _ ?_))
    rw [hbody]
    exact href
  · -- under a known name the operands count, on whatever holder the code stands
    refine hroots index (List.mem_cons_of_mem _ (List.mem_append_right _ ?_))
    have hcount : site.context = .onMethod ∨
        (Stage.afterSifting = .afterSifting ∧ (a.kind? i.pool).isSome = true) := by
      rw [hkind]
      exact .inr ⟨rfl, rfl⟩
    rw [operands, Attribute.code?_of_body hbody]
    dsimp only
    rw [if_pos hcount, hdecode]
    exact hoperand

/-- Verdicts on equal surfaces are equal, when the name and the demands look alike. -/
theorem verdict?_eq (hsite : site.Alike site') (hsurface : a'.surface = a.surface)
    (hcode : ∀ c, a.code? = some c → i'.decoder.decode c.code = i.decoder.decode c.code)
    (hname : i.pool.AgreeAt i'.pool a.nameIndex)
    (htests : ∀ kind body, a.kind? i.pool = some kind → a.body = some body →
      ∀ d ∈ i.demands site body, d.test i'.pool = d.test i.pool) :
    i'.verdict? site' a' = i.verdict? site a := by
  have hindex := Attribute.nameIndex_of_surface hsurface
  have hkind : a'.kind? i'.pool = a.kind? i.pool := by
    rw [Attribute.kind?, Attribute.kind?, Attribute.name, Attribute.name, hindex, hname.utf8_eq]
  have htest : (Demand.kind .attributeName a.nameIndex [.utf8]).test i'.pool
      = (Demand.kind .attributeName a.nameIndex [.utf8]).test i.pool :=
    Demand.test_eq (fun index h => List.mem_singleton.mp h ▸ hname) fun _ _ h => (nomatch h)
  rw [verdict?, verdict?, hindex, htest, hkind]
  cases hknown : a.kind? i.pool with
  | none => rfl
  | some kind =>
    have hrest : i'.knownVerdict? site' kind a' = i.knownVerdict? site kind a := by
      rw [knownVerdict?, knownVerdict?, hsite.context_eq]
      cases hbody' : a'.body with
      | none =>
        have hnone := Attribute.body_of_surface hsurface
        rw [hbody', Option.map_none] at hnone
        rw [Option.map_eq_none_iff.mp hnone.symm]
      | some body' =>
        obtain ⟨body, hbody, hbodies⟩ := Attribute.exists_body_of_surface hsurface hbody'
        have hdemands : i'.demands site' body' = i.demands site body := by
          refine demands_congr hsite hbodies fun c hc => hcode c ?_
          exact Attribute.code?_of_body (hc ▸ hbody)
        have hviolation := firstViolation?_congr (htests kind body hknown hbody)
        rw [hbody]
        simp only [hdemands, hviolation]
    simp only [hrest]

/-- **Verdicts on equal surfaces are equal**, when the pools agree on what the attribute names
and its code decodes alike. -/
theorem verdict?_congr {changed : List PoolIndex} (hpool : i.pool.AgreeOff changed i'.pool)
    (hsite : site.Alike site') (hsurface : a'.surface = a.surface)
    (hcode : ∀ c, a.code? = some c → i'.decoder.decode c.code = i.decoder.decode c.code)
    (hspares : i.Spares site a changed) : i'.verdict? site' a' = i.verdict? site a := by
  refine verdict?_eq hsite hsurface hcode (hpool.agreeAt (hspares.2 _ List.mem_cons_self)) ?_
  intro kind body hknown hbody d hd
  -- every index in a demand is one that the pools agree on
  exact Demand.test_congr hpool fun index hindex => hspares.demands hknown hbody hd hindex

/-! ## Cleared attributes -/

/-- The attribute may stay on its holder, its name is that of its body, and no reserved opcode is
left in its code. -/
structure Clears (i : Inspector) (site : Site) (a : Attribute) : Prop where
  verdict : i.verdict? site a = none
  named : ∀ body, a.body = some body → a.kind? i.pool = some body.kind
  standard : ∀ c, a.code? = some c → ∃ insns, Standard c.code insns

namespace Clears

/-- **An attribute that is cleared is cleared by every inspector whose pool agrees on what it
names**, wherever its nested attributes have gone. -/
theorem congr {changed : List PoolIndex} (h : i.Clears site a)
    (hpool : i.pool.AgreeOff changed i'.pool) (hsite : site.Alike site')
    (hsurface : a'.surface = a.surface) (hspares : i.Spares site a changed) :
    i'.Clears site' a' := by
  refine ⟨?_, ?_, ?_⟩
  · rw [verdict?_congr hpool hsite hsurface (fun c hc => ?_) hspares]
    · exact h.verdict
    · obtain ⟨insns, hstandard⟩ := h.standard c hc
      rw [(hstandard i'.decoder).1, (hstandard i.decoder).1]
  · intro body' hbody'
    obtain ⟨body, hbody, hbodies⟩ := Attribute.exists_body_of_surface hsurface hbody'
    have hnamed := h.named body hbody
    rw [← Body.kind_surface, hbodies, Body.kind_surface, ← hnamed, Attribute.kind?,
      Attribute.kind?, Attribute.name, Attribute.name, Attribute.nameIndex_of_surface hsurface,
      hpool.utf8_eq]
  · intro c' hc'
    obtain ⟨c, hc, hcode, -⟩ := Attribute.exists_code_of_surface hsurface hc'
    rw [← hcode]
    exact h.standard c hc

/-- A cleared attribute stands on a holder on which its kind may stand. -/
theorem permitted (h : i.Clears site a) {body : Body Attribute} (hbody : a.body = some body) :
    body.kind.permitted site.context = true :=
  ((verdict?_eq_none_iff.mp h.verdict).2 _ (h.named body hbody)).1

/-- Code stays on methods only. -/
theorem context_of_code (h : i.Clears site a) {c : Code Attribute} (hc : a.code? = some c) :
    site.context = .onMethod := by
  have hpermitted := h.permitted (Attribute.body_of_code? hc)
  cases hcontext : site.context with
  | onMethod => rfl
  | _ =>
    rw [hcontext] at hpermitted
    cases hpermitted

/-- Record declarations stay on classes only. -/
theorem context_of_components (h : i.Clears site a) {components : List (Component Attribute)}
    (hc : a.components? = some components) : site.context = .onClass := by
  have hpermitted := h.permitted (Attribute.body_of_components? hc)
  cases hcontext : site.context with
  | onClass => rfl
  | _ =>
    rw [hcontext] at hpermitted
    cases hpermitted

end Clears

end Inspector

end ClassPrune
