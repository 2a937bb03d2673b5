import ClassPrune.Proofs.Strip.Settled

/-!
# After stripping nothing illegal is left

- `Attribute.Lawful`: what the format asks of an attribute on a holder of some kind, said against a
  pool and without reference to how it is tested.
- `Inspector.Clears.lawful`: an attribute that is cleared is lawful.
- `ClassFile.Clean.clears_of_holds`: in a clean class every attribute is cleared, at every depth of
  nesting. Stripping gives clean classes, so there every attribute is lawful against the pool that
  the class then has.

The demands that are tested and the requirements of the format are two descriptions, made apart from
each other. Here they meet: the requirements are those of `LeafBody.requirements` and its relatives,
index by index, and a verdict is only ever taken on demands.
-/

namespace ClassPrune

/-- The name is text. Under a known name the attribute has the body of that name, may stand where
it stands, and every index that the body stores is zero where it may be or names a constant of a
kind that is allowed there. Code decodes without reserved opcodes, and every instruction that
names a constant names one of a kind that it may. -/
structure Attribute.Lawful (p : Pool) (context : Context) (a : Attribute) : Prop where
  name : p.tag? a.nameIndex = some .utf8
  known : ∀ kind, a.kind? p = some kind → ∃ body, a.body = some body ∧ body.kind = kind ∧
    kind.permitted context = true ∧ body.requirements.map Requirement.index = body.references ∧
    ∀ r ∈ body.requirements, r.Met p
  code : ∀ c, a.code? = some c → ∃ insns, Standard c.code insns ∧
    ∀ op index trailing, .constant op index trailing ∈ insns →
      ∃ tag ∈ operandTags op, p.tag? index = some tag

namespace Inspector

variable {i : Inspector} {site : Site} {a : Attribute}

/-- A body with all its demands met has all its requirements met. -/
theorem met_of_demands {body : Body Attribute}
    (h : ∀ d ∈ i.demands site body, d.test i.pool = none) :
    ∀ r ∈ body.requirements, r.Met i.pool := by
  cases body with
  | leaf body => exact (body.covers site.method).met i.pool h
  | code c =>
    rcases demands_code_cases i site c with ⟨violation, hnever⟩ | ⟨insns, -, hdemands⟩
    · rw [hnever] at h
      cases h _ List.mem_cons_self
    · rw [hdemands] at h
      intro r hr
      exact (covers_codeDemands insns c).met i.pool h r (List.mem_append_right _ hr)
  | record components => exact (covers_componentDemands components).met i.pool h

/-- **An attribute that is cleared is lawful.** -/
theorem Clears.lawful (h : i.Clears site a) : a.Lawful i.pool site.context := by
  obtain ⟨hname, hknown⟩ := verdict?_eq_none_iff.mp h.verdict
  refine ⟨hname, ?_, ?_⟩
  · intro kind hkind
    obtain ⟨hpermitted, body, hbody, hdemands⟩ := hknown kind hkind
    have hsame : body.kind = kind := by
      rw [h.named body hbody] at hkind
      exact Option.some.inj hkind
    exact ⟨body, hbody, hsame, hpermitted, body.map_index_requirements, met_of_demands hdemands⟩
  · intro c hc
    have hkind := h.named _ (Attribute.body_of_code? hc)
    obtain ⟨insns, hdecode, hdemands⟩ := exists_decode_of_verdict h.verdict hkind hc
    obtain ⟨found, hstandard⟩ := h.standard c hc
    rw [(hstandard i.decoder).1] at hdecode
    obtain rfl := Except.ok.inj hdecode
    refine ⟨found, hstandard, fun op index trailing hinsn => ?_⟩
    -- the demand of the instruction is among those of the code
    have hdemand :
        Demand.kind (.operand op) index (operandTags op) ∈ codeDemands found c.handlers :=
      List.mem_append_left _ (List.mem_filterMap.mpr ⟨_, hinsn, rfl⟩)
    exact Demand.testKind_eq_none (hdemands _ hdemand)

end Inspector

namespace ClassFile

variable {profile : Profile} {k : ClassFile}

/-- In a clean class every attribute at every depth is cleared. -/
theorem Clean.clears_of_holds (h : k.Clean profile) {site : Site} {a : Attribute}
    (ha : k.Holds site a) : (Inspector.ofPool profile k.pool).Clears site a :=
  h.clears.holds (fun _ _ _ hclears hc => hclears.context_of_code hc)
    (fun _ _ _ hclears hc => hclears.context_of_components hc) ha

/-- **After stripping every attribute is lawful**, on whatever holder it stands and however deep,
judged against the pool in which slots have been filled. -/
theorem lawful_of_strip {data : Bytes} (h : parse data = .ok k) (profile : Profile) {site : Site}
    {a : Attribute} (ha : (k.strip profile).1.Holds site a) :
    a.Lawful (k.strip profile).1.pool site.context := by
  obtain ⟨-, hwritable, hdecoded⟩ := parse_sound h
  have hclean := (strip_settled hwritable hdecoded profile).clean
  exact (hclean.clears_of_holds ha).lawful

/-- In the crafted class the line numbers of the second method are kept. -/
theorem lawful_of_strip_craftedClass :
    ∃ k site a, parse craftedClass = .ok k ∧ (k.strip .standard).1.Holds site a ∧
      site.context = .onCode ∧ a.Lawful (k.strip .standard).1.pool .onCode := by
  have hparse : (parse craftedClass).toOption.any (fun k =>
      (k.sifted .standard).methods.any fun m => m.attributes.any fun outer =>
        outer.code?.any fun c => !c.attributes.isEmpty) = true := by decide +kernel
  obtain ⟨k, hk, hsome⟩ := exists_of_toOption hparse
  obtain ⟨m, hm, hsome⟩ := List.any_eq_true.mp hsome
  obtain ⟨outer, houter, hsome⟩ := List.any_eq_true.mp hsome
  cases hc : outer.code? with
  | none =>
    rw [hc] at hsome
    cases hsome
  | some c =>
    rw [hc] at hsome
    have hne : c.attributes ≠ [] := by
      intro hnil
      rw [Option.any_some, hnil] at hsome
      cases hsome
    obtain ⟨a, ha⟩ := List.exists_mem_of_ne_nil _ hne
    rw [← methods_strip] at hm
    have hholds := (Holds.onMethod hm houter).inCode hc ha
    exact ⟨k, _, a, hk, hholds, rfl, lawful_of_strip hk .standard hholds⟩

end ClassFile

end ClassPrune
