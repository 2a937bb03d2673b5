import ClassPrune.Proofs.Pool.Likeness
import ClassPrune.Proofs.Strip.Verdict

/-!
# What a verdict looks at

The indices that an attribute declares are its name, those that its body stores, the operands of
its instructions, and the descriptor of the method around it. A verdict looks at the pool nowhere
else: it is the same in any two pools that hold like constants at these indices.

- `Inspector.Declares`: the declared indices.
- `Inspector.declares_of_demand`, `Inspector.method_of_demand`: every demand asks about declared
  indices, and only a demand on the number of parameters asks about the method.
- `Inspector.verdict?_of_alike`: so the verdict depends on these constants alone.
-/

namespace ClassPrune

/-! ## Demands on the method -/

/-- Whether the demand is one on the method around the body, and not on what the body stores. -/
def Demand.onMethod : Demand → Bool
  | .parameters _ _ => true
  | _ => false

theorem Demand.not_mem_of_onMethod {d : Demand} (h : d.onMethod = true) {demands : List Demand}
    (hany : demands.any Demand.onMethod = false) : d ∉ demands :=
  fun hmem => absurd h (List.any_eq_false.mp hany d hmem)

namespace ElementValue

/-- No demand of an annotation asks about the method around it, -/
theorem any_indexDemands (tag : UInt8) (index : PoolIndex) :
    (indexDemands tag index).any Demand.onMethod = false := by
  unfold indexDemands
  split
  · rfl
  · rfl
  · rfl
  · split <;> rfl
  · rfl

mutual

/-- at whatever depth the value stands. -/
theorem any_demands : ∀ v : ElementValue, v.demands.any Demand.onMethod = false
  | .empty tag => by
    rw [demands, any_indexDemands]
  | .constant tag index => by
    rw [demands, any_indexDemands]
  | .enumConstant tag typeIndex nameIndex => by
    rw [demands]
    split
    · rfl
    · exact any_indexDemands tag 0
  | .nested tag ⟨typeIndex, pairs⟩ => by
    rw [demands]
    split
    · exact any_pairDemands pairs
    · exact any_indexDemands tag 0
  | .array tag values => by
    rw [demands]
    split
    · exact any_valueDemands values
    · exact any_indexDemands tag 0

theorem any_valueDemands : ∀ vs : List ElementValue,
    (valueDemands vs).any Demand.onMethod = false
  | [] => by
    rw [valueDemands]
    rfl
  | v :: vs => by
    rw [valueDemands, List.any_append, any_demands v, any_valueDemands vs]
    rfl

theorem any_pairDemands : ∀ pairs : List (PoolIndex × ElementValue),
    (pairDemands pairs).any Demand.onMethod = false
  | [] => by
    rw [pairDemands]
    rfl
  | (name, v) :: more => by
    rw [pairDemands, List.any_cons, List.any_append, any_demands v, any_pairDemands more]
    rfl

end

end ElementValue

@[simp] theorem AnnotationUse.any_demands (a : AnnotationUse) :
    a.demands.any Demand.onMethod = false :=
  ElementValue.any_pairDemands a.pairs

@[simp] theorem Demand.any_optional (role : Role) (index : PoolIndex) (wanted : List Tag) :
    (Demand.optional role index wanted).any Demand.onMethod = false := by
  unfold Demand.optional
  split <;> rfl

@[simp] theorem Demand.any_each (role : Role) (indices : List PoolIndex) (wanted : List Tag) :
    (Demand.each role indices wanted).any Demand.onMethod = false := by
  rw [Demand.each, List.any_map]
  exact List.any_eq_false.mpr fun index _ => Bool.false_ne_true

@[simp] theorem any_bootstrapDemands (ordinal : Nat) (methods : List BootstrapMethod) :
    (bootstrapDemands ordinal methods).any Demand.onMethod = false := by
  induction methods generalizing ordinal with
  | nil => rfl
  | cons m more ih =>
    rw [bootstrapDemands, List.any_cons, List.any_append, ih, List.any_map]
    simp [Demand.onMethod]

@[simp] theorem ModuleInfo.any_demands (m : ModuleInfo) :
    m.demands.any Demand.onMethod = false := by
  simp [demands, List.any_flatMap, Demand.onMethod]

@[simp] theorem any_componentDemands {α : Type} (components : List (Component α)) :
    (componentDemands components).any Demand.onMethod = false := by
  simp [componentDemands, List.any_flatMap, Demand.onMethod]

/-- The demands of code ask about its operands and its handlers only. -/
@[simp] theorem any_codeDemands (insns : List Instruction) (handlers : List ExceptionHandler) :
    (codeDemands insns handlers).any Demand.onMethod = false := by
  refine List.any_eq_false.mpr fun d hd => ?_
  rcases List.mem_append.mp hd with hd | hd
  · obtain ⟨insn, -, hinsn⟩ := List.mem_filterMap.mp hd
    unfold Instruction.demand? at hinsn
    split at hinsn <;> cases hinsn
    exact Bool.false_ne_true
  · obtain ⟨handler, -, hhandler⟩ := List.mem_filterMap.mp hd
    split at hhandler <;> cases hhandler
    exact Bool.false_ne_true

/-- Only annotations of parameters ask about the method, and they ask about its descriptor. -/
theorem LeafBody.method_of_demand {method : Option Member} {body : LeafBody} {d : Demand}
    (hd : d ∈ body.demands method) (h : d.onMethod = true) :
    ∃ m count, method = some m ∧ d = .parameters count m.descriptorIndex := by
  cases body with
  | parameterAnnotations retention parameters =>
    cases method with
    | none =>
      obtain rfl := List.mem_singleton.mp hd
      cases h
    | some m =>
      rcases List.mem_cons.mp hd with rfl | hd
      · exact ⟨m, _, rfl, rfl⟩
      · refine absurd hd (Demand.not_mem_of_onMethod h ?_)
        simp [List.any_flatMap]
  | annotationDefault value => exact absurd hd (Demand.not_mem_of_onMethod h value.any_demands)
  | _ =>
    refine absurd hd (Demand.not_mem_of_onMethod h ?_)
    simp [demands, List.any_flatMap, Demand.onMethod]

/-! ## Declared indices -/

namespace Inspector

/-- The indices that an attribute declares: its name, what its body stores and its instructions
name, and the descriptor of the method around it. -/
inductive Declares (i : Inspector) (site : Site) (a : Attribute) : PoolIndex → Prop
  | name : Declares i site a a.nameIndex
  | reference {body : Body Attribute} {index : PoolIndex} (hbody : a.body = some body)
    (hindex : index ∈ body.references) : Declares i site a index
  | operand {c : Code Attribute} {insns : List Instruction} {index : PoolIndex}
    (hcode : a.code? = some c) (hdecode : i.decoder.decode c.code = .ok insns)
    (hindex : index ∈ poolOperands insns) : Declares i site a index
  | descriptor {m : Member} (hmethod : site.method = some m) : Declares i site a m.descriptorIndex

variable {i i' : Inspector} {site : Site} {a : Attribute}

/-- Every demand asks about declared indices. Index zero is asked about where content is missing. -/
theorem declares_of_demand {body : Body Attribute} (hbody : a.body = some body) {d : Demand}
    (hd : d ∈ i.demands site body) {index : PoolIndex} (hindex : index ∈ d.indices) :
    index = 0 ∨ i.Declares site a index := by
  obtain hzero | href | ⟨c, insns, rfl, hdecode, hoperand⟩ := indices_demands hd hindex
  · exact .inl hzero
  · exact .inr (.reference hbody href)
  · exact .inr (.operand (Attribute.code?_of_body hbody) hdecode hoperand)

/-- The number of parameters is the only thing that is asked about a method, and so its descriptor
is declared. -/
theorem method_of_demand {body : Body Attribute} {d : Demand} (hd : d ∈ i.demands site body)
    (h : d.onMethod = true) :
    ∃ m count, site.method = some m ∧ d = .parameters count m.descriptorIndex := by
  cases body with
  | leaf body => exact LeafBody.method_of_demand hd h
  | code c =>
    rcases demands_code_cases i site c with ⟨violation, hdemands⟩ | ⟨insns, -, hdemands⟩
    · exact absurd (hdemands ▸ hd) (Demand.not_mem_of_onMethod h rfl)
    · exact absurd (hdemands ▸ hd) (Demand.not_mem_of_onMethod h (any_codeDemands insns c.handlers))
  | record components =>
    exact absurd hd (Demand.not_mem_of_onMethod h (any_componentDemands components))

/-- A demand sees no difference between pools that are alike at the declared indices. -/
theorem test_of_alike (hpools : ∀ index, i.Declares site a index → i.pool.AlikeAt i'.pool index)
    {body : Body Attribute} (hbody : a.body = some body) {d : Demand}
    (hd : d ∈ i.demands site body) : d.test i'.pool = d.test i.pool := by
  refine Demand.test_eq (fun index hindex => ?_) fun count index hcount => ?_
  · rcases declares_of_demand hbody hd hindex with rfl | hdeclared
    · exact (Pool.alikeAt_zero _ _).agreeAt
    · exact (hpools index hdeclared).agreeAt
  · subst hcount
    obtain ⟨m, count', hmethod, heq⟩ := method_of_demand hd rfl
    cases heq
    exact (hpools _ (.descriptor hmethod)).agreeAt.utf8_eq

/-- **A verdict depends on the constants that the attribute declares, and on nothing else in the
pool.** The pools may differ in all other constants, in where they keep their constants, and in
what compact loads would count, as long as the code has no reserved opcode left. -/
theorem verdict?_of_alike
    (hcode : ∀ c, a.code? = some c → ∃ insns, i.decoder.decode c.code = .ok insns ∧
      i.decoder.substitutions c.code = [])
    (hpools : ∀ index, i.Declares site a index → i.pool.AlikeAt i'.pool index) :
    i'.verdict? site a = i.verdict? site a := by
  refine verdict?_eq (Site.Alike.refl site) rfl (fun c hc => ?_) (hpools _ .name).agreeAt
    fun kind body _ hbody d hd => test_of_alike hpools hbody hd
  -- code in standard form is read without a look at the pool
  obtain ⟨insns, hdecode, hnone⟩ := hcode c hc
  rw [(standard_of_substitutions_nil hdecode hnone i'.decoder).1, hdecode]

/-- A class, its name, and a string with the same text. -/
def tightPool : Pool where
  cells := #[⟨.utf8 [67, 111, 100, 101], 1⟩, ⟨.utf8 [65], 2⟩, ⟨.named .classRef (some 1), 3⟩,
    ⟨.named .string (some 1), 4⟩, ⟨.utf8 [40, 41, 86], 5⟩]
  slots := #[some 0, some 1, some 2, some 3, some 4]

/-- The same class and string around another constant, with their text at the end. -/
def loosePool : Pool where
  cells := #[⟨.utf8 [65], 6⟩, ⟨.utf8 [67, 111, 100, 101], 1⟩, ⟨.integer 7, 2⟩,
    ⟨.utf8 [40, 41, 86], 5⟩, ⟨.named .string (some 0), 4⟩, ⟨.named .classRef (some 0), 3⟩]
  slots := #[some 1, some 2, some 5, some 4, some 3, some 0]

/-- Code that loads the string and catches the class. -/
def guardedLoad : Attribute :=
  ⟨1, [], false, some (.code ⟨1, 0, [0x12, 4, 0x57, 0xB1], [⟨0, 3, 3, 3⟩], []⟩)⟩

/-- The two pools hold the constant and its references in different cells. -/
theorem verdict?_of_alike_guardedLoad :
    (∀ index, (ofPool .hotspot11 tightPool).Declares ⟨.onMethod, some ⟨0, 5, 5, []⟩⟩ guardedLoad
      index → tightPool.AlikeAt loosePool index) ∧
    (ofPool .hotspot11 loosePool).verdict? ⟨.onMethod, some ⟨0, 5, 5, []⟩⟩ guardedLoad
      = (ofPool .hotspot11 tightPool).verdict? ⟨.onMethod, some ⟨0, 5, 5, []⟩⟩ guardedLoad := by
  have hdecode : (ofPool .hotspot11 tightPool).decoder.decode [0x12, 4, 0x57, 0xB1]
      = .ok [.constant .ldc 4 [], .plain ⟨0x57⟩, .plain .return_] := by decide +kernel
  have hcode : ∀ c, guardedLoad.code? = some c → ∃ insns,
      (ofPool .hotspot11 tightPool).decoder.decode c.code = .ok insns ∧
        (ofPool .hotspot11 tightPool).decoder.substitutions c.code = [] := by
    rintro c hc
    cases hc
    exact ⟨_, hdecode, by decide +kernel⟩
  have hpools : ∀ index, (ofPool .hotspot11 tightPool).Declares ⟨.onMethod, some ⟨0, 5, 5, []⟩⟩
      guardedLoad index → tightPool.AlikeAt loosePool index := by
    have htext : ∀ depth, tightPool.LikeTo loosePool depth (some 1) (some 0)
      | 0 => trivial
      | _ + 1 => .utf8
    intro index hdeclared depth
    cases depth with
    | zero => trivial
    | succ depth =>
      cases hdeclared with
      | name => exact .utf8
      | reference hbody hindex =>
        cases hbody
        obtain rfl := List.mem_singleton.mp hindex
        exact .named (htext depth)
      | operand hc hinsns hindex =>
        cases hc
        cases hdecode.symm.trans hinsns
        obtain rfl := List.mem_singleton.mp hindex
        exact .named (htext depth)
      | descriptor hmethod =>
        cases hmethod
        exact .utf8
  exact ⟨hpools, verdict?_of_alike hcode hpools⟩

end Inspector

end ClassPrune
