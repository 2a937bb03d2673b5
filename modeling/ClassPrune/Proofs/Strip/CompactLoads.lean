import ClassPrune.Proofs.Code.Traces
import ClassPrune.Proofs.Pool.Reachable
import ClassPrune.Proofs.Strip.Requirement

/-!
# Compact loads

The machine may replace the constant that a load names by the number of a resolved reference. A
decoder undoes this by counting the constants of a pool that the machine resolves.

- `Pool.resolvedReferences_ascending`, `Pool.mem_resolvedReferences_iff`: the constants that are
  counted, and their order.
- `Decoder.narrow?`, `Decoder.wide?`: the constant that an operand of one or two bytes stands for.
- `Decoder.Loads`: a compact load becomes a load of the constant that it stands for, and decoding
  fails there when it stands for none.
- `Decoder.demand_of_substituted`: what a reserved opcode is replaced by has its demands met.

The number of a resolved reference is an index into a table that no class file holds, and the order
of that table is the one thing that decoder and machine have to agree on. So the count is described
twice over: by its members and by its order, which together leave one list.
-/

namespace ClassPrune

/-! ## The constants that are counted -/

/-- The kinds of constant that the machine keeps in its table of resolved references. -/
def resolvedTags : List Tag := [.string, .methodHandle, .methodType, .dynamic]

namespace Pool

/-- The count, said with the list of kinds. -/
theorem resolvedReferences_eq (p : Pool) : p.resolvedReferences =
    p.occupied.filterMap fun slot =>
      if (p.cell slot.2).entry.tag ∈ resolvedTags then some slot.1 else none := by
  rw [resolvedReferences]
  congr 1
  funext ⟨index, id⟩
  dsimp only
  cases (p.cell id).entry.tag <;> rfl

/-- The constants are counted in the order of their indices. -/
theorem resolvedReferences_ascending {p : Pool} (hsize : p.size ≤ 0xFFFF) :
    p.resolvedReferences.Pairwise (· < ·) := by
  rw [resolvedReferences_eq, List.pairwise_filterMap]
  refine (occupied_ascending hsize).imp fun {slot slot'} hlt => ?_
  intro index hindex index' hindex'
  obtain ⟨-, heq⟩ := Option.ite_none_right_eq_some.mp hindex
  obtain ⟨-, heq'⟩ := Option.ite_none_right_eq_some.mp hindex'
  cases heq
  cases heq'
  exact hlt

/-- What is counted are the constants of the kinds that the machine resolves. -/
theorem mem_resolvedReferences_iff {p : Pool} (hsize : p.size ≤ 0xFFFF) {index : PoolIndex} :
    index ∈ p.resolvedReferences ↔ ∃ tag ∈ resolvedTags, p.tag? index = some tag := by
  rw [resolvedReferences_eq, List.mem_filterMap]
  constructor
  · rintro ⟨⟨index', id⟩, hmem, hslot⟩
    obtain ⟨htag, heq⟩ := Option.ite_none_right_eq_some.mp hslot
    cases heq
    refine ⟨_, htag, ?_⟩
    rw [tag?, entry?, (mem_occupied_iff hsize).mp hmem]
    rfl
  · rintro ⟨tag, htag, hfound⟩
    rw [tag?, entry?, Option.map_map] at hfound
    obtain ⟨id, hfind, rfl⟩ := Option.map_eq_some_iff.mp hfound
    exact ⟨(index, id), (mem_occupied_iff hsize).mpr hfind, if_pos htag⟩

end Pool

/-! ## Operands -/

theorem Bytes.swapBytes_toU2 (a b : UInt8) : swapBytes (toU2 a b) = toU2 b a := by
  have ha := a.toNat_lt
  have hb := b.toNat_lt
  have hlow : (a.toNat * 256 + b.toNat) % 256 = b.toNat := by omega
  have hhigh : (a.toNat * 256 + b.toNat) / 256 = a.toNat := by omega
  apply UInt16.toNat_inj.mp
  rw [swapBytes, UInt16.toNat_ofNat', toNat_toU2, toNat_toU2, hlow, hhigh,
    Nat.mod_eq_of_lt (by omega)]

/-- A computation that gives the value looked for, or else says that there is none. The kind of the
error tells it from all others, for whoever only sees its message (`DecodeCause.message_of_kind`)
too. -/
inductive Finds {β : Type} : Except DecodeCause β → Option β → Prop
  | found (v : β) : Finds (.ok v) (some v)
  | missing {cause : DecodeCause} (h : cause.kind = .unmappedConstant) : Finds (.error cause) none

/-- What is made of the value that was found does not change whether it is found. -/
theorem Finds.map {β γ : Type} {x : Except DecodeCause β} {target : Option β} (h : Finds x target)
    (f : β → γ) : Finds (x.map f) (target.map f) := by
  cases h with
  | found v => exact .found (f v)
  | missing h => exact .missing h

/-- A computation that finds a value gives it, -/
theorem Finds.ok_iff {β : Type} {x : Except DecodeCause β} {target : Option β}
    (h : Finds x target) {v : β} : x = .ok v ↔ target = some v := by
  cases h <;> simp

/-- and one that finds none says so in its error. -/
theorem Finds.error_iff {β : Type} {x : Except DecodeCause β} {target : Option β}
    (h : Finds x target) :
    (∃ cause : DecodeCause, cause.kind = .unmappedConstant ∧ x = .error cause) ↔ target = none := by
  cases h with
  | found v => simp
  | missing h => exact ⟨fun _ => rfl, fun _ => ⟨_, h, rfl⟩⟩

namespace Decoder

variable {d : Decoder}

/-- The constants that compact loads count; none without a pool. -/
def counted (d : Decoder) : List PoolIndex := (d.loadable.map Array.toList).getD []

/-- The constant that an operand of one byte stands for. Its index must fit into one byte too. -/
def narrow? (d : Decoder) (k : UInt8) : Option PoolIndex :=
  d.counted[k.toNat]?.filter (·.toNat ≤ 255)

/-- The constant that an operand of two bytes stands for. The usual order of the bytes comes first,
and the other one counts where there are not that many constants. -/
def wide? (d : Decoder) (a b : UInt8) : Option PoolIndex :=
  d.counted[(Bytes.toU2 a b).toNat]? <|> d.counted[(Bytes.toU2 b a).toNat]?

theorem counted_eq {indices : Array PoolIndex} (h : d.loadable = some indices) :
    d.counted = indices.toList := by
  rw [counted, h]
  rfl

/-- An ordinal stands for the constant of that number. With two bytes the other order is tried when
there is no such constant. -/
theorem remap_finds (d : Decoder) (ordinal : UInt16) (twoBytes : Bool) :
    Finds (d.remap ordinal twoBytes) (d.counted[ordinal.toNat]? <|>
      if twoBytes then d.counted[(swapBytes ordinal).toNat]? else none) := by
  unfold remap
  cases hloadable : d.loadable with
  | none =>
    have hnone : d.counted = [] := by rw [counted, hloadable]; rfl
    rw [hnone]
    cases twoBytes <;> exact .missing rfl
  | some indices =>
    rw [counted_eq hloadable, Array.getElem?_toList, Array.getElem?_toList]
    dsimp only
    cases indices[ordinal.toNat]? with
    | some index => exact .found index
    | none =>
      cases (if twoBytes then indices[(swapBytes ordinal).toNat]? else none) with
      | some index => exact .found index
      | none => exact .missing rfl

/-- A compact load with one byte also fails when the index of its constant is too large for one. -/
theorem remapLdc_finds (d : Decoder) (k : UInt8) :
    Finds (d.remapLdc k) ((d.narrow? k).map fun index => [.constant .ldc index []]) := by
  have hordinal : (UInt16.ofNat k.toNat).toNat = k.toNat := by
    have hk := k.toNat_lt
    rw [UInt16.toNat_ofNat', Nat.mod_eq_of_lt (by omega)]
  have h := d.remap_finds (UInt16.ofNat k.toNat) false
  rw [hordinal] at h
  rw [narrow?, remapLdc]
  cases hcounted : d.counted[k.toNat]? with
  | none =>
    rw [hcounted] at h
    obtain ⟨cause, hunmapped, herror⟩ := h.error_iff.mpr rfl
    rw [herror]
    exact .missing hunmapped
  | some index =>
    rw [hcounted] at h
    rw [h.ok_iff.mpr rfl]
    show Finds (if index.toNat > 255 then .error _ else .ok _) _
    by_cases hlarge : index.toNat > 255
    · rw [if_pos hlarge, Option.filter_some, if_neg (by simpa using hlarge)]
      exact .missing rfl
    · rw [if_neg hlarge, Option.filter_some, if_pos (by simpa using hlarge)]
      exact .found _

theorem remapLdcW_finds (d : Decoder) (a b : UInt8) :
    Finds (d.remapLdcW (Bytes.toU2 a b))
      ((d.wide? a b).map fun index => [.constant .ldcW index []]) := by
  have h := d.remap_finds (Bytes.toU2 a b) true
  rw [if_pos rfl, Bytes.swapBytes_toU2] at h
  exact h.map _

/-! ## Compact loads -/

/-- The load of a constant that a reserved opcode at `pc` becomes. -/
def loadStep (pc : Nat) (op replacement : Opcode) (size : Nat) (index : PoolIndex) : Step :=
  ⟨size, [.constant replacement index []], some ⟨pc, op.byte, replacement⟩⟩

/-- A reserved opcode is replaced by its standard form. -/
theorem step_finds {pc size : Nat} {op replacement : Opcode} {rest : Bytes}
    {target : Option PoolIndex} (hshape : op.shape = .reserved)
    (hform : d.profile.standardForm? op = some (replacement, size))
    (h : Finds (d.standardForm replacement size (rest.take 2))
      (target.map fun index => [.constant replacement index []])) :
    Finds (d.step pc op rest) (target.map (loadStep pc op replacement size)) := by
  have hstep : d.step pc op rest = (d.standardForm replacement size (rest.take 2)).map
      fun insns => ⟨size, insns, some ⟨pc, op.byte, replacement⟩⟩ := by
    unfold step
    simp only [hshape, stepReserved, hform]
    cases d.standardForm replacement size (rest.take 2) <;> rfl
  have hmap := h.map fun insns => (⟨size, insns, some ⟨pc, op.byte, replacement⟩⟩ : Step)
  rw [Option.map_map] at hmap
  rw [hstep]
  exact hmap

theorem step_ldc_finds {pc : Nat} {op : Opcode} (hshape : op.shape = .reserved)
    (hform : d.profile.standardForm? op = some (.ldc, 2)) (k : UInt8) (rest : Bytes) :
    Finds (d.step pc op (k :: rest)) ((d.narrow? k).map (loadStep pc op .ldc 2)) := by
  refine step_finds hshape hform ?_
  rw [standardForm, if_neg (by simp), if_pos rfl]
  exact d.remapLdc_finds k

theorem step_ldcW_finds {pc : Nat} {op : Opcode} (hshape : op.shape = .reserved)
    (hform : d.profile.standardForm? op = some (.ldcW, 3)) (a b : UInt8) (rest : Bytes) :
    Finds (d.step pc op (a :: b :: rest)) ((d.wide? a b).map (loadStep pc op .ldcW 3)) := by
  refine step_finds hshape hform ?_
  rw [standardForm, if_neg (by simp), if_neg (by decide), if_pos rfl]
  exact d.remapLdcW_finds a b

/-- The compact load at `pc` becomes a load of `target`; where there is no target, decoding fails
there, because the ordinal does not map to the pool. -/
structure Loads (d : Decoder) (code : Bytes) (pc : Nat) (op replacement : Opcode) (size : Nat)
    (target : Option PoolIndex) : Prop where
  mapped : ∀ index, (pc, loadStep pc op replacement size index) ∈ d.located code ↔
    target = some index
  unmapped : (∃ cause : DecodeCause, cause.kind = .unmappedConstant ∧
    d.decode code = .error ⟨pc, cause⟩) ↔ target = none

/-- What one step does at an offset that the decoder gets to is what decoding does there. -/
theorem loads_of_finds {code : Bytes} {pc size : Nat} {op replacement : Opcode} {rest : Bytes}
    {target : Option PoolIndex} (hreach : d.Reaches code pc)
    (hdrop : code.drop pc = op.byte :: rest)
    (h : Finds (d.step pc op rest) (target.map (loadStep pc op replacement size))) :
    d.Loads code pc op replacement size target := by
  have hinjective : Function.Injective (loadStep pc op replacement size) := by
    intro index index' heq
    cases heq
    rfl
  constructor
  · intro index
    refine (takes_iff hreach hdrop (.ok _)).trans ?_
    rw [h.ok_iff, ← Option.map_some, (Option.map_injective hinjective).eq_iff]
  · have hfails : ∀ cause, d.decode code = .error ⟨pc, cause⟩ ↔ d.step pc op rest = .error cause :=
      fun cause => takes_iff hreach hdrop (.error cause)
    simp only [hfails]
    rw [h.error_iff, Option.map_eq_none_iff]

/-! ## Demands -/

/-- Whatever an ordinal stands for was counted. -/
theorem remap_mem {ordinal : UInt16} {twoBytes : Bool} {index : PoolIndex}
    (h : d.remap ordinal twoBytes = .ok index) : index ∈ d.counted := by
  have htarget := (d.remap_finds ordinal twoBytes).ok_iff.mp h
  rcases (Option.orElse_eq_some _ _ _).mp htarget with hdirect | ⟨-, hswapped⟩
  · exact List.mem_of_getElem? hdirect
  · split at hswapped
    · exact List.mem_of_getElem? hswapped
    · cases hswapped

/-- A reserved opcode becomes loads of constants that are counted, and instructions without
operands. -/
theorem demand_of_substituted {code : Bytes} {pc : Nat} {s : Step}
    (hmem : (pc, s) ∈ d.located code) (hsubstituted : s.substitution ≠ none) {insn : Instruction}
    (hinsn : insn ∈ s.insns) {demand : Demand} (hdemand : insn.demand? = some demand) :
    ∃ op index, (op = .ldc ∨ op = .ldcW) ∧ index ∈ d.counted ∧
      demand = .kind (.operand op) index (operandTags op) := by
  have htakes : d.Takes code pc (.ok s) := hmem
  obtain ⟨op, rest, -, hstep⟩ := htakes.exists_step
  have hshape : op.shape = .reserved := by
    by_contra hne
    exact hsubstituted ((step_sound hstep).2.mpr hne)
  obtain ⟨replacement, size, insns, hform, hinsns, rfl⟩ :=
    stepReserved_eq_ok (step_of_reserved hshape hstep)
  obtain ⟨rfl, rfl⟩ | ⟨rfl, rfl⟩ | ⟨hldc, hldcW, -, -⟩ := standardForm?_cases hform
  · obtain ⟨a, more, index, -, hremap, -, rfl⟩ := standardForm_ldc hinsns
    obtain rfl := List.mem_singleton.mp hinsn
    exact ⟨.ldc, index, .inl rfl, remap_mem hremap, (Option.some.inj hdemand).symm⟩
  · obtain ⟨a, b, more, index, -, hremap, rfl⟩ := standardForm_ldcW hinsns
    obtain rfl := List.mem_singleton.mp hinsn
    exact ⟨.ldcW, index, .inr rfl, remap_mem hremap, (Option.some.inj hdemand).symm⟩
  · rw [standardForm_plain hldc hldcW hinsns] at hinsn
    rw [List.eq_of_mem_replicate hinsn] at hdemand
    cases hdemand

/-- The constants that are counted are among those that loads may name. -/
theorem resolvedTags_loadable {tag : Tag} (h : tag ∈ resolvedTags) :
    tag ∈ operandTags .ldc ∧ tag ∈ operandTags .ldcW := by
  revert tag
  decide

theorem counted_ofPool (profile : Profile) (p : Pool) :
    (ofPool profile (some p)).counted = p.resolvedReferences := rfl

/-- What a reserved opcode is replaced by has its demands met. -/
theorem test_of_substituted {profile : Profile} {p : Pool} (hsize : p.size ≤ 0xFFFF) {code : Bytes}
    {pc : Nat} {s : Step} (hmem : (pc, s) ∈ (ofPool profile (some p)).located code)
    (hsubstituted : s.substitution ≠ none) {insn : Instruction} (hinsn : insn ∈ s.insns)
    {demand : Demand} (hdemand : insn.demand? = some demand) : demand.test p = none := by
  obtain ⟨op, index, hop, hindex, rfl⟩ := demand_of_substituted hmem hsubstituted hinsn hdemand
  rw [counted_ofPool] at hindex
  obtain ⟨tag, htag, hfound⟩ := (Pool.mem_resolvedReferences_iff hsize).mp hindex
  obtain ⟨hldc, hldcW⟩ := resolvedTags_loadable htag
  rw [Demand.test, Demand.testKind, hfound]
  rcases hop with rfl | rfl
  · exact if_pos hldc
  · exact if_pos hldcW

/-- **Compact loads name the right constant.** They count the strings, method handles, method types
and dynamic constants of the pool in the order of their indices. A load with an operand of one byte
takes the constant of that number, if its index fits into one byte; a load with two bytes takes the
constant of that number, or else the one of the number with its bytes exchanged. Every other
compact load makes decoding fail where it stands. The constants that come out of it are of kinds
that loads may name, so that no demand on a replaced instruction is ever left unmet.

A profile may give the name of a compact load to a standard opcode, which is then decoded as
usual. The size of a pool fits into two bytes, in a file as well as after any calls. -/
theorem compactLoads_mapped (profile : Profile) (pool : Option Pool) (code : Bytes) :
    let d := ofPool profile pool
    (pool = none → d.counted = []) ∧
    (∀ p, pool = some p → p.size ≤ 0xFFFF →
      d.counted.Pairwise (· < ·) ∧
      (∀ index, index ∈ d.counted ↔ ∃ tag ∈ resolvedTags, p.tag? index = some tag) ∧
      (∀ index ∈ d.counted, ∃ tag, p.tag? index = some tag ∧
        tag ∈ operandTags .ldc ∧ tag ∈ operandTags .ldcW) ∧
      ∀ pc s, (pc, s) ∈ d.located code → s.substitution ≠ none → ∀ insn ∈ s.insns,
        ∀ demand, insn.demand? = some demand → demand.test p = none) ∧
    ∀ pc op, d.Reaches code pc → op.shape = .reserved →
      (profile.standardForm? op = some (.ldc, 2) → ∀ k rest, code.drop pc = op.byte :: k :: rest →
        d.Loads code pc op .ldc 2 (d.narrow? k)) ∧
      (profile.standardForm? op = some (.ldcW, 3) → ∀ a b rest,
        code.drop pc = op.byte :: a :: b :: rest → d.Loads code pc op .ldcW 3 (d.wide? a b)) := by
  refine ⟨?_, ?_, fun pc op hreach hshape => ⟨?_, ?_⟩⟩
  · rintro rfl
    rfl
  · rintro p rfl hsize
    rw [counted_ofPool]
    refine ⟨Pool.resolvedReferences_ascending hsize,
      fun index => Pool.mem_resolvedReferences_iff hsize, fun index hindex => ?_,
      fun pc s hstep hsubstituted insn hinsn demand hdemand =>
        test_of_substituted hsize hstep hsubstituted hinsn hdemand⟩
    obtain ⟨tag, htag, hfound⟩ := (Pool.mem_resolvedReferences_iff hsize).mp hindex
    exact ⟨tag, hfound, resolvedTags_loadable htag⟩
  · intro hform k rest hdrop
    exact loads_of_finds hreach hdrop (step_ldc_finds hshape hform k rest)
  · intro hform a b rest hdrop
    exact loads_of_finds hreach hdrop (step_ldcW_finds hshape hform a b rest)

/-- Two constants that can be counted, around one that takes two slots. -/
def countedPool : Pool where
  cells := #[⟨.utf8 [65], 1⟩, ⟨.named .string (some 0), 2⟩, ⟨.long 7, 3⟩,
    ⟨.named .methodType (some 0), 5⟩]
  slots := #[some 0, some 1, some 2, none, some 3]

/-- Loads of constant number one, with one byte and with its two bytes exchanged, and of a constant
that there is not. -/
def countedLoads : Bytes := [0xE6, 1, 0xE7, 1, 0, 0xE6, 2]

theorem compactLoads_mapped_countedPool :
    let d := ofPool .hotspot11 (some countedPool)
    d.counted = [2, 5] ∧ (0, loadStep 0 ⟨0xE6⟩ .ldc 2 5) ∈ d.located countedLoads ∧
      (2, loadStep 2 ⟨0xE7⟩ .ldcW 3 5) ∈ d.located countedLoads ∧
      ∃ cause : DecodeCause, cause.kind = .unmappedConstant ∧
        d.decode countedLoads = .error ⟨5, cause⟩ := by
  intro d
  obtain ⟨-, -, hloads⟩ := compactLoads_mapped .hotspot11 (some countedPool) countedLoads
  have hshape : (⟨0xE6⟩ : Opcode).shape = .reserved := by decide +kernel
  have hshape' : (⟨0xE7⟩ : Opcode).shape = .reserved := by decide +kernel
  have hreach₀ : d.Reaches countedLoads 0 := d.reaches_zero (by decide)
  have hload₀ : (0, loadStep 0 ⟨0xE6⟩ .ldc 2 5) ∈ d.located countedLoads :=
    (((hloads 0 ⟨0xE6⟩ hreach₀ hshape).1 rfl 1 _ rfl).mapped 5).mpr (by decide +kernel)
  have hreach₂ : d.Reaches countedLoads 2 := reaches_next hload₀ (by decide)
  have hload₂ : (2, loadStep 2 ⟨0xE7⟩ .ldcW 3 5) ∈ d.located countedLoads :=
    (((hloads 2 ⟨0xE7⟩ hreach₂ hshape').2 rfl 1 0 _ rfl).mapped 5).mpr (by decide +kernel)
  have hreach₅ : d.Reaches countedLoads 5 := reaches_next hload₂ (by decide)
  have hload₅ := (hloads 5 ⟨0xE6⟩ hreach₅ hshape).1 rfl 2 _ rfl
  exact ⟨by decide +kernel, hload₀, hload₂, hload₅.unmapped.mpr (by decide +kernel)⟩

end Decoder

end ClassPrune
