import ClassPrune.Code.Standard
import ClassPrune.Proofs.Code.Reading
import Mathlib.Tactic.SplitIfs

/-!
# Code in standard form

- `Decoder.step_sound`: one step gives well-formed instructions that take exactly the bytes of
  the step, also in place of a reserved opcode.
- `Decoder.Runs`: the steps over a code array as a relation; `Decoder.decode_eq_ok_iff` relates
  it to decoding.
- `Standard`: every decoder reads the same instructions from the code, and replaces nothing.
- `Decoder.encodeCode_standard`, `Decoder.standard_standardize`: code that decodes is in standard
  form afterwards, and is as long as before.

The argument runs over the code twice. The first run collects well-formed instructions; these
are written at the same offsets, since each replacement is as long as what it replaces, and the
second run reads them back without looking at the profile or the pool.
-/

namespace ClassPrune

/-! ## Layout -/

/-- How many bytes instructions take, the first standing at `pc`. -/
def span : (pc : Nat) → List Instruction → Nat
  | _, [] => 0
  | pc, insn :: more => insn.size pc + span (pc + insn.size pc) more

/-- The bytes of a list are those of its front and those of the rest, which starts where the front
ends. -/
theorem span_append (pc : Nat) (front back : List Instruction) :
    span pc (front ++ back) = span pc front + span (pc + span pc front) back := by
  induction front generalizing pc with
  | nil =>
    show span pc back = 0 + span (pc + 0) back
    rw [Nat.zero_add, Nat.add_zero]
  | cons insn front ih =>
    rw [List.cons_append, span, span, ih, Nat.add_assoc, Nat.add_assoc]

theorem span_replicate_plain (pc n : Nat) (op : Opcode) :
    span pc (List.replicate n (.plain op)) = n := by
  induction n generalizing pc with
  | zero => rfl
  | succ n ih =>
    rw [List.replicate_succ, span, ih]
    exact Nat.add_comm 1 n

/-! ## One step -/

/-- What a step gives when `available` bytes are left: well-formed instructions that take exactly
the bytes of the step. -/
structure Step.Sound (pc available : Nat) (s : Step) : Prop where
  wellFormed : ∀ insn ∈ s.insns, insn.WellFormed
  span_eq : span pc s.insns = s.size
  size_pos : 0 < s.size
  size_le : s.size ≤ available

/-- A step that gives one instruction is sound when this instruction takes the bytes of the step. -/
theorem Step.Sound.single {pc available n : Nat} {insn : Instruction}
    {substitution : Option Substitution} (h : insn.WellFormed) (hsize : insn.size pc = n)
    (hpos : 0 < n) (hle : n ≤ available) : Sound pc available ⟨n, [insn], substitution⟩ := by
  refine ⟨?_, ?_, hpos, hle⟩
  · intro insn' hmem
    obtain rfl := List.mem_singleton.mp hmem
    exact h
  · show insn.size pc + 0 = n
    omega

/-- A step at a standard opcode gives the instruction that it takes. -/
theorem Step.TakenFrom.sound {pc : Nat} {op : Opcode} {rest : Bytes} {s : Step}
    (h : s.TakenFrom pc op rest) : s.Sound pc (rest.length + 1) ∧ s.substitution = none := by
  obtain ⟨insn, operands, more, rfl, rfl, hread⟩ := h
  refine ⟨.single hread.wellFormed hread.size_eq (by omega) ?_, rfl⟩
  rw [List.length_append]
  omega

/-! ### Reserved opcodes -/

/-- What stands for a reserved opcode takes as many bytes. -/
theorem standardForm?_cases {p : Profile} {op replacement : Opcode} {size : Nat}
    (h : p.standardForm? op = some (replacement, size)) :
    (replacement = .ldc ∧ size = 2) ∨ (replacement = .ldcW ∧ size = 3) ∨
      (replacement ≠ .ldc ∧ replacement ≠ .ldcW ∧ replacement.shape = .bare ∧ 0 < size) := by
  have hnop : Opcode.nop.shape = .bare := by decide +kernel
  have haload : Opcode.aload0.shape = .bare := by decide +kernel
  have hreturn : Opcode.return_.shape = .bare := by decide +kernel
  unfold Profile.standardForm? at h
  split_ifs at h <;> cases h
  · exact .inr (.inr ⟨by decide, by decide, hnop, by omega⟩)
  · exact .inr (.inr ⟨by decide, by decide, haload, by omega⟩)
  · exact .inl ⟨rfl, rfl⟩
  · exact .inr (.inl ⟨rfl, rfl⟩)
  · exact .inr (.inr ⟨by decide, by decide, hreturn, by omega⟩)
  · exact .inr (.inr ⟨by decide, by decide, hnop, by omega⟩)

namespace Decoder

variable {d : Decoder}

/-- A compact load with one byte becomes a load of the counted constant, if its index fits into one
byte. -/
theorem remapLdc_eq_ok {operand : UInt8} {insns : List Instruction}
    (h : d.remapLdc operand = .ok insns) :
    ∃ index : PoolIndex, d.remap (UInt16.ofNat operand.toNat) false = .ok index ∧
      index.toNat ≤ 255 ∧ insns = [.constant .ldc index []] := by
  obtain ⟨index, hremap, h⟩ := bind_eq_ok.mp h
  obtain ⟨hsmall, h⟩ := ite_error_eq_ok.mp h
  cases h
  exact ⟨index, hremap, by omega, rfl⟩

theorem remapLdcW_eq_ok {operand : UInt16} {insns : List Instruction}
    (h : d.remapLdcW operand = .ok insns) :
    ∃ index : PoolIndex, d.remap operand true = .ok index ∧
      insns = [.constant .ldcW index []] := by
  obtain ⟨index, hremap, h⟩ := bind_eq_ok.mp h
  cases h
  exact ⟨index, hremap, rfl⟩

/-- Other replacements have no operands. They stand as often as the replaced instruction has bytes.
-/
theorem standardForm_plain {replacement : Opcode} {size : Nat} {operands : Bytes}
    {insns : List Instruction} (hldc : replacement ≠ .ldc) (hldcW : replacement ≠ .ldcW)
    (h : d.standardForm replacement size operands = .ok insns) :
    insns = List.replicate size (.plain replacement) := by
  obtain ⟨-, h⟩ := ite_error_eq_ok.mp h
  rw [if_neg hldc, if_neg hldcW] at h
  exact (Except.ok.inj h).symm

theorem standardForm_ldc {rest : Bytes} {insns : List Instruction}
    (h : d.standardForm .ldc 2 (rest.take 2) = .ok insns) :
    ∃ a more index, rest = a :: more ∧ d.remap (UInt16.ofNat a.toNat) false = .ok index ∧
      index.toNat ≤ 255 ∧ insns = [.constant .ldc index []] := by
  obtain ⟨hshort, h⟩ := ite_error_eq_ok.mp h
  rw [if_pos rfl] at h
  rcases rest with _ | ⟨a, more⟩
  · exact absurd (by decide) hshort
  · obtain ⟨index, hremap, hindex, rfl⟩ := remapLdc_eq_ok h
    exact ⟨a, more, index, rfl, hremap, hindex, rfl⟩

theorem standardForm_ldcW {rest : Bytes} {insns : List Instruction}
    (h : d.standardForm .ldcW 3 (rest.take 2) = .ok insns) :
    ∃ a b more index, rest = a :: b :: more ∧ d.remap (Bytes.toU2 a b) true = .ok index ∧
      insns = [.constant .ldcW index []] := by
  obtain ⟨hshort, h⟩ := ite_error_eq_ok.mp h
  rw [if_neg (by decide), if_pos rfl] at h
  rcases rest with _ | ⟨a, _ | ⟨b, more⟩⟩
  · exact absurd (by decide) hshort
  · exact absurd (Nat.lt_succ_self 2) hshort
  · obtain ⟨index, hremap, rfl⟩ := remapLdcW_eq_ok h
    exact ⟨a, b, more, index, rfl, hremap, rfl⟩

/-- The standard instructions for a reserved opcode take the place of the reserved form. -/
theorem standardForm_sound {pc size : Nat} {op replacement : Opcode} {rest : Bytes}
    {insns : List Instruction} (hform : d.profile.standardForm? op = some (replacement, size))
    (h : d.standardForm replacement size (rest.take 2) = .ok insns)
    (substitution : Option Substitution) :
    Step.Sound pc (rest.length + 1) ⟨size, insns, substitution⟩ := by
  have hle : size ≤ rest.length + 1 := by
    obtain ⟨hshort, -⟩ := ite_error_eq_ok.mp h
    rw [List.length_take] at hshort
    omega
  obtain ⟨rfl, rfl⟩ | ⟨rfl, rfl⟩ | ⟨hldc, hldcW, hbare, hpos⟩ := standardForm?_cases hform
  · -- a load with a one-byte operand; the remapped index fits into one byte as well
    obtain ⟨a, more, index, rfl, -, hindex, rfl⟩ := standardForm_ldc h
    refine .single (.constant1 Instruction.shape_ldc hindex) ?_ (by omega) hle
    unfold Instruction.size
    exact if_pos Instruction.shape_ldc
  · -- a load with a two-byte operand
    obtain ⟨a, b, more, index, rfl, -, rfl⟩ := standardForm_ldcW h
    have hmem : Opcode.ldcW.shape ∈ Instruction.twoByteShapes := by
      rw [Instruction.shape_ldcW]
      exact List.mem_cons_self
    refine .single (.constant2 hmem ?_) ?_ (by omega) hle
    · rw [Instruction.shape_ldcW]
      rfl
    · rw [Instruction.size_constant2 pc hmem]
      rfl
  · -- one instruction without operands for every byte
    rw [standardForm_plain hldc hldcW h]
    refine ⟨?_, span_replicate_plain pc size replacement, hpos, hle⟩
    intro insn hinsn
    rw [List.eq_of_mem_replicate hinsn]
    exact .plain hbare

/-- A reserved opcode with a standard form is replaced by it. -/
theorem stepReserved_eq_ok {pc : Nat} {op : Opcode} {rest : Bytes} {s : Step}
    (h : d.stepReserved pc op rest = .ok s) :
    ∃ replacement size insns, d.profile.standardForm? op = some (replacement, size) ∧
      d.standardForm replacement size (rest.take 2) = .ok insns ∧
      s = ⟨size, insns, some ⟨pc, op.byte, replacement⟩⟩ := by
  unfold stepReserved at h
  cases hform : d.profile.standardForm? op with
  | none =>
    rw [hform] at h
    cases h
  | some form =>
    obtain ⟨replacement, size⟩ := form
    rw [hform] at h
    simp only at h
    cases hinsns : d.standardForm replacement size (rest.take 2) with
    | error cause =>
      rw [hinsns] at h
      cases h
    | ok insns =>
      rw [hinsns] at h
      exact ⟨replacement, size, insns, rfl, hinsns, (Except.ok.inj h).symm⟩

/-- A reserved instruction is replaced by instructions of the same length, and the replacement is
told. -/
theorem stepReserved_sound {pc : Nat} {op : Opcode} {rest : Bytes} {s : Step}
    (h : d.stepReserved pc op rest = .ok s) :
    s.Sound pc (rest.length + 1) ∧ s.substitution ≠ none := by
  obtain ⟨replacement, size, insns, hform, hinsns, rfl⟩ := stepReserved_eq_ok h
  exact ⟨standardForm_sound hform hinsns _, fun hnone => by cases hnone⟩

/-! ### All opcodes -/

/-- A reserved opcode is decoded by what the profile says of it. -/
theorem step_of_reserved {pc : Nat} {op : Opcode} {rest : Bytes} {s : Step}
    (hshape : op.shape = .reserved) (h : d.step pc op rest = .ok s) :
    d.stepReserved pc op rest = .ok s := by
  unfold step at h
  simp only [hshape] at h
  exact h

/-- The opcodes that are not reserved are decoded without the profile and the pool. -/
theorem step_congr {op : Opcode} (hshape : op.shape ≠ .reserved) (d d' : Decoder) (pc : Nat)
    (rest : Bytes) : d.step pc op rest = d'.step pc op rest := by
  unfold step
  cases h : op.shape with
  | reserved => exact absurd h hshape
  | _ => rfl

/-- **One step gives well-formed instructions of the same length**, and reports a substitution
exactly for a reserved opcode. -/
theorem step_sound {pc : Nat} {op : Opcode} {rest : Bytes} {s : Step}
    (h : d.step pc op rest = .ok s) :
    s.Sound pc (rest.length + 1) ∧ (s.substitution = none ↔ op.shape ≠ .reserved) := by
  by_cases hshape : op.shape = .reserved
  · obtain ⟨hsound, hsome⟩ := stepReserved_sound (step_of_reserved hshape h)
    exact ⟨hsound, fun hnone => absurd hnone hsome, fun hne => absurd hshape hne⟩
  · obtain ⟨hsound, hnone⟩ := (step_takenFrom hshape h).sound
    exact ⟨hsound, fun _ => hshape, fun _ => hnone⟩

/-! ## Whole arrays -/

/-- The steps of a decoder over code that starts at `pc`, without an error. -/
inductive Runs (d : Decoder) : Nat → Bytes → List Step → Prop
  | nil (pc : Nat) : Runs d pc [] []
  | cons {pc : Nat} {byte : UInt8} {rest : Bytes} {s : Step} {steps : List Step}
    (step : d.step pc ⟨byte⟩ rest = .ok s)
    (more : Runs d (pc + s.size) (rest.drop (s.size - 1)) steps) :
    Runs d pc (byte :: rest) (s :: steps)

-- the layout of the first instruction is not to be looked up while the equation is checked
seal Opcode.shape in
theorem runFrom_cons (d : Decoder) (n pc : Nat) (byte : UInt8) (rest : Bytes) :
    d.runFrom (n + 1) pc (byte :: rest) = match d.step pc ⟨byte⟩ rest with
      | .error cause => ([], some ⟨pc, cause⟩)
      | .ok s =>
        let more := d.runFrom n (pc + s.size) (rest.drop (s.size - 1))
        (s :: more.1, more.2) := rfl

/-- Code that is stepped over without an error runs. -/
theorem runs_of_runFrom {n pc : Nat} {code : Bytes} {steps : List Step}
    (h : d.runFrom n pc code = (steps, none)) : Runs d pc code steps := by
  induction n generalizing pc code steps with
  | zero =>
    cases code with
    | nil =>
      cases h
      exact .nil pc
    | cons byte rest => cases h
  | succ n ih =>
    cases code with
    | nil =>
      cases h
      exact .nil pc
    | cons byte rest =>
      rw [runFrom_cons] at h
      cases hstep : d.step pc ⟨byte⟩ rest with
      | error cause =>
        rw [hstep] at h
        cases h
      | ok s =>
        rw [hstep] at h
        simp only at h
        obtain ⟨rfl, hnone⟩ := Prod.mk.inj h
        exact .cons hstep (ih (Prod.ext rfl hnone))

/-- The relation follows the run, as long as there is fuel for every byte. -/
theorem Runs.runFrom_eq {n pc : Nat} {code : Bytes} {steps : List Step} (h : Runs d pc code steps)
    (hn : code.length ≤ n) : d.runFrom n pc code = (steps, none) := by
  induction h generalizing n with
  | nil pc => cases n <;> rfl
  | cons hstep _ ih =>
    rw [List.length_cons] at hn
    obtain ⟨n, rfl⟩ : ∃ m, n = m + 1 := ⟨n - 1, by omega⟩
    have hpos := (step_sound hstep).1.size_pos
    have hrest := ih (n := n) (by rw [List.length_drop]; omega)
    rw [runFrom_cons, hstep]
    simp only [hrest]

/-- A run that ends without an error is one that the relation describes. -/
theorem run_eq_iff {code : Bytes} {steps : List Step} :
    d.run code = (steps, none) ↔ Runs d 0 code steps :=
  ⟨runs_of_runFrom, fun h => h.runFrom_eq (Nat.le_refl _)⟩

/-- Decoding collects the instructions of the steps. -/
theorem decode_eq_ok_iff {code : Bytes} {insns : List Instruction} :
    d.decode code = .ok insns ↔
      ∃ steps, Runs d 0 code steps ∧ insns = steps.flatMap Step.insns := by
  rw [decode]
  constructor
  · intro h
    cases hrun : d.run code with
    | mk steps error =>
      cases error with
      | some e =>
        rw [hrun] at h
        cases h
      | none =>
        rw [hrun] at h
        exact ⟨steps, run_eq_iff.mp hrun, (Except.ok.inj h).symm⟩
  · rintro ⟨steps, hruns, rfl⟩
    rw [run_eq_iff.mpr hruns]

theorem Runs.substitutions_eq {code : Bytes} {steps : List Step} (h : Runs d 0 code steps) :
    d.substitutions code = steps.filterMap Step.substitution := by
  rw [substitutions, run_eq_iff.mpr h]

/-- The instructions of a run are well formed and take as many bytes as the code. -/
theorem Runs.sound {pc : Nat} {code : Bytes} {steps : List Step} (h : Runs d pc code steps) :
    (∀ insn ∈ steps.flatMap Step.insns, insn.WellFormed) ∧
      span pc (steps.flatMap Step.insns) = code.length := by
  induction h with
  | nil pc => exact ⟨fun insn hinsn => (nomatch hinsn), rfl⟩
  | cons hstep _ ih =>
    obtain ⟨hwell, hspan, hpos, hle⟩ := (step_sound hstep).1
    obtain ⟨hwells, hspans⟩ := ih
    rw [List.flatMap_cons]
    constructor
    · intro insn hinsn
      rcases List.mem_append.mp hinsn with hinsn | hinsn
      · exact hwell insn hinsn
      · exact hwells insn hinsn
    · rw [span_append, hspan, hspans, List.length_drop, List.length_cons]
      omega

/-- Without substitutions the run is the same for every decoder. -/
theorem Runs.of_no_substitutions {pc : Nat} {code : Bytes} {steps : List Step}
    (h : Runs d pc code steps) (hnone : ∀ s ∈ steps, s.substitution = none) (d' : Decoder) :
    Runs d' pc code steps := by
  induction h with
  | nil pc => exact .nil pc
  | cons hstep _ ih =>
    have hshape := (step_sound hstep).2.mp (hnone _ List.mem_cons_self)
    refine .cons ?_ (ih fun s hs => hnone s (List.mem_cons_of_mem _ hs))
    rw [step_congr hshape d' d]
    exact hstep

end Decoder

/-- The steps over instructions that are written one after the other. -/
def layoutSteps : (pc : Nat) → List Instruction → List Step
  | _, [] => []
  | pc, insn :: more => ⟨insn.size pc, [insn], none⟩ :: layoutSteps (pc + insn.size pc) more

theorem flatMap_layoutSteps (pc : Nat) (insns : List Instruction) :
    (layoutSteps pc insns).flatMap Step.insns = insns := by
  induction insns generalizing pc with
  | nil => rfl
  | cons insn insns ih =>
    rw [layoutSteps, List.flatMap_cons, ih]
    rfl

theorem substitution_of_mem_layoutSteps {pc : Nat} {insns : List Instruction} {s : Step}
    (h : s ∈ layoutSteps pc insns) : s.substitution = none := by
  induction insns generalizing pc with
  | nil => cases h
  | cons insn insns ih =>
    rcases List.mem_cons.mp h with rfl | h
    · rfl
    · exact ih h

/-- **Well-formed instructions are written in as many bytes as they take, and every decoder reads
them back.** -/
theorem encodeFrom_runs (ordinal pc : Nat) {insns : List Instruction}
    (h : ∀ insn ∈ insns, insn.WellFormed) :
    ∃ code, encodeFrom ordinal pc insns = .ok code ∧ code.length = span pc insns ∧
      ∀ d : Decoder, d.Runs pc code (layoutSteps pc insns) := by
  induction insns generalizing ordinal pc with
  | nil => exact ⟨[], rfl, rfl, fun d => .nil pc⟩
  | cons insn insns ih =>
    obtain ⟨rest, hspelled⟩ := (h insn List.mem_cons_self).spelled pc
    have hlen : (insn.opcode.byte :: rest).length = insn.size pc := hspelled.length_eq
    obtain ⟨more, hmore, hspan, hruns⟩ := ih (ordinal + 1) (pc + insn.size pc)
      fun insn' hinsn' => h insn' (List.mem_cons_of_mem _ hinsn')
    refine ⟨insn.opcode.byte :: (rest ++ more), ?_, ?_, fun d => ?_⟩
    · rw [encodeFrom, hspelled.encode_eq]
      simp only
      rw [if_neg (fun hne => hne hlen), hlen, hmore]
      rfl
    · have hsize := hspelled.length_eq
      rw [List.length_cons, List.length_append, span, hspan]
      omega
    · -- the step takes the bytes of the instruction and leaves the others
      refine .cons (hspelled.step_eq d more) ?_
      have hdrop : (rest ++ more).drop (insn.size pc - 1) = more := by
        rw [← hspelled.length_eq, Nat.add_sub_cancel, List.drop_left]
      rw [hdrop]
      exact hruns d

/-! ## Standard form -/

/-- Every decoder reads the same instructions from the code, and replaces nothing in it. -/
def Standard (code : Bytes) (insns : List Instruction) : Prop :=
  ∀ d : Decoder, d.decode code = .ok insns ∧ d.substitutions code = []

/-- Steps that every decoder takes, and that replace nothing, show that code is in standard form. -/
theorem standard_of_runs {code : Bytes} {steps : List Step}
    (hnone : ∀ s ∈ steps, s.substitution = none) (h : ∀ d : Decoder, d.Runs 0 code steps) :
    Standard code (steps.flatMap Step.insns) := by
  intro d
  refine ⟨Decoder.decode_eq_ok_iff.mpr ⟨steps, h d, rfl⟩, ?_⟩
  rw [(h d).substitutions_eq]
  exact List.filterMap_eq_nil_iff.mpr hnone

/-- Code in which one decoder replaces nothing is read alike by all decoders. -/
theorem standard_of_substitutions_nil {d : Decoder} {code : Bytes} {insns : List Instruction}
    (hdecode : d.decode code = .ok insns) (hnone : d.substitutions code = []) :
    Standard code insns := by
  obtain ⟨steps, hruns, rfl⟩ := Decoder.decode_eq_ok_iff.mp hdecode
  rw [hruns.substitutions_eq, List.filterMap_eq_nil_iff] at hnone
  exact standard_of_runs hnone fun d' => hruns.of_no_substitutions hnone d'

namespace Decoder

/-- What decoded code is written as is standard, and as long as the code. -/
theorem encodeCode_standard {d : Decoder} {code : Bytes} {insns : List Instruction}
    (h : d.decode code = .ok insns) :
    ∃ out, encodeCode insns = .ok out ∧ Standard out insns ∧ out.length = code.length := by
  obtain ⟨steps, hruns, rfl⟩ := decode_eq_ok_iff.mp h
  obtain ⟨hwell, hspan⟩ := hruns.sound
  obtain ⟨out, hout, hlength, hback⟩ := encodeFrom_runs 0 0 hwell
  have hstandard := standard_of_runs (fun s hs => substitution_of_mem_layoutSteps hs) hback
  rw [flatMap_layoutSteps] at hstandard
  exact ⟨out, hout, hstandard, hlength.trans hspan⟩

/-- **Code that decodes is in standard form afterwards**: nothing in it is reserved, its length is
as before, and its instructions no longer depend on the machine or the pool. -/
theorem standard_standardize {d : Decoder} {code : Bytes} {insns : List Instruction}
    (h : d.decode code = .ok insns) : Standard (d.standardize code).code insns ∧
      (d.standardize code).code.length = code.length := by
  rw [standardize, h]
  simp only
  by_cases hcount : (d.substitutions code).length = 0
  · -- nothing is reserved, and the code is not touched
    rw [if_pos hcount]
    refine ⟨?_, rfl⟩
    obtain ⟨steps, hruns, rfl⟩ := decode_eq_ok_iff.mp h
    rw [hruns.substitutions_eq, List.length_eq_zero_iff, List.filterMap_eq_nil_iff] at hcount
    exact standard_of_runs hcount (hruns.of_no_substitutions hcount)
  · -- the instructions are written out
    rw [if_neg hcount]
    obtain ⟨out, hout, hstandard⟩ := encodeCode_standard h
    rw [hout]
    exact hstandard

/-- Code that does not decode stays as it is. -/
theorem standardize_of_error {d : Decoder} {code : Bytes} {e : DecodeError}
    (h : d.decode code = .error e) : d.standardize code = { code } := by
  rw [standardize, h]

/-- Code never changes its length. -/
theorem length_standardize (d : Decoder) (code : Bytes) :
    (d.standardize code).code.length = code.length := by
  cases h : d.decode code with
  | error e => rw [standardize_of_error h]
  | ok insns => exact (standard_standardize h).2

/-- When the standard form decodes, it is standard: the code decoded in the first place. -/
theorem standard_of_decode_standardize {d : Decoder} {code : Bytes} {insns : List Instruction}
    (h : d.decode (d.standardize code).code = .ok insns) :
    Standard (d.standardize code).code insns := by
  cases hcode : d.decode code with
  | error e =>
    rw [standardize_of_error hcode] at h
    rw [hcode] at h
    cases h
  | ok found =>
    have hstandard := (standard_standardize hcode).1
    rw [(hstandard d).1] at h
    cases h
    exact hstandard

/-- Standard code is left as it is. -/
theorem standardize_of_standard {d : Decoder} {code : Bytes} {insns : List Instruction}
    (h : Standard code insns) : d.standardize code = { code } := by
  obtain ⟨hdecode, hnone⟩ := h d
  rw [standardize, hdecode]
  simp only [hnone, List.length_nil, if_true]

/-- **Standard form is other code exactly when something in the code is reserved.** -/
theorem substitutions_eq_zero_iff {d : Decoder} {code : Bytes} :
    (d.standardize code).substitutions = 0 ↔ (d.standardize code).code = code := by
  cases hcode : d.decode code with
  | error e => simp [standardize_of_error hcode]
  | ok insns =>
    constructor
    · intro hzero
      rw [standardize, hcode] at hzero ⊢
      simp only at hzero ⊢
      split
      · rfl
      · rename_i hcount
        rw [if_neg hcount] at hzero
        split at hzero
        · exact absurd hzero hcount
        · rfl
    · intro hsame
      have hstandard := (standard_standardize hcode).1
      rw [hsame] at hstandard
      rw [standardize_of_standard hstandard]

end Decoder

end ClassPrune
