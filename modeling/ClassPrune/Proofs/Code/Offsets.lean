import ClassPrune.Proofs.Code.Reencoding

/-!
# Offsets in standard code

Branches, exception ranges and line tables name instructions by the offsets at which they start.
Putting code into standard form keeps these offsets: each step over the code becomes instructions
that start where the step does, and only a breakpoint, which becomes two instructions, adds an
offset of its own.

- `offsetsFrom_append`: the offsets of a layout, part by part.
- `Decoder.starts`: the offsets at which the instructions of a code array start.
- `Decoder.IsBreakpoint`: a breakpoint starts at an offset.
- `Decoder.mem_offsetsFrom_step`, `Decoder.Runs.mem_offsets`: the offsets of one step, and of a run.
- `Decoder.standard_of_decode`: decoded code is written in standard form, with the same layout.
-/

namespace ClassPrune

/-- The offsets of a list are those of its front, and then those of the rest, from the end of the
front on. -/
theorem offsetsFrom_append (pc : Nat) (front back : List Instruction) :
    offsetsFrom pc (front ++ back)
      = offsetsFrom pc front ++ offsetsFrom (pc + span pc front) back := by
  induction front generalizing pc with
  | nil => rfl
  | cons insn front ih =>
    rw [List.cons_append, offsetsFrom, offsetsFrom, ih, span, Nat.add_assoc, List.cons_append]

/-- No step starts inside of another one. -/
theorem not_mem_starts_of_lt {pc start i : Nat} {steps : List Step} {s : Step}
    (h : (start, s) ∈ locate pc steps) (hlt : start < i) (hi : i < start + s.size) :
    i ∉ (locate pc steps).map Prod.fst := by
  induction steps generalizing pc with
  | nil => cases h
  | cons t steps ih =>
    rw [locate, List.map_cons, List.mem_cons]
    rintro (rfl | hmem)
    · rcases List.mem_cons.mp h with heq | h
      · cases heq
        exact absurd hlt (Nat.lt_irrefl _)
      · have hle := le_of_mem_locate h
        omega
    · rcases List.mem_cons.mp h with heq | h
      · cases heq
        obtain ⟨⟨i, u⟩, hu, rfl⟩ := List.mem_map.mp hmem
        have hle := le_of_mem_locate hu
        omega
      · exact ih h hmem

namespace Decoder

variable {d : Decoder}

/-- The offsets at which the instructions of a code array start. -/
def starts (d : Decoder) (code : Bytes) : List Nat := (d.located code).map Prod.fst

/-- A breakpoint of the profile starts at `pc`. A profile may give the name to a standard opcode,
which is then decoded as usual. -/
structure IsBreakpoint (d : Decoder) (code : Bytes) (pc : Nat) : Prop where
  start : pc ∈ d.starts code
  opcode : code[pc]? = some d.profile.breakpoint.byte
  reserved : d.profile.breakpoint.shape = .reserved

/-! ## One step -/

/-- The step at a breakpoint takes two bytes and gives two instructions. -/
theorem step_breakpoint {pc : Nat} {rest : Bytes} {s : Step}
    (hreserved : d.profile.breakpoint.shape = .reserved)
    (h : d.step pc d.profile.breakpoint rest = .ok s) :
    s.size = 2 ∧ s.insns = [.plain .nop, .plain .nop] := by
  obtain ⟨replacement, size, insns, hform, hinsns, rfl⟩ :=
    stepReserved_eq_ok (step_of_reserved hreserved h)
  rw [Profile.standardForm?, if_pos rfl] at hform
  cases hform
  exact ⟨rfl, standardForm_plain (by decide) (by decide) hinsns⟩

/-- Any other step gives one instruction. -/
theorem step_single {pc : Nat} {op : Opcode} {rest : Bytes} {s : Step}
    (hne : op.shape = .reserved → op ≠ d.profile.breakpoint) (h : d.step pc op rest = .ok s) :
    ∃ insn, s.insns = [insn] := by
  by_cases hshape : op.shape = .reserved
  · obtain ⟨replacement, size, insns, hform, hinsns, rfl⟩ :=
      stepReserved_eq_ok (step_of_reserved hshape h)
    rw [Profile.standardForm?, if_neg (hne hshape)] at hform
    -- one case for every other row of the profile
    split_ifs at hform <;> cases hform
    · exact ⟨_, standardForm_plain (by decide) (by decide) hinsns⟩
    · obtain ⟨a, more, index, -, -, -, rfl⟩ := standardForm_ldc hinsns
      exact ⟨_, rfl⟩
    · obtain ⟨a, b, more, index, -, -, rfl⟩ := standardForm_ldcW hinsns
      exact ⟨_, rfl⟩
    · exact ⟨_, standardForm_plain (by decide) (by decide) hinsns⟩
    · exact ⟨_, standardForm_plain (by decide) (by decide) hinsns⟩
  · obtain ⟨insn, operands, more, rfl, rfl, -⟩ := step_takenFrom hshape h
    exact ⟨insn, rfl⟩

/-- **The instructions of a step start where the step does**, and one byte later at a breakpoint. -/
theorem mem_offsetsFrom_step {pc : Nat} {op : Opcode} {rest : Bytes} {s : Step}
    (h : d.step pc op rest = .ok s) {i : Nat} :
    i ∈ offsetsFrom pc s.insns ↔
      i = pc ∨ (op.shape = .reserved ∧ op = d.profile.breakpoint ∧ i = pc + 1) := by
  by_cases hbreak : op.shape = .reserved ∧ op = d.profile.breakpoint
  · obtain ⟨hreserved, rfl⟩ := hbreak
    rw [(step_breakpoint hreserved h).2]
    show i ∈ [pc, pc + 1] ↔ _
    simp [hreserved]
  · have hne : op.shape = .reserved → op ≠ d.profile.breakpoint := fun hshape heq =>
      hbreak ⟨hshape, heq⟩
    obtain ⟨insn, hinsn⟩ := step_single hne h
    rw [hinsn]
    show i ∈ [pc] ↔ _
    rw [List.mem_singleton]
    constructor
    · exact .inl
    · rintro (hi | ⟨hshape, heq, -⟩)
      · exact hi
      · exact absurd heq (hne hshape)

/-! ## Whole arrays -/

/-- The offsets of a run are those of its steps, each where the step is located. -/
theorem Runs.offsetsFrom_eq {pc : Nat} {code : Bytes} {steps : List Step}
    (h : Runs d pc code steps) :
    offsetsFrom pc (steps.flatMap Step.insns)
      = (locate pc steps).flatMap fun p => offsetsFrom p.1 p.2.insns := by
  induction h with
  | nil pc => rfl
  | cons hstep _ ih =>
    rw [List.flatMap_cons, offsetsFrom_append, (step_sound hstep).1.span_eq, ih, locate,
      List.flatMap_cons]

/-- The opcode at which a step is located, and the step that is taken there. -/
theorem Runs.step_at {code : Bytes} {steps : List Step} (h : Runs d 0 code steps) {pc : Nat}
    {s : Step} (hmem : (pc, s) ∈ locate 0 steps) :
    ∃ op rest, code[pc]? = some (Opcode.byte op) ∧ d.step pc op rest = .ok s := by
  obtain ⟨out, -, hretraced⟩ := h.retraced
  obtain ⟨op, rest, hdrop, hstep, -⟩ := hretraced.window pc s (by rw [Nat.zero_add]; exact hmem)
  rw [Nat.zero_add] at hstep
  refine ⟨op, rest, ?_, hstep⟩
  rw [← List.head?_drop, hdrop]
  rfl

section Layout

variable {code : Bytes} {steps : List Step}

theorem Runs.mem_starts (h : Runs d 0 code steps) {pc : Nat} :
    pc ∈ d.starts code ↔ ∃ s, (pc, s) ∈ locate 0 steps := by
  rw [starts, located_of_runs h, List.mem_map]
  constructor
  · rintro ⟨⟨pc, s⟩, hmem, rfl⟩
    exact ⟨s, hmem⟩
  · rintro ⟨s, hmem⟩
    exact ⟨(pc, s), hmem, rfl⟩

/-- The instructions that a run gives start where its steps do, and behind its breakpoints. -/
theorem Runs.mem_offsets (h : Runs d 0 code steps) {i : Nat} :
    i ∈ offsets (steps.flatMap Step.insns) ↔
      i ∈ d.starts code ∨ ∃ pc, d.IsBreakpoint code pc ∧ i = pc + 1 := by
  rw [offsets, h.offsetsFrom_eq, List.mem_flatMap]
  constructor
  · rintro ⟨⟨pc, s⟩, hmem, hi⟩
    obtain ⟨op, rest, hop, hstep⟩ := h.step_at hmem
    rcases (mem_offsetsFrom_step hstep).mp hi with rfl | ⟨hreserved, rfl, rfl⟩
    · exact .inl (h.mem_starts.mpr ⟨s, hmem⟩)
    · exact .inr ⟨pc, ⟨h.mem_starts.mpr ⟨s, hmem⟩, hop, hreserved⟩, rfl⟩
  · rintro (hi | ⟨pc, hbreak, rfl⟩)
    · obtain ⟨s, hmem⟩ := h.mem_starts.mp hi
      obtain ⟨op, rest, -, hstep⟩ := h.step_at hmem
      exact ⟨(i, s), hmem, (mem_offsetsFrom_step hstep).mpr (.inl rfl)⟩
    · obtain ⟨s, hmem⟩ := h.mem_starts.mp hbreak.start
      obtain ⟨op, rest, hop, hstep⟩ := h.step_at hmem
      obtain rfl : op = d.profile.breakpoint :=
        Opcode.byte_inj (Option.some.inj (hop.symm.trans hbreak.opcode))
      exact ⟨(pc, s), hmem, (mem_offsetsFrom_step hstep).mpr (.inr ⟨hbreak.reserved, rfl, rfl⟩)⟩

/-- The second byte of a breakpoint starts nothing in the code. -/
theorem Runs.succ_breakpoint_not_mem (h : Runs d 0 code steps) {pc : Nat}
    (hbreak : d.IsBreakpoint code pc) : pc + 1 ∉ d.starts code := by
  obtain ⟨s, hmem⟩ := h.mem_starts.mp hbreak.start
  obtain ⟨op, rest, hop, hstep⟩ := h.step_at hmem
  obtain rfl : op = d.profile.breakpoint :=
    Opcode.byte_inj (Option.some.inj (hop.symm.trans hbreak.opcode))
  obtain ⟨hsize, -⟩ := step_breakpoint hbreak.reserved hstep
  rw [starts, located_of_runs h]
  exact not_mem_starts_of_lt hmem (Nat.lt_succ_self pc) (by omega)

end Layout

/-- **Decoded code is written in standard form, with the same layout.** Every decoder reads the
same instructions from what is written, and replaces nothing in it. What started in the code still
starts at its offset, and only the second byte of each breakpoint starts something new. -/
theorem standard_of_decode {d : Decoder} {code : Bytes} {insns : List Instruction}
    (h : d.decode code = .ok insns) :
    ∃ out, encodeCode insns = .ok out ∧ Standard out insns ∧ out.length = code.length ∧
      (∀ pc ∈ d.starts code, pc ∈ offsets insns) ∧
      ∀ i, (i ∈ offsets insns ∧ i ∉ d.starts code) ↔ ∃ pc, d.IsBreakpoint code pc ∧ i = pc + 1 := by
  obtain ⟨out, hout, hstandard, hlength⟩ := encodeCode_standard h
  obtain ⟨steps, hruns, rfl⟩ := decode_eq_ok_iff.mp h
  refine ⟨out, hout, hstandard, hlength, ?_, fun i => ?_⟩
  · intro pc hpc
    exact hruns.mem_offsets.mpr (.inl hpc)
  · rw [hruns.mem_offsets]
    constructor
    · rintro ⟨hstart | hbreak, hnot⟩
      · exact absurd hstart hnot
      · exact hbreak
    · rintro ⟨pc, hbreak, rfl⟩
      exact ⟨.inr ⟨pc, hbreak, rfl⟩, hruns.succ_breakpoint_not_mem hbreak⟩

theorem standard_of_decode_compactCode : ∃ insns, compactDecoder.decode compactCode = .ok insns ∧
    ∃ out, encodeCode insns = .ok out ∧ Standard out insns ∧ out.length = compactCode.length ∧
      (∀ pc ∈ compactDecoder.starts compactCode, pc ∈ offsets insns) ∧
      ∀ i, (i ∈ offsets insns ∧ i ∉ compactDecoder.starts compactCode) ↔
        ∃ pc, compactDecoder.IsBreakpoint compactCode pc ∧ i = pc + 1 :=
  have h : compactDecoder.decode compactCode = .ok
      [.plain .nop, .plain .nop, .constant .ldc 7 [], .constant .ldcW 7 [], .plain .aload0,
        .lookupSwitch 12 [], .plain .return_] := by decide +kernel
  ⟨_, h, standard_of_decode h⟩

end Decoder

end ClassPrune
