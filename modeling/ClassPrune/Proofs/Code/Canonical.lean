import ClassPrune.Proofs.Code.Reencoding

/-!
# Instructions that read back

Writing looks less closely at an instruction than reading does: it takes any opcode as one without
operands, and it takes a table without offsets. These two are all that stands between writing and
reading back.

- `Instruction.normalized`: the instruction without the amount that `wide` writes for `iinc` only.
- `Instruction.Canonical`: neither of the two.
- `Instruction.wellFormed_of_encode`: what is written and canonical is well formed.
- `Decoder.decode_encode_iff`: written instructions read back exactly when all are canonical.
-/

namespace ClassPrune

namespace Instruction

/-- The instruction with no amount where none is written. -/
def normalized : Instruction → Instruction
  | .wide op index amount => .wide op index (if op = .iinc then amount else 0)
  | insn => insn

/-- An opcode without operands is a standard one of that layout, and a table is not empty. -/
def Canonical : Instruction → Prop
  | .plain op => op.shape = .bare
  | .tableSwitch _ _ _ offsets => offsets ≠ []
  | _ => True

instance : DecidablePred Canonical
  | .plain op => inferInstanceAs (Decidable (op.shape = .bare))
  | .tableSwitch _ _ _ offsets => inferInstanceAs (Decidable (offsets ≠ []))
  | .operand _ _ | .iinc _ _ | .constant _ _ _ | .lookupSwitch _ _ | .wide _ _ _ =>
    inferInstanceAs (Decidable True)

/-! ## The amount of a wide instruction -/

@[simp] theorem opcode_normalized (insn : Instruction) : insn.normalized.opcode = insn.opcode := by
  cases insn <;> rfl

@[simp] theorem size_normalized (pc : Nat) (insn : Instruction) :
    insn.normalized.size pc = insn.size pc := by
  cases insn <;> rfl

/-- The amount that is left out by `normalized` is never written. -/
@[simp] theorem encode_normalized (pc : Nat) (insn : Instruction) :
    insn.normalized.encode pc = insn.encode pc := by
  cases insn with
  | wide op index amount =>
    unfold normalized encode
    by_cases hiinc : op = .iinc
    · simp only [if_pos hiinc]
    · simp only [if_neg hiinc]
  | _ => rfl

/-- Leaving it out does not make an instruction canonical that was not. -/
theorem canonical_normalized {insn : Instruction} : insn.normalized.Canonical ↔ insn.Canonical := by
  cases insn <;> exact Iff.rfl

/-! ## Well-formed instructions -/

/-- What decoding gives is canonical. -/
theorem WellFormed.canonical {insn : Instruction} (h : insn.WellFormed) : insn.Canonical := by
  cases h with
  | plain shape => exact shape
  | tableSwitch count nonempty =>
    rintro rfl
    rw [List.length_nil] at count
    omega
  | _ => trivial

/-- Writing checks the range of an operand, so an operand that is written is in range. -/
theorem wellFormed_of_encodeOperand {op : Opcode} {value : Int32} {bytes : Bytes}
    (h : encodeOperand op value = .ok bytes) : (Instruction.operand op value).WellFormed := by
  unfold encodeOperand at h
  cases hshape : op.shape with
  | localSlot | arrayType =>
    simp only [hshape] at h
    obtain ⟨hrange, -⟩ := ite_error_eq_ok.mp h
    exact .byte (by simp [hshape]) (by omega) (by omega)
  | signedByte =>
    simp only [hshape] at h
    obtain ⟨hrange, -⟩ := ite_error_eq_ok.mp h
    exact .signedByte hshape (by omega) (by omega)
  | signedShort | branch =>
    simp only [hshape] at h
    obtain ⟨hrange, -⟩ := ite_error_eq_ok.mp h
    exact .short (by simp [hshape]) (by omega) (by omega)
  | branchWide => exact .branchWide hshape
  | _ =>
    simp only [hshape] at h
    cases h

/-- Writing an index in one byte checks that it fits. -/
theorem wellFormed_of_encodeConstant {op : Opcode} {index : PoolIndex} {trailing bytes : Bytes}
    (h : encodeConstant op index trailing = .ok bytes) :
    (Instruction.constant op index trailing).WellFormed := by
  obtain ⟨hlength, h⟩ := ite_error_eq_ok.mp h
  have hlength : trailing.length = op.shape.trailing := not_not.mp hlength
  cases hshape : op.shape with
  | constant1 =>
    simp only [hshape] at h
    obtain ⟨hrange, -⟩ := ite_error_eq_ok.mp h
    -- nothing follows a one-byte index
    rw [hshape] at hlength
    obtain rfl : trailing = [] := List.eq_nil_of_length_eq_zero hlength
    exact .constant1 hshape (by omega)
  | constant2 | invokeInterface | invokeDynamic | multiArray =>
    exact .constant2 (by rw [hshape]; decide) hlength
  | _ =>
    simp only [hshape] at h
    cases h

/-- Writing takes no other opcodes with `wide` than reading does. -/
theorem isWideable_of_encode {pc : Nat} {op : Opcode} {index : UInt16} {amount : Int16}
    {bytes : Bytes} (h : (Instruction.wide op index amount).encode pc = .ok bytes) :
    op.isWideable = true := by
  by_contra hnot
  simp only [encode, if_neg hnot] at h
  cases h

/-- **Writing checks all of well-formedness but what `Canonical` says.** -/
theorem wellFormed_of_encode {pc : Nat} {insn : Instruction} {bytes : Bytes}
    (h : insn.encode pc = .ok bytes) (hcanonical : insn.Canonical) :
    insn.normalized.WellFormed := by
  cases insn with
  | plain op => exact .plain hcanonical
  | operand op value => exact wellFormed_of_encodeOperand h
  | iinc index amount => exact .iinc index amount
  | constant op index trailing => exact wellFormed_of_encodeConstant h
  | tableSwitch default_ low high offsets =>
    obtain ⟨hcount, -⟩ := ite_error_eq_ok.mp h
    have hcount : high.toInt - low.toInt + 1 = offsets.length := not_not.mp hcount
    have hpos : 0 < offsets.length := List.length_pos_iff.mpr hcanonical
    exact .tableSwitch hcount (by omega)
  | lookupSwitch default_ pairs =>
    obtain ⟨hcount, -⟩ := ite_error_eq_ok.mp h
    exact .lookupSwitch (by omega)
  | wide op index amount =>
    have hwideable := Opcode.isWideable_iff.mp (isWideable_of_encode h)
    by_cases hiinc : op = .iinc
    · rw [hiinc]
      exact .wideIinc index _
    · have hslot : op.shape = .localSlot := hwideable.resolve_left hiinc
      rw [normalized, if_neg hiinc]
      exact .wide hslot

end Instruction

/-! ## Lists -/

/-- A list is written as its normalized instructions are. -/
theorem encodeFrom_map_normalized (ordinal pc : Nat) (insns : List Instruction) :
    encodeFrom ordinal pc (insns.map Instruction.normalized) = encodeFrom ordinal pc insns := by
  induction insns generalizing ordinal pc with
  | nil => rfl
  | cons insn insns ih =>
    simp only [List.map_cons, encodeFrom, Instruction.encode_normalized,
      Instruction.size_normalized, Instruction.opcode_normalized, ih]

/-- Each instruction of a list that was written was written by itself. -/
theorem WrittenAs.exists_encode {pc : Nat} {insns : List Instruction} {bytes : Bytes}
    (h : WrittenAs pc insns bytes) {insn : Instruction} (hmem : insn ∈ insns) :
    ∃ start own, insn.encode start = .ok own := by
  induction h with
  | nil pc => cases hmem
  | cons head _ _ ih =>
    rcases List.mem_cons.mp hmem with rfl | hmem
    · exact ⟨_, _, head⟩
    · exact ih hmem

/-- **Written instructions read back exactly when all are canonical**, whatever the machine and
the pool. -/
theorem Decoder.decode_encode_iff {insns : List Instruction} {code : Bytes}
    (h : encodeCode insns = .ok code) (d : Decoder) :
    d.decode code = .ok (insns.map Instruction.normalized) ↔ ∀ insn ∈ insns, insn.Canonical := by
  constructor
  · -- all that a decoder gives is well formed
    intro hdecode insn hmem
    obtain ⟨steps, hruns, hinsns⟩ := decode_eq_ok_iff.mp hdecode
    have hwell := hruns.sound.1
    rw [← hinsns] at hwell
    exact Instruction.canonical_normalized.mp (hwell _ (List.mem_map_of_mem hmem)).canonical
  · intro hcanonical
    have hwell : ∀ insn ∈ insns.map Instruction.normalized, insn.WellFormed := by
      intro _ hmem
      obtain ⟨insn, hinsn, rfl⟩ := List.mem_map.mp hmem
      obtain ⟨pc, bytes, hencode⟩ := (encodeFrom_eq_ok.mp h).exists_encode hinsn
      exact Instruction.wellFormed_of_encode hencode (hcanonical insn hinsn)
    obtain ⟨written, hwritten, -, hruns⟩ := encodeFrom_runs 0 0 hwell
    -- the normalized instructions are written as the given ones
    rw [encodeFrom_map_normalized] at hwritten
    obtain rfl : written = code := Except.ok.inj (hwritten.symm.trans h)
    exact decode_eq_ok_iff.mpr ⟨_, hruns d, (flatMap_layoutSteps 0 _).symm⟩

/-- A wide load with an amount that is not written, a wide increment, a switch that is padded, a
table, and an opcode without operands. -/
def mixedInstructions : List Instruction :=
  [.wide ⟨0x19⟩ 300 7, .wide .iinc 2 (-1), .lookupSwitch 20 [(1, 2)], .tableSwitch 4 0 0 [9],
    .plain .return_]

/-- The same, with an opcode that takes an operand written as if it took none. -/
def driftingInstructions : List Instruction := mixedInstructions ++ [.plain ⟨0x19⟩, .plain .nop]

/-- What `mixedInstructions` are written as. -/
def mixedCode : Bytes :=
  [0xC4, 0x19, 0x01, 0x2C, 0xC4, 0x84, 0x00, 0x02, 0xFF, 0xFF, 0xAB, 0x00, 0x00, 0x00, 0x00, 0x14,
    0x00, 0x00, 0x00, 0x01, 0x00, 0x00, 0x00, 0x01, 0x00, 0x00, 0x00, 0x02, 0xAA, 0x00, 0x00, 0x00,
    0x00, 0x00, 0x00, 0x04, 0x00, 0x00, 0x00, 0x00, 0x00, 0x00, 0x00, 0x00, 0x00, 0x00, 0x00, 0x09,
    0xB1]

theorem Decoder.decode_encode_iff_mixedInstructions :
    encodeCode mixedInstructions = .ok mixedCode ∧
    encodeCode driftingInstructions = .ok (mixedCode ++ [0x19, 0x00]) ∧
    ∀ d : Decoder, d.decode mixedCode = .ok (mixedInstructions.map Instruction.normalized) ∧
      d.decode (mixedCode ++ [0x19, 0x00])
        ≠ .ok (driftingInstructions.map Instruction.normalized) := by
  have hmixed : encodeCode mixedInstructions = .ok mixedCode := by decide +kernel
  have hdrifting : encodeCode driftingInstructions = .ok (mixedCode ++ [0x19, 0x00]) := by
    decide +kernel
  refine ⟨hmixed, hdrifting, fun d => ⟨?_, ?_⟩⟩
  · exact (decode_encode_iff hmixed d).mpr (by decide +kernel)
  · intro hdecode
    exact absurd ((decode_encode_iff hdrifting d).mp hdecode) (by decide +kernel)

end ClassPrune
