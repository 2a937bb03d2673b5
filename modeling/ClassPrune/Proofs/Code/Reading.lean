import ClassPrune.Proofs.Code.Instruction
import ClassPrune.Proofs.Codec

/-!
# Reading one standard instruction

A standard opcode is read without the profile and the pool, and no bit of its operands is lost:
they can be written again from the instruction. Only what aligns the operands of a switch is not
looked at.

- `Opcode.cleared`: operands with zeros for what aligns them.
- `Instruction.ReadFrom`: the instruction is what an opcode and its operands are read as.
- `Step.TakenFrom`: a step takes one instruction from the front of the bytes behind an opcode.
- `Decoder.step_takenFrom`: every step at a standard opcode does.
-/

namespace ClassPrune

/-! ## Numbers from their bytes -/

/-- A byte that is read as a number is written as that byte. -/
theorem byte_ofInt32 (a : UInt8) : UInt8.ofNat (Int32.ofNat a.toNat).toInt.toNat = a := by
  have ha := a.toNat_lt
  rw [Int32.toInt_ofNat_of_lt (by omega), Int.toNat_natCast, UInt8.ofNat_toNat]

/-- Four bytes that are read as a number are written as these bytes. -/
theorem ofS4_toInt32 (a b c d : UInt8) :
    Bytes.ofS4 (Bytes.toU4 a b c d).toInt32 = [a, b, c, d] := by
  rw [Bytes.ofS4, UInt32.toUInt32_toInt32, Bytes.ofU4_toU4]

/-- The bytes that numbers were read from are those that they are written as. -/
theorem flatMap_of_readS4s? {n : Nat} {bytes : Bytes} {vs : List Int32}
    (h : readS4s? n bytes = some vs) : vs.flatMap Bytes.ofS4 = bytes.take (4 * n) := by
  fun_induction readS4s? n bytes generalizing vs with
  | case1 bytes =>
    cases h
    rfl
  | case2 n a b c d rest ih =>
    obtain ⟨more, hmore, rfl⟩ := Option.map_eq_some_iff.mp h
    rw [List.flatMap_cons, ofS4_toInt32, ih hmore]
    rfl
  | case3 n bytes hshort => cases h

theorem flatMap_of_readPairs? {n : Nat} {bytes : Bytes} {pairs : List (Int32 × Int32)}
    (h : readPairs? n bytes = some pairs) : pairs.flatMap pairBytes = bytes.take (8 * n) := by
  fun_induction readPairs? n bytes generalizing pairs with
  | case1 bytes =>
    cases h
    rfl
  | case2 n a b c d e f g i rest ih =>
    obtain ⟨more, hmore, rfl⟩ := Option.map_eq_some_iff.mp h
    rw [List.flatMap_cons, pairBytes, ofS4_toInt32, ofS4_toInt32, ih hmore]
    rfl
  | case3 n bytes hshort => cases h

/-! ## Opcodes -/

namespace Opcode

/-- The shapes whose operands are aligned. -/
def switchShapes : List Shape := [.tableSwitch, .lookupSwitch]

/-- The operands of an opcode at `pc`, with zeros for what aligns them. -/
def cleared (op : Opcode) (pc : Nat) (operands : Bytes) : Bytes :=
  if op.shape ∈ switchShapes then
    List.replicate (switchPadding pc) 0 ++ operands.drop (switchPadding pc)
  else operands

/-- The opcodes whose shape no other opcode has. -/
def singular : List Opcode := [.iinc, .tableswitch, .lookupswitch, .wide]

theorem singular_byte : ∀ n : Fin 256, ∀ other ∈ singular,
    (⟨UInt8.ofNat n⟩ : Opcode).shape = other.shape → (⟨UInt8.ofNat n⟩ : Opcode) = other := by
  decide +kernel

/-- These opcodes are the only ones of their shapes. -/
theorem eq_of_shape_eq {op other : Opcode} (hother : other ∈ singular)
    (h : op.shape = other.shape) : op = other := by
  obtain ⟨byte⟩ := op
  have hbyte := singular_byte ⟨byte.toNat, byte.toNat_lt⟩ other hother
  simp only [UInt8.ofNat_toNat] at hbyte
  exact hbyte h

/-- The opcodes that `wide` may stand in front of. -/
theorem isWideable_iff {op : Opcode} :
    op.isWideable = true ↔ op = .iinc ∨ op.shape = .localSlot := by
  simp [isWideable]

end Opcode

open Opcode (switchShapes)

/-! ## Instructions and the bytes that they are read from -/

/-- The instruction is what the opcode `op` at `pc` and the bytes behind it are read as. -/
structure Instruction.ReadFrom (pc : Nat) (op : Opcode) (operands : Bytes) (insn : Instruction) :
    Prop where
  wellFormed : insn.WellFormed
  size_eq : insn.size pc = operands.length + 1
  encode_eq : insn.encode pc = .ok (op.byte :: op.cleared pc operands)

namespace Instruction.ReadFrom

variable {pc : Nat} {op : Opcode} {operands : Bytes} {insn : Instruction}

/-- An instruction that is spelled by its operands was read from them, if nothing aligns them. -/
theorem of_spelled (hwell : insn.WellFormed) (h : insn.Spelled pc operands)
    (hunaligned : insn.opcode.shape ∉ switchShapes) : insn.ReadFrom pc insn.opcode operands where
  wellFormed := hwell
  size_eq := h.length_eq.symm
  encode_eq := by
    rw [Opcode.cleared, if_neg hunaligned]
    exact h.encode_eq

/-- Putting zeros in place of what aligns operands does not change their length. -/
theorem length_cleared (h : insn.ReadFrom pc op operands) :
    (op.cleared pc operands).length = operands.length := by
  obtain ⟨rest, hspelled⟩ := h.wellFormed.spelled pc
  have hbytes := hspelled.encode_eq
  rw [h.encode_eq] at hbytes
  have hrest : op.cleared pc operands = rest := (List.cons.inj (Except.ok.inj hbytes)).2
  have hlength := hspelled.length_eq
  rw [h.size_eq] at hlength
  rw [hrest]
  omega

/-- What aligns the operands of a switch is part of the bytes behind its opcode. -/
theorem padding_le (h : insn.ReadFrom pc op operands) (hswitch : op.shape ∈ switchShapes) :
    switchPadding pc ≤ operands.length := by
  have hlength := h.length_cleared
  rw [Opcode.cleared, if_pos hswitch, List.length_append, List.length_replicate,
    List.length_drop] at hlength
  omega

end Instruction.ReadFrom

/-- The step takes one instruction from the front of the bytes behind the opcode. -/
def Step.TakenFrom (pc : Nat) (op : Opcode) (rest : Bytes) (s : Step) : Prop :=
  ∃ insn operands more, rest = operands ++ more ∧ s = ⟨operands.length + 1, [insn], none⟩ ∧
    insn.ReadFrom pc op operands

/-! ## One form after the other -/

/-- The shapes with one number as their operand. -/
def operandShapes : List Shape :=
  [.localSlot, .arrayType, .signedByte, .signedShort, .branch, .branchWide]

/-- An operand of a fixed length, by the shape of its opcode. -/
theorem stepOperand_takenFrom {d : Decoder} {pc : Nat} {op : Opcode} {rest : Bytes} {s : Step}
    (hmem : op.shape ∈ operandShapes) (h : d.step pc op rest = .ok s) :
    s.TakenFrom pc op rest := by
  unfold Decoder.step at h
  cases hshape : op.shape with
  | localSlot | arrayType =>
    simp only [hshape] at h
    cases rest with
    | nil => cases h
    | cons a rest =>
      cases h
      have ha := a.toNat_lt
      have hvalue : (Int32.ofNat a.toNat).toInt = a.toNat := Int32.toInt_ofNat_of_lt (by omega)
      have hor : op.shape = .localSlot ∨ op.shape = .arrayType := by simp [hshape]
      have hspelled : Instruction.Spelled pc (.operand op (Int32.ofNat a.toNat)) _ :=
        Instruction.spelled_byte pc hor (by omega) (by omega)
      rw [byte_ofInt32] at hspelled
      exact ⟨_, [a], rest, rfl, rfl, .of_spelled (.byte hor (by omega) (by omega)) hspelled
        (by simp [Instruction.opcode, hshape, switchShapes])⟩
  | signedByte =>
    -- sign extension keeps the value within one byte
    simp only [hshape] at h
    cases rest with
    | nil => cases h
    | cons a rest =>
      cases h
      have hvalue := Int8.toInt_toInt32 a.toInt8
      have hlow := a.toInt8.le_toInt
      have hhigh := a.toInt8.toInt_lt
      have hspelled : Instruction.Spelled pc (.operand op a.toInt8.toInt32) _ :=
        Instruction.spelled_signedByte pc hshape (by omega) (by omega)
      rw [Int8.toInt8_toInt32, UInt8.toUInt8_toInt8] at hspelled
      exact ⟨_, [a], rest, rfl, rfl, .of_spelled (.signedByte hshape (by omega) (by omega)) hspelled
        (by simp [Instruction.opcode, hshape, switchShapes])⟩
  | signedShort | branch =>
    simp only [hshape] at h
    rcases rest with _ | ⟨a, _ | ⟨b, rest⟩⟩
    · cases h
    · cases h
    · cases h
      have hvalue := Int16.toInt_toInt32 (Bytes.toU2 a b).toInt16
      have hlow := (Bytes.toU2 a b).toInt16.le_toInt
      have hhigh := (Bytes.toU2 a b).toInt16.toInt_lt
      have hor : op.shape = .signedShort ∨ op.shape = .branch := by simp [hshape]
      have hspelled : Instruction.Spelled pc (.operand op (Bytes.toU2 a b).toInt16.toInt32) _ :=
        Instruction.spelled_short pc hor (by omega) (by omega)
      rw [Int16.toInt16_toInt32, UInt16.toUInt16_toInt16, Bytes.ofU2_toU2] at hspelled
      exact ⟨_, [a, b], rest, rfl, rfl, .of_spelled (.short hor (by omega) (by omega)) hspelled
        (by simp [Instruction.opcode, hshape, switchShapes])⟩
  | branchWide =>
    simp only [hshape] at h
    rcases rest with _ | ⟨a, _ | ⟨b, _ | ⟨c, _ | ⟨e, rest⟩⟩⟩⟩
    · cases h
    · cases h
    · cases h
    · cases h
    · cases h
      have hspelled : Instruction.Spelled pc (.operand op (Bytes.toU4 a b c e).toInt32) _ :=
        Instruction.spelled_branchWide pc hshape
      rw [ofS4_toInt32] at hspelled
      exact ⟨_, [a, b, c, e], rest, rfl, rfl, .of_spelled (.branchWide hshape) hspelled
        (by simp [Instruction.opcode, hshape, switchShapes])⟩
  | _ =>
    rw [hshape] at hmem
    simp [operandShapes] at hmem

theorem unaligned_of_twoByteShapes {shape : Shape} (h : shape ∈ Instruction.twoByteShapes) :
    shape ∉ switchShapes := by
  cases shape <;> revert h <;> decide

/-- An index of two bytes, and the bytes behind it that belong to the instruction. -/
theorem stepConstant_takenFrom (pc : Nat) {n : Nat} {op : Opcode} {rest : Bytes} {s : Step}
    (hshape : op.shape ∈ Instruction.twoByteShapes) (hn : n = op.shape.trailing)
    (h : Decoder.stepConstant op n rest = .ok s) : s.TakenFrom pc op rest := by
  rcases rest with _ | ⟨a, _ | ⟨b, rest⟩⟩
  · cases h
  · cases h
  unfold Decoder.stepConstant at h
  simp only at h
  cases hsplit : Bytes.split? n rest with
  | none =>
    rw [hsplit] at h
    cases h
  | some parts =>
    obtain ⟨trailing, back⟩ := parts
    rw [hsplit] at h
    cases h
    obtain ⟨rfl, hlen⟩ := Bytes.split?_eq_some_iff.mp hsplit
    have hspelled : Instruction.Spelled pc (.constant op (Bytes.toU2 a b) trailing) _ :=
      Instruction.spelled_constant2 pc hshape (hlen.trans hn)
    rw [Bytes.ofU2_toU2] at hspelled
    have hsize : 3 + n = ([a, b] ++ trailing).length + 1 := by
      rw [List.length_append, hlen, List.length_cons, List.length_singleton]
      omega
    refine ⟨_, [a, b] ++ trailing, back, rfl, by rw [hsize], ?_⟩
    exact .of_spelled (.constant2 hshape (hlen.trans hn)) hspelled
      (unaligned_of_twoByteShapes hshape)

/-- A wide instruction, whose own opcode is the first of its operands. -/
theorem stepWide_takenFrom (pc : Nat) {rest : Bytes} {s : Step} (h : stepWide rest = .ok s) :
    s.TakenFrom pc .wide rest := by
  have hunaligned : Opcode.wide.shape ∉ switchShapes := by
    rw [Instruction.shape_wide]
    decide
  cases rest with
  | nil => cases h
  | cons byte rest =>
    unfold stepWide at h
    dsimp only at h
    obtain ⟨hwideable, h⟩ := ite_error_eq_ok.mp h
    rw [Bool.not_eq_true, Bool.not_eq_false', Opcode.isWideable_iff] at hwideable
    by_cases hiinc : (⟨byte⟩ : Opcode) = .iinc
    · simp only [hiinc, if_true] at h
      rcases rest with _ | ⟨a, _ | ⟨b, _ | ⟨c, _ | ⟨d, rest⟩⟩⟩⟩
      · cases h
      · cases h
      · cases h
      · cases h
      · cases h
        obtain rfl : byte = 0x84 := congrArg Opcode.byte hiinc
        have hspelled := Instruction.spelled_wideIinc pc (Bytes.toU2 a b)
          (Bytes.toU2 c d).toInt16
        rw [UInt16.toUInt16_toInt16, Bytes.ofU2_toU2, Bytes.ofU2_toU2] at hspelled
        exact ⟨_, [0x84, a, b, c, d], rest, rfl, rfl,
          .of_spelled (.wideIinc _ _) hspelled hunaligned⟩
    · have hslot : (⟨byte⟩ : Opcode).shape = .localSlot := hwideable.resolve_left hiinc
      -- the operand is two bytes, whatever follows them
      have hops : ∃ a b more, rest = a :: b :: more ∧
          s = ⟨4, [.wide ⟨byte⟩ (Bytes.toU2 a b) 0], none⟩ := by
        simp only [if_neg hiinc] at h
        rcases rest with _ | ⟨a, _ | ⟨b, _ | ⟨c, _ | ⟨d, rest⟩⟩⟩⟩
        · cases h
        · cases h
        · exact ⟨a, b, _, rfl, (Except.ok.inj h).symm⟩
        · exact ⟨a, b, _, rfl, (Except.ok.inj h).symm⟩
        · exact ⟨a, b, _, rfl, (Except.ok.inj h).symm⟩
      obtain ⟨a, b, more, rfl, rfl⟩ := hops
      have hspelled : Instruction.Spelled pc (.wide ⟨byte⟩ (Bytes.toU2 a b) 0) _ :=
        Instruction.spelled_wide pc hslot
      rw [Bytes.ofU2_toU2] at hspelled
      exact ⟨_, [byte, a, b], more, rfl, rfl, .of_spelled (.wide hslot) hspelled hunaligned⟩

/-! ### Switches -/

/-- A switch takes its padding and `n` more bytes, and its numbers are those bytes. -/
theorem Step.takenFrom_of_switch {pc n : Nat} {op : Opcode} {rest written : Bytes}
    {insn : Instruction} (hswitch : op.shape ∈ switchShapes) (hwell : insn.WellFormed)
    (hsize : insn.size pc = 1 + switchPadding pc + n)
    (hlength : switchPadding pc + n ≤ rest.length)
    (hencode : insn.encode pc
      = .ok (op.byte :: (List.replicate (switchPadding pc) 0 ++ written)))
    (hwritten : written = (rest.drop (switchPadding pc)).take n) :
    Step.TakenFrom pc op rest ⟨insn.size pc, [insn], none⟩ := by
  have htake : (rest.take (switchPadding pc + n)).length + 1 = insn.size pc := by
    rw [List.length_take]
    omega
  refine ⟨insn, rest.take (switchPadding pc + n), rest.drop (switchPadding pc + n),
    (List.take_append_drop _ _).symm, by rw [htake], hwell, htake.symm, ?_⟩
  rw [hencode, hwritten, Opcode.cleared, if_pos hswitch, List.drop_take, Nat.add_sub_cancel_left]

/-- A table switch says by its limits how many offsets belong to it. -/
theorem stepTableSwitch_takenFrom {pc : Nat} {rest : Bytes} {s : Step}
    (h : stepTableSwitch pc rest = .ok s) : s.TakenFrom pc .tableswitch rest := by
  unfold stepTableSwitch at h
  split at h
  · rename_i default_ low high hhead
    obtain ⟨hnonempty, h⟩ := ite_error_eq_ok.mp h
    split at h
    · rename_i offsets htable
      cases h
      obtain ⟨hlen, hle⟩ := readS4s?_eq_some htable
      obtain ⟨-, hle'⟩ := readS4s?_eq_some hhead
      rw [List.length_drop] at hle hle'
      have hcount : high.toInt - low.toInt + 1 = offsets.length := by omega
      have hspelled : Instruction.Spelled pc (.tableSwitch default_ low high offsets) _ :=
        Instruction.spelled_tableSwitch pc hcount (by omega)
      -- three numbers in front, and one for each offset
      refine Step.takenFrom_of_switch (n := 12 + 4 * offsets.length) ?_
        (.tableSwitch hcount (by omega)) ?_ (by omega) hspelled.encode_eq ?_
      · rw [Instruction.shape_tableswitch]
        decide
      · rw [← Nat.add_assoc]
        rfl
      · rw [flatMap_of_readS4s? hhead, flatMap_of_readS4s? htable, ← hlen, List.take_add,
          List.drop_drop]
    · cases h
  · cases h

/-- A lookup switch says how many pairs belong to it. -/
theorem stepLookupSwitch_takenFrom {pc : Nat} {rest : Bytes} {s : Step}
    (h : stepLookupSwitch pc rest = .ok s) : s.TakenFrom pc .lookupswitch rest := by
  unfold stepLookupSwitch at h
  split at h
  · rename_i default_ count hhead
    obtain ⟨hcount, h⟩ := ite_error_eq_ok.mp h
    split at h
    · rename_i pairs htable
      cases h
      obtain ⟨hlen, hle⟩ := readPairs?_eq_some htable
      obtain ⟨-, hle'⟩ := readS4s?_eq_some hhead
      rw [List.length_drop] at hle hle'
      -- a count that was read is at most the largest number of four signed bytes
      have hlt := count.toInt_lt
      have hpairs : pairs.length ≤ 0x7FFFFFFF := by omega
      have hspelled : Instruction.Spelled pc (.lookupSwitch default_ pairs) _ :=
        Instruction.spelled_lookupSwitch pc hpairs
      have hback : Int32.ofNat pairs.length = count := by
        apply Int32.toInt_inj.mp
        rw [Int32.toInt_ofNat_of_lt (by omega)]
        omega
      refine Step.takenFrom_of_switch (n := 8 + 8 * pairs.length) ?_
        (.lookupSwitch hpairs) ?_ (by omega) hspelled.encode_eq ?_
      · rw [Instruction.shape_lookupswitch]
        decide
      · rw [← Nat.add_assoc]
        rfl
      · rw [hback, flatMap_of_readS4s? hhead, flatMap_of_readPairs? htable, ← hlen, List.take_add,
          List.drop_drop]
    · cases h
  · cases h

/-! ## Every standard opcode -/

/-- **A step at a standard opcode takes one instruction, from which its bytes can be written
again.** -/
theorem Decoder.step_takenFrom {d : Decoder} {pc : Nat} {op : Opcode} {rest : Bytes} {s : Step}
    (hstandard : op.shape ≠ .reserved) (h : d.step pc op rest = .ok s) :
    s.TakenFrom pc op rest := by
  have hstep := h
  unfold Decoder.step at h
  cases hshape : op.shape with
  | reserved => exact absurd hshape hstandard
  | bare =>
    simp only [hshape] at h
    cases h
    obtain ⟨rest', hspelled⟩ := (Instruction.WellFormed.plain hshape).spelled pc
    obtain rfl : rest' = [] := List.eq_nil_of_length_eq_zero (Nat.succ.inj hspelled.length_eq)
    exact ⟨_, [], rest, rfl, rfl, .of_spelled (.plain hshape) hspelled
      (by simp [Instruction.opcode, hshape, switchShapes])⟩
  | localSlot | arrayType | signedByte | signedShort | branch | branchWide =>
    exact stepOperand_takenFrom (by rw [hshape]; decide) hstep
  | constant1 =>
    simp only [hshape] at h
    cases rest with
    | nil => cases h
    | cons a rest =>
      cases h
      have ha := a.toNat_lt
      have hindex : (UInt16.ofNat a.toNat).toNat = a.toNat := by
        rw [UInt16.toNat_ofNat', Nat.mod_eq_of_lt (by omega)]
      have hspelled : Instruction.Spelled pc (.constant op (UInt16.ofNat a.toNat) []) _ :=
        Instruction.spelled_constant1 pc hshape (by omega)
      rw [hindex, UInt8.ofNat_toNat] at hspelled
      exact ⟨_, [a], rest, rfl, rfl, .of_spelled (.constant1 hshape (by omega)) hspelled
        (by simp [Instruction.opcode, hshape, switchShapes])⟩
  | constant2 | invokeInterface | invokeDynamic | multiArray =>
    simp only [hshape] at h
    exact stepConstant_takenFrom pc (by rw [hshape]; decide) (by rw [hshape]) h
  | iinc =>
    simp only [hshape] at h
    obtain rfl := Opcode.eq_of_shape_eq (by decide) (hshape.trans Instruction.shape_iinc.symm)
    rcases rest with _ | ⟨a, _ | ⟨b, rest⟩⟩
    · cases h
    · cases h
    · cases h
      have hspelled := Instruction.spelled_iinc pc a b.toInt8
      rw [UInt8.toUInt8_toInt8] at hspelled
      exact ⟨_, [a, b], rest, rfl, rfl, .of_spelled (.iinc _ _) hspelled
        (by simp [Instruction.opcode, hshape, switchShapes])⟩
  | wide =>
    simp only [hshape] at h
    obtain rfl := Opcode.eq_of_shape_eq (by decide) (hshape.trans Instruction.shape_wide.symm)
    exact stepWide_takenFrom pc h
  | tableSwitch =>
    simp only [hshape] at h
    obtain rfl := Opcode.eq_of_shape_eq (by decide)
      (hshape.trans Instruction.shape_tableswitch.symm)
    exact stepTableSwitch_takenFrom h
  | lookupSwitch =>
    simp only [hshape] at h
    obtain rfl := Opcode.eq_of_shape_eq (by decide)
      (hshape.trans Instruction.shape_lookupswitch.symm)
    exact stepLookupSwitch_takenFrom h

end ClassPrune
