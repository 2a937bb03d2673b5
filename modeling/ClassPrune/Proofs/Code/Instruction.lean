import ClassPrune.Code.Decoding
import ClassPrune.Proofs.Bytes

/-!
# Instructions and their bytes

- `Instruction.WellFormed`: the opcode takes operands of this form and they are in range. This
  does not depend on where the instruction stands.
- `Instruction.Spelled`: some bytes are the encoding of an instruction at an offset, and every
  decoder that stands there reads the instruction back from them, whatever follows.
- `Instruction.WellFormed.spelled`: a well-formed instruction has such bytes at every offset.

Operands have about a dozen forms, which the shape of an opcode tells apart. Each form has one lemma
that writes it and reads it back, `spelled_byte` and those after it, and the theorem goes through
the constructors of `WellFormed` with them. That the offset is arbitrary matters for switches alone,
whose operands are aligned.
-/

namespace ClassPrune

/-! ## Signed numbers -/

/-- A number that fits into a byte is the number of that byte. -/
theorem int32_ofByte {v : Int32} (hlow : 0 ≤ v.toInt) (hhigh : v.toInt ≤ 255) :
    Int32.ofNat (UInt8.ofNat v.toInt.toNat).toNat = v := by
  apply Int32.toInt_inj.mp
  rw [UInt8.toNat_ofNat', Nat.mod_eq_of_lt (by omega), Int32.toInt_ofNat_of_lt (by omega)]
  omega

/-- The same for a byte with a sign, which may be below zero. -/
theorem int32_ofSignedByte {v : Int32} (hlow : -128 ≤ v.toInt) (hhigh : v.toInt ≤ 127) :
    v.toInt8.toUInt8.toInt8.toInt32 = v := by
  apply Int32.toInt_inj.mp
  rw [Int8.toInt8_toUInt8, Int8.toInt_toInt32, Int32.toInt_toInt8]
  exact Int.bmod_eq_of_le (by omega) (by omega)

/-- The same for two bytes with a sign. -/
theorem int32_ofShort {v : Int32} (hlow : -32768 ≤ v.toInt) (hhigh : v.toInt ≤ 32767) :
    v.toInt16.toInt32 = v := by
  apply Int32.toInt_inj.mp
  rw [Int16.toInt_toInt32, Int32.toInt_toInt16]
  exact Int.bmod_eq_of_le (by omega) (by omega)

/-- Numbers that were read are as many as were asked for, and their bytes were there. -/
theorem readS4s?_eq_some {n : Nat} {bytes : Bytes} {vs : List Int32}
    (h : readS4s? n bytes = some vs) : vs.length = n ∧ 4 * n ≤ bytes.length := by
  fun_induction readS4s? n bytes generalizing vs with
  | case1 bytes =>
    cases h
    exact ⟨rfl, Nat.zero_le _⟩
  | case2 n a b c d rest ih =>
    obtain ⟨more, hmore, rfl⟩ := Option.map_eq_some_iff.mp h
    obtain ⟨hlen, hle⟩ := ih hmore
    simp only [List.length_cons]
    omega
  | case3 n bytes hshort => cases h

/-- Numbers are read again from their bytes, whatever follows. -/
theorem readS4s?_flatMap (vs : List Int32) (tail : Bytes) :
    readS4s? vs.length (vs.flatMap Bytes.ofS4 ++ tail) = some vs := by
  induction vs with
  | nil => rfl
  | cons v vs ih =>
    rw [List.flatMap_cons, List.append_assoc, Bytes.ofS4, Bytes.ofU4]
    show (readS4s? vs.length (vs.flatMap Bytes.ofS4 ++ tail)).map _ = some (v :: vs)
    rw [ih, Option.map_some, Bytes.toU4_ofNat, Int32.toInt32_toUInt32]

/-- The bytes of one row of a table of pairs. -/
def pairBytes (pair : Int32 × Int32) : Bytes := Bytes.ofS4 pair.1 ++ Bytes.ofS4 pair.2

theorem readPairs?_eq_some {n : Nat} {bytes : Bytes} {pairs : List (Int32 × Int32)}
    (h : readPairs? n bytes = some pairs) : pairs.length = n ∧ 8 * n ≤ bytes.length := by
  fun_induction readPairs? n bytes generalizing pairs with
  | case1 bytes =>
    cases h
    exact ⟨rfl, Nat.zero_le _⟩
  | case2 n a b c d e f g i rest ih =>
    obtain ⟨more, hmore, rfl⟩ := Option.map_eq_some_iff.mp h
    obtain ⟨hlen, hle⟩ := ih hmore
    simp only [List.length_cons]
    omega
  | case3 n bytes hshort => cases h

/-- Pairs of numbers are read again as well. -/
theorem readPairs?_flatMap (pairs : List (Int32 × Int32)) (tail : Bytes) :
    readPairs? pairs.length (pairs.flatMap pairBytes ++ tail) = some pairs := by
  induction pairs with
  | nil => rfl
  | cons pair pairs ih =>
    rw [List.flatMap_cons, List.append_assoc, pairBytes, Bytes.ofS4, Bytes.ofS4, Bytes.ofU4,
      Bytes.ofU4]
    show (readPairs? pairs.length (pairs.flatMap pairBytes ++ tail)).map _ = some (pair :: pairs)
    rw [ih, Option.map_some, Bytes.toU4_ofNat, Bytes.toU4_ofNat, Int32.toInt32_toUInt32,
      Int32.toInt32_toUInt32]

theorem length_flatMap_ofS4 (vs : List Int32) : (vs.flatMap Bytes.ofS4).length = 4 * vs.length := by
  induction vs with
  | nil => rfl
  | cons v vs ih =>
    rw [List.flatMap_cons, List.length_append, ih, List.length_cons]
    show 4 + _ = _
    omega

theorem length_flatMap_pairBytes (pairs : List (Int32 × Int32)) :
    (pairs.flatMap pairBytes).length = 8 * pairs.length := by
  induction pairs with
  | nil => rfl
  | cons pair pairs ih =>
    rw [List.flatMap_cons, List.length_append, ih, List.length_cons]
    show 8 + _ = _
    omega

namespace Instruction

/-! ## Well-formed instructions -/

/-- The shapes of opcodes that name a constant in two bytes. -/
def twoByteShapes : List Shape := [.constant2, .invokeInterface, .invokeDynamic, .multiArray]

/-- The opcode takes operands of this form, and they are in range. -/
inductive WellFormed : Instruction → Prop
  | plain {op : Opcode} (shape : op.shape = .bare) : WellFormed (.plain op)
  | byte {op : Opcode} {value : Int32} (shape : op.shape = .localSlot ∨ op.shape = .arrayType)
    (low : 0 ≤ value.toInt) (high : value.toInt ≤ 255) : WellFormed (.operand op value)
  | signedByte {op : Opcode} {value : Int32} (shape : op.shape = .signedByte)
    (low : -128 ≤ value.toInt) (high : value.toInt ≤ 127) : WellFormed (.operand op value)
  | short {op : Opcode} {value : Int32} (shape : op.shape = .signedShort ∨ op.shape = .branch)
    (low : -32768 ≤ value.toInt) (high : value.toInt ≤ 32767) : WellFormed (.operand op value)
  | branchWide {op : Opcode} {value : Int32} (shape : op.shape = .branchWide) :
    WellFormed (.operand op value)
  | iinc (index : UInt8) (amount : Int8) : WellFormed (.iinc index amount)
  | constant1 {op : Opcode} {index : PoolIndex} (shape : op.shape = .constant1)
    (high : index.toNat ≤ 255) : WellFormed (.constant op index [])
  | constant2 {op : Opcode} {index : PoolIndex} {trailing : Bytes}
    (shape : op.shape ∈ twoByteShapes) (length : trailing.length = op.shape.trailing) :
    WellFormed (.constant op index trailing)
  | tableSwitch {default_ low high : Int32} {offsets : List Int32}
    (count : high.toInt - low.toInt + 1 = offsets.length) (nonempty : low.toInt ≤ high.toInt) :
    WellFormed (.tableSwitch default_ low high offsets)
  | lookupSwitch {default_ : Int32} {pairs : List (Int32 × Int32)}
    (count : pairs.length ≤ 0x7FFFFFFF) : WellFormed (.lookupSwitch default_ pairs)
  | wide {op : Opcode} {index : UInt16} (shape : op.shape = .localSlot) :
    WellFormed (.wide op index 0)
  | wideIinc (index : UInt16) (amount : Int16) : WellFormed (.wide .iinc index amount)

/-- The bytes are what follows the opcode of the instruction at `pc`. -/
structure Spelled (pc : Nat) (insn : Instruction) (rest : Bytes) : Prop where
  encode_eq : insn.encode pc = .ok (insn.opcode.byte :: rest)
  length_eq : rest.length + 1 = insn.size pc
  step_eq : ∀ (d : Decoder) (tail : Bytes),
    d.step pc insn.opcode (rest ++ tail) = .ok ⟨insn.size pc, [insn], none⟩

/-! ## One form after the other

The table of opcodes is long, so facts about single opcodes are settled by evaluation once and the
layout of the others is left as it stands. -/

/-- The opcodes with a layout of their own, and the two that load a constant. -/
theorem shapes_of_table : Opcode.iinc.shape = .iinc ∧ Opcode.tableswitch.shape = .tableSwitch ∧
    Opcode.lookupswitch.shape = .lookupSwitch ∧ Opcode.wide.shape = .wide ∧
    Opcode.ldc.shape = .constant1 ∧ Opcode.ldcW.shape = .constant2 := by
  decide +kernel

theorem shape_iinc : Opcode.iinc.shape = .iinc := shapes_of_table.1

theorem shape_tableswitch : Opcode.tableswitch.shape = .tableSwitch := shapes_of_table.2.1

theorem shape_lookupswitch : Opcode.lookupswitch.shape = .lookupSwitch := shapes_of_table.2.2.1

theorem shape_wide : Opcode.wide.shape = .wide := shapes_of_table.2.2.2.1

theorem shape_ldc : Opcode.ldc.shape = .constant1 := shapes_of_table.2.2.2.2.1

theorem shape_ldcW : Opcode.ldcW.shape = .constant2 := shapes_of_table.2.2.2.2.2

/-- The number of a local variable, or the code of an array type. -/
theorem spelled_byte (pc : Nat) {op : Opcode} {value : Int32}
    (shape : op.shape = .localSlot ∨ op.shape = .arrayType)
    (low : 0 ≤ value.toInt) (high : value.toInt ≤ 255) :
    Spelled pc (.operand op value) [UInt8.ofNat value.toInt.toNat] := by
  have hrange : ¬(value.toInt < 0 ∨ value.toInt > 255) := by omega
  rcases shape with shape | shape
  all_goals
    refine ⟨?_, ?_, ?_⟩
    · unfold encode encodeOperand
      simp only [shape, if_neg hrange, opcode]
    · unfold size
      simp only [shape, List.length_singleton]
    · intro d tail
      unfold Decoder.step size
      simp only [opcode, shape, List.singleton_append, int32_ofByte low high]

/-- A constant of one byte, with its sign. -/
theorem spelled_signedByte (pc : Nat) {op : Opcode} {value : Int32}
    (shape : op.shape = .signedByte) (low : -128 ≤ value.toInt) (high : value.toInt ≤ 127) :
    Spelled pc (.operand op value) [value.toInt8.toUInt8] := by
  have hrange : ¬(value.toInt < -128 ∨ value.toInt > 127) := by omega
  refine ⟨?_, ?_, ?_⟩
  · unfold encode encodeOperand
    simp only [shape, if_neg hrange, opcode]
  · unfold size
    simp only [shape, List.length_singleton]
  · intro d tail
    unfold Decoder.step size
    simp only [opcode, shape, List.singleton_append, int32_ofSignedByte low high]

/-- A constant of two bytes, or a branch offset. -/
theorem spelled_short (pc : Nat) {op : Opcode} {value : Int32}
    (shape : op.shape = .signedShort ∨ op.shape = .branch)
    (low : -32768 ≤ value.toInt) (high : value.toInt ≤ 32767) :
    Spelled pc (.operand op value) (Bytes.ofU2 value.toInt16.toUInt16) := by
  have hrange : ¬(value.toInt < -32768 ∨ value.toInt > 32767) := by omega
  rcases shape with shape | shape
  all_goals
    refine ⟨?_, ?_, ?_⟩
    · unfold encode encodeOperand
      simp only [shape, if_neg hrange, opcode]
    · unfold size
      simp only [shape, Bytes.length_ofU2]
    · intro d tail
      unfold Decoder.step size
      simp only [opcode, shape, Bytes.ofU2, List.cons_append, List.nil_append,
        Bytes.toU2_ofNat, Int16.toInt16_toUInt16, int32_ofShort low high]

/-- Branch offsets of four bytes take any number. -/
theorem spelled_branchWide (pc : Nat) {op : Opcode} {value : Int32}
    (shape : op.shape = .branchWide) : Spelled pc (.operand op value) (Bytes.ofS4 value) := by
  refine ⟨?_, ?_, ?_⟩
  · unfold encode encodeOperand
    simp only [shape, opcode]
  · unfold size
    simp only [shape, Bytes.ofS4, Bytes.length_ofU4]
  · intro d tail
    unfold Decoder.step size
    simp only [opcode, shape, Bytes.ofS4, Bytes.ofU4, List.cons_append, List.nil_append,
      Bytes.toU4_ofNat, Int32.toInt32_toUInt32]

/-- A local variable and the amount that is added to it, of one byte each. -/
theorem spelled_iinc (pc : Nat) (index : UInt8) (amount : Int8) :
    Spelled pc (.iinc index amount) [index, amount.toUInt8] := by
  refine ⟨rfl, rfl, fun d tail => ?_⟩
  unfold Decoder.step size
  simp only [opcode, shape_iinc, List.cons_append, List.nil_append, Int8.toInt8_toUInt8]

/-- An index of one byte; only the first 255 constants can be named like this. -/
theorem spelled_constant1 (pc : Nat) {op : Opcode} {index : PoolIndex}
    (shape : op.shape = .constant1) (high : index.toNat ≤ 255) :
    Spelled pc (.constant op index []) [UInt8.ofNat index.toNat] := by
  have hindex : UInt16.ofNat (UInt8.ofNat index.toNat).toNat = index := by
    rw [UInt8.toNat_ofNat', Nat.mod_eq_of_lt (by omega), UInt16.ofNat_toNat]
  have hrange : ¬index.toNat > 255 := by omega
  have htrailing : ¬([] : Bytes).length ≠ Shape.constant1.trailing := by decide
  refine ⟨?_, ?_, ?_⟩
  · unfold encode encodeConstant
    simp only [shape, if_neg hrange, if_neg htrailing, opcode]
  · unfold size
    simp only [shape, if_true, List.length_singleton]
  · intro d tail
    unfold Decoder.step size
    simp only [opcode, shape, if_true, List.singleton_append, hindex]

/-- An index of two bytes, behind which some opcodes have further bytes of a fixed number. -/
theorem size_constant2 (pc : Nat) {op : Opcode} (shape : op.shape ∈ twoByteShapes)
    (index : PoolIndex) (trailing : Bytes) :
    size pc (.constant op index trailing) = 3 + trailing.length := by
  unfold size
  refine if_neg fun h => ?_
  rw [h] at shape
  exact absurd shape (by decide)

/-- Such an instruction is read back with the bytes behind its index, whatever they are. -/
theorem spelled_constant2 (pc : Nat) {op : Opcode} {index : PoolIndex} {trailing : Bytes}
    (shape : op.shape ∈ twoByteShapes) (length : trailing.length = op.shape.trailing) :
    Spelled pc (.constant op index trailing) (Bytes.ofU2 index ++ trailing) := by
  have hshapes : op.shape = .constant2 ∨ op.shape = .invokeInterface ∨ op.shape = .invokeDynamic ∨
      op.shape = .multiArray := by
    simp only [twoByteShapes, List.mem_cons, List.not_mem_nil, or_false] at shape
    exact shape
  have hsplit (tail : Bytes) :
      Bytes.split? op.shape.trailing (trailing ++ tail) = some (trailing, tail) :=
    Bytes.split?_eq_some_iff.mpr ⟨rfl, length⟩
  have hsize := size_constant2 pc shape index trailing
  -- the four shapes differ only in how many bytes trail behind the index
  have hstep (d : Decoder) (rest : Bytes) :
      d.step pc op rest = Decoder.stepConstant op op.shape.trailing rest := by
    unfold Decoder.step
    rcases hshapes with shape | shape | shape | shape <;> simp only [shape]
  refine ⟨?_, ?_, ?_⟩
  · unfold encode encodeConstant
    refine (if_neg fun h => h length).trans ?_
    rcases hshapes with shape | shape | shape | shape <;> simp only [shape, opcode]
  · rw [hsize, List.length_append, Bytes.length_ofU2]
    omega
  · intro d tail
    rw [opcode, hstep, hsize, Bytes.ofU2, List.append_assoc]
    simp only [Decoder.stepConstant, List.cons_append, List.nil_append, hsplit, Bytes.toU2_ofNat,
      length]

theorem length_replicate_padding (pc : Nat) (b : UInt8) :
    (List.replicate (switchPadding pc) b).length = switchPadding pc := List.length_replicate

/-- A table switch has as many offsets as there are numbers between its limits. The bytes that align
its operands are zero. -/
theorem spelled_tableSwitch (pc : Nat) {default_ low high : Int32} {offsets : List Int32}
    (count : high.toInt - low.toInt + 1 = offsets.length) (nonempty : low.toInt ≤ high.toInt) :
    Spelled pc (.tableSwitch default_ low high offsets)
      (List.replicate (switchPadding pc) 0 ++
        ([default_, low, high].flatMap Bytes.ofS4 ++ offsets.flatMap Bytes.ofS4)) := by
  have hhead := length_flatMap_ofS4 [default_, low, high]
  have htable := length_flatMap_ofS4 offsets
  refine ⟨?_, ?_, ?_⟩
  · unfold encode
    exact if_neg fun h => h count
  · unfold size
    simp only [List.length_append, List.length_replicate, hhead, htable, List.length_cons,
      List.length_nil]
    omega
  · intro d tail
    -- the decoder skips the padding without looking at it
    have hdrop : ((List.replicate (switchPadding pc) 0 ++ ([default_, low, high].flatMap Bytes.ofS4
        ++ offsets.flatMap Bytes.ofS4)) ++ tail).drop (switchPadding pc)
        = [default_, low, high].flatMap Bytes.ofS4 ++ (offsets.flatMap Bytes.ofS4 ++ tail) := by
      rw [List.append_assoc, List.drop_left' (length_replicate_padding pc 0), List.append_assoc]
    have hcount : (high.toInt - low.toInt + 1).toNat = offsets.length := by omega
    unfold Decoder.step
    have hread : readS4s? 3 ([default_, low, high].flatMap Bytes.ofS4
        ++ (offsets.flatMap Bytes.ofS4 ++ tail)) = some [default_, low, high] :=
      readS4s?_flatMap [default_, low, high] _
    simp only [opcode, shape_tableswitch, stepTableSwitch, hdrop, hread, ← List.drop_drop]
    rw [if_neg (by omega), List.drop_left' (by rw [hhead]; rfl), hcount, readS4s?_flatMap]

/-- A lookup switch says how many pairs it has. -/
theorem spelled_lookupSwitch (pc : Nat) {default_ : Int32} {pairs : List (Int32 × Int32)}
    (count : pairs.length ≤ 0x7FFFFFFF) :
    Spelled pc (.lookupSwitch default_ pairs)
      (List.replicate (switchPadding pc) 0 ++
        ([default_, Int32.ofNat pairs.length].flatMap Bytes.ofS4 ++ pairs.flatMap pairBytes)) := by
  have hhead := length_flatMap_ofS4 [default_, Int32.ofNat pairs.length]
  have htable := length_flatMap_pairBytes pairs
  refine ⟨?_, ?_, ?_⟩
  · unfold encode
    exact if_neg (by omega)
  · unfold size
    simp only [List.length_append, List.length_replicate, hhead, htable, List.length_cons,
      List.length_nil]
    omega
  · intro d tail
    -- as above, with one number fewer in front
    have hdrop : ((List.replicate (switchPadding pc) 0 ++
        ([default_, Int32.ofNat pairs.length].flatMap Bytes.ofS4 ++ pairs.flatMap pairBytes))
          ++ tail).drop (switchPadding pc)
        = [default_, Int32.ofNat pairs.length].flatMap Bytes.ofS4
          ++ (pairs.flatMap pairBytes ++ tail) := by
      rw [List.append_assoc, List.drop_left' (length_replicate_padding pc 0), List.append_assoc]
    have hcount : (Int32.ofNat pairs.length).toInt = pairs.length :=
      Int32.toInt_ofNat_of_lt (by omega)
    unfold Decoder.step
    have hread : readS4s? 2 ([default_, Int32.ofNat pairs.length].flatMap Bytes.ofS4
        ++ (pairs.flatMap pairBytes ++ tail)) = some [default_, Int32.ofNat pairs.length] :=
      readS4s?_flatMap [default_, Int32.ofNat pairs.length] _
    simp only [opcode, shape_lookupswitch, stepLookupSwitch, hdrop, hread, ← List.drop_drop, hcount]
    rw [if_neg (by omega), List.drop_left' (by rw [hhead]; rfl), Int.toNat_natCast,
      readPairs?_flatMap]

/-- A wide access to a local variable has no amount. -/
theorem spelled_wide (pc : Nat) {op : Opcode} {index : UInt16} (shape : op.shape = .localSlot) :
    Spelled pc (.wide op index 0) (op.byte :: Bytes.ofU2 index) := by
  have hne : op ≠ .iinc := by
    rintro rfl
    rw [shape_iinc] at shape
    cases shape
  have hwideable : op.isWideable = true := by
    rw [Opcode.isWideable, shape]
    simp
  refine ⟨?_, ?_, ?_⟩
  · unfold encode
    simp only [hwideable, if_true, if_neg hne, List.append_nil, opcode]
  · unfold size
    simp only [if_neg hne, List.length_cons, Bytes.length_ofU2]
  · intro d tail
    unfold Decoder.step size
    simp only [opcode, shape_wide, stepWide, List.cons_append, hwideable, Bool.not_true,
      Bool.false_eq_true, if_false, Bytes.ofU2, List.nil_append, if_neg hne]
    -- four bytes may follow by chance; they are looked at for `iinc` only
    rcases tail with _ | ⟨a, _ | ⟨b, tail⟩⟩
    · simp only [Bytes.toU2_ofNat]
    · simp only [Bytes.toU2_ofNat]
    · simp only [Bytes.toU2_ofNat]

/-- The wide form of `iinc`, with two bytes for either operand. -/
theorem spelled_wideIinc (pc : Nat) (index : UInt16) (amount : Int16) :
    Spelled pc (.wide .iinc index amount)
      (Opcode.iinc.byte :: (Bytes.ofU2 index ++ Bytes.ofU2 amount.toUInt16)) := by
  have hwideable : Opcode.iinc.isWideable = true := rfl
  refine ⟨?_, rfl, fun d tail => ?_⟩
  · unfold encode
    simp only [hwideable, if_true, opcode]
  · unfold Decoder.step size
    simp only [opcode, shape_wide, stepWide, List.cons_append, hwideable, Bool.not_true,
      Bool.false_eq_true, if_false, Bytes.ofU2, List.nil_append, if_true, Bytes.toU2_ofNat,
      Int16.toInt16_toUInt16]

/-- **A well-formed instruction can be written at every offset, and is read back there by every
decoder.** -/
theorem WellFormed.spelled {insn : Instruction} (h : insn.WellFormed) (pc : Nat) :
    ∃ rest, insn.Spelled pc rest := by
  cases h with
  | plain shape =>
    refine ⟨[], rfl, rfl, fun d tail => ?_⟩
    unfold Decoder.step size
    simp only [opcode, shape]
  | byte shape low high => exact ⟨_, spelled_byte pc shape low high⟩
  | signedByte shape low high => exact ⟨_, spelled_signedByte pc shape low high⟩
  | short shape low high => exact ⟨_, spelled_short pc shape low high⟩
  | branchWide shape => exact ⟨_, spelled_branchWide pc shape⟩
  | iinc index amount => exact ⟨_, spelled_iinc pc index amount⟩
  | constant1 shape high => exact ⟨_, spelled_constant1 pc shape high⟩
  | constant2 shape length => exact ⟨_, spelled_constant2 pc shape length⟩
  | tableSwitch count nonempty => exact ⟨_, spelled_tableSwitch pc count nonempty⟩
  | lookupSwitch count => exact ⟨_, spelled_lookupSwitch pc count⟩
  | wide shape => exact ⟨_, spelled_wide pc shape⟩
  | wideIinc index amount => exact ⟨_, spelled_wideIinc pc index amount⟩

end Instruction

end ClassPrune
