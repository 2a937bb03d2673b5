import ClassPrune.Code.Listing
import ClassPrune.Proofs.Code.Canonical
import ClassPrune.Proofs.Code.Offsets
import Mathlib.Algebra.GroupWithZero.Nat

/-!
# The layout of a listing

The size of an instruction and its encoding are two descriptions of one layout, and the padding of a
switch ties both to an offset that anyone may have told it before. Neither matters in the end: an
encoding is as long as the size says, and a layout tells every instruction its offset before it
looks at it.

- `Placed.switchPadding_phase`: the padding of a switch that was told any offset, also one below
  zero.
- `Instruction.length_encode`: the encoding of an instruction is as long as its size.
- `WrittenAs.take`, `getElem?_offsetsFrom`: what the first instructions are written as, and where
  the next one stands.
- `Listing.encodeFrom_eq`, `Listing.layOutFrom_eq`: what instructions were told before does not
  matter.
- `Listing.sum_size_layOutFrom`: what they are told by a layout does, when none stands twice.
- `Listing.encode_laidOut`: the offsets of a listing are where its instructions are written.
-/

namespace ClassPrune

/-! ## Padding -/

/-- The padding of a switch depends on the remainder of its offset by four. -/
theorem switchPadding_mod (pc : Nat) : switchPadding (pc % 4) = switchPadding pc := by
  rw [switchPadding, switchPadding, Nat.mod_mod]

/-- The padding at any offset, with remainders that take the sign of what is divided. -/
theorem Placed.switchPadding_phase (p : Placed) :
    (switchPadding p.phase : Int) = (3 - p.offset.tmod 4).tmod 4 := by
  rw [switchPadding, phase, Int.tmod_eq_emod, Int.tmod_eq_emod]
  split_ifs <;> omega

namespace Instruction

variable {pc pc' : Nat} {insn : Instruction}

/-- Only a switch looks at where it stands. -/
theorem size_congr (h : insn.isSwitch = true → switchPadding pc = switchPadding pc') :
    insn.size pc = insn.size pc' := by
  cases insn with
  | tableSwitch | lookupSwitch =>
    unfold size
    rw [h rfl]
  | _ => rfl

/-- An instruction that is not a switch is written alike at all offsets; a switch only depends on
its padding. -/
theorem encode_congr (h : insn.isSwitch = true → switchPadding pc = switchPadding pc') :
    insn.encode pc = insn.encode pc' := by
  cases insn with
  | tableSwitch | lookupSwitch =>
    unfold encode encodeSwitch
    rw [h rfl]
  | _ => rfl

/-- The bytes of a switch: its opcode, its padding, the numbers in front of the table, and the
table. -/
theorem length_encodeSwitch (op : Opcode) (pc : Nat) (head : List Int32) (table : Bytes) :
    (encodeSwitch op pc head table).length
      = 1 + switchPadding pc + 4 * head.length + table.length := by
  rw [encodeSwitch, List.length_cons, List.length_append, List.length_append,
    List.length_replicate, length_flatMap_ofS4]
  omega

/-- **The encoding of an instruction is as long as its size.** -/
theorem length_encode {bytes : Bytes} (h : insn.encode pc = .ok bytes) :
    bytes.length = insn.size pc := by
  by_cases hcanonical : insn.Canonical
  · obtain ⟨rest, hspelled⟩ := (wellFormed_of_encode h hcanonical).spelled pc
    have hbytes := hspelled.encode_eq
    rw [encode_normalized, h] at hbytes
    rw [Except.ok.inj hbytes, List.length_cons, hspelled.length_eq, size_normalized]
  · cases insn with
    | plain op =>
      cases h
      rfl
    | tableSwitch default_ low high offsets =>
      -- a table without offsets
      obtain rfl : offsets = [] := not_not.mp hcanonical
      obtain ⟨-, h⟩ := ite_error_eq_ok.mp h
      cases h
      rw [length_encodeSwitch]
      rfl
    | _ => exact absurd trivial hcanonical

/-- An instruction alone is refused for its operands only. -/
theorem encode_ne_sizeMismatch (pc : Nat) (insn : Instruction) (op : Opcode) (wrote size : Nat) :
    insn.encode pc ≠ .error (.sizeMismatch op wrote size) := by
  intro h
  cases insn with
  | plain op' | iinc index amount => cases h
  | operand op' value =>
    change encodeOperand op' value = _ at h
    unfold encodeOperand at h
    cases hshape : op'.shape with
    | localSlot | arrayType | signedByte | signedShort | branch =>
      simp only [hshape] at h
      split at h <;> cases h
    | _ =>
      simp only [hshape] at h
      cases h
  | constant op' index trailing =>
    change encodeConstant op' index trailing = _ at h
    unfold encodeConstant at h
    split at h
    · cases h
    · cases hshape : op'.shape with
      | constant1 =>
        simp only [hshape] at h
        split at h <;> cases h
      | _ =>
        simp only [hshape] at h
        cases h
  | tableSwitch | lookupSwitch | wide =>
    unfold encode at h
    dsimp only at h
    split at h <;> cases h

end Instruction

/-! ## Lists of instructions -/

/-- Instructions are never found to be longer or shorter than their size. -/
theorem encodeFrom_ne_sizeMismatch (n m : Nat) (insns : List Instruction) (ordinal pc : Nat)
    (op : Opcode) (wrote size : Nat) :
    encodeFrom n m insns ≠ .error ⟨ordinal, pc, .sizeMismatch op wrote size⟩ := by
  intro h
  induction insns generalizing n m with
  | nil => cases h
  | cons insn insns ih =>
    rw [encodeFrom] at h
    cases hencode : insn.encode m with
    | error cause =>
      rw [hencode] at h
      cases h
      exact insn.encode_ne_sizeMismatch _ op wrote size hencode
    | ok bytes =>
      have hsize : ¬bytes.length ≠ insn.size m := not_not.mpr (Instruction.length_encode hencode)
      rw [hencode] at h
      dsimp only at h
      rw [if_neg hsize] at h
      cases hrest : encodeFrom (n + 1) (m + bytes.length) insns with
      | error e =>
        rw [hrest] at h
        cases h
        exact ih _ _ hrest
      | ok rest =>
        rw [hrest] at h
        cases h

theorem WrittenAs.length_eq {pc : Nat} {insns : List Instruction} {bytes : Bytes}
    (h : WrittenAs pc insns bytes) : bytes.length = span pc insns := by
  induction h with
  | nil pc => rfl
  | cons head length _ ih => rw [List.length_append, length, ih, span]

/-- The first instructions are written as the first bytes. -/
theorem WrittenAs.take {pc : Nat} {insns : List Instruction} {bytes : Bytes}
    (h : WrittenAs pc insns bytes) (i : Nat) :
    ∃ front, WrittenAs pc (insns.take i) front ∧ front <+: bytes := by
  induction h generalizing i with
  | nil pc =>
    rw [List.take_nil]
    exact ⟨[], .nil pc, List.nil_prefix⟩
  | @cons pc insn insns own back head length _ ih =>
    cases i with
    | zero => exact ⟨[], .nil pc, List.nil_prefix⟩
    | succ i =>
      obtain ⟨front, hfront, hprefix⟩ := ih i
      exact ⟨own ++ front, .cons head length hfront, (List.prefix_append_right_inj own).mpr hprefix⟩

/-- An instruction stands behind all those in front of it. -/
theorem getElem?_offsetsFrom (pc : Nat) {insns : List Instruction} {i : Nat}
    (hi : i < insns.length) :
    (offsetsFrom pc insns)[i]? = some (pc + span pc (insns.take i)) := by
  induction insns generalizing pc i with
  | nil => cases hi
  | cons insn insns ih =>
    cases i with
    | zero => rfl
    | succ i =>
      rw [offsetsFrom, List.getElem?_cons_succ, ih _ (Nat.lt_of_succ_lt_succ hi),
        List.take_succ_cons, span, Nat.add_assoc]

/-! ## Being told -/

namespace Placed

theorem insn_told (p : Placed) (offset : Int) : (p.told offset).insn = p.insn := by
  rw [told]
  split <;> rfl

/-- A switch that was just told an offset is padded for it. -/
theorem switchPadding_told (p : Placed) (pc : Nat) (h : p.insn.isSwitch = true) :
    switchPadding (p.told pc).phase = switchPadding pc := by
  rw [told, if_pos h, phase, ← switchPadding_mod pc]
  rfl

/-- The size of an instruction that was told its offset is its size at that offset. -/
theorem size_told (p : Placed) (pc : Nat) : (p.told pc).size = p.insn.size pc := by
  rw [size, insn_told]
  exact Instruction.size_congr (p.switchPadding_told pc)

/-- So is its encoding. What it was told before is forgotten. -/
theorem encode_told (p : Placed) (pc : Nat) : (p.told pc).encode = p.insn.encode pc := by
  rw [encode, insn_told]
  exact Instruction.encode_congr (p.switchPadding_told pc)

end Placed

namespace Listing

theorem tell_self (l : Listing) (id : InstructionId) (offset : Int) :
    l.tell id offset id = (l id).told offset := if_pos rfl

theorem tell_of_ne (l : Listing) {id other : InstructionId} (h : other ≠ id) (offset : Int) :
    l.tell id offset other = l other := if_neg h

/-- Being told an offset does not change what an instruction is. -/
theorem insn_tell (l : Listing) (id : InstructionId) (offset : Int) (other : InstructionId) :
    (l.tell id offset other).insn = (l other).insn := by
  by_cases h : other = id
  · rw [h, tell_self, Placed.insn_told]
  · rw [tell_of_ne l h]

@[simp] theorem insns_tell (l : Listing) (id : InstructionId) (offset : Int)
    (ids : List InstructionId) : (l.tell id offset).insns ids = l.insns ids :=
  List.map_congr_left fun other _ => insn_tell l id offset other

/-- No call changes an instruction, only what it was told. -/
theorem insns_tellAll (l : Listing) (calls : List (InstructionId × Int))
    (ids : List InstructionId) : (l.tellAll calls).insns ids = l.insns ids := by
  induction calls generalizing l with
  | nil => rfl
  | cons call calls ih => exact (ih _).trans (insns_tell l call.1 call.2 ids)

/-! ## Whole listings -/

/-- **A listing is written as its instructions are**, whatever they were told before. -/
theorem encodeFrom_eq (l : Listing) (ordinal pc : Nat) (ids : List InstructionId) :
    (l.encodeFrom ordinal pc ids).2 = ClassPrune.encodeFrom ordinal pc (l.insns ids) := by
  induction ids generalizing l ordinal pc with
  | nil => rfl
  | cons id ids ih =>
    rw [insns, List.map_cons, ClassPrune.encodeFrom, encodeFrom]
    dsimp only
    rw [tell_self, Placed.encode_told, Placed.size_told, Placed.insn_told]
    cases (l id).insn.encode pc with
    | error cause => rfl
    | ok bytes =>
      dsimp only
      split
      · rfl
      · rw [ih, insns_tell]
        rfl

/-- **A listing is laid out as its instructions are**, whatever they were told before. -/
theorem layOutFrom_eq (l : Listing) (pc : Nat) (ids : List InstructionId) :
    (l.layOutFrom pc ids).2 = offsetsFrom pc (l.insns ids) := by
  induction ids generalizing l pc with
  | nil => rfl
  | cons id ids ih =>
    rw [layOutFrom, insns, List.map_cons, offsetsFrom]
    dsimp only
    rw [ih, tell_self, Placed.size_told, insns_tell]
    rfl

/-- A layout tells nothing to an instruction that is not in it. -/
theorem layOutFrom_of_not_mem (l : Listing) (pc : Nat) {ids : List InstructionId}
    {other : InstructionId} (h : other ∉ ids) : (l.layOutFrom pc ids).1 other = l other := by
  induction ids generalizing l pc with
  | nil => rfl
  | cons id ids ih =>
    rw [List.mem_cons, not_or] at h
    exact (ih _ _ h.2).trans (tell_of_ne l h.1 pc)

/-- Instructions of which none stands twice end up with the offsets of the layout. -/
theorem sum_size_layOutFrom (l : Listing) (pc : Nat) {ids : List InstructionId}
    (hnodup : ids.Nodup) :
    (ids.map fun id => ((l.layOutFrom pc ids).1 id).size).sum = span pc (l.insns ids) := by
  induction ids generalizing l pc with
  | nil => rfl
  | cons id ids ih =>
    obtain ⟨hnotin, hnodup⟩ := List.nodup_cons.mp hnodup
    have hrest := ih (l.tell id pc) (pc + (l id).insn.size pc) hnodup
    rw [insns_tell] at hrest
    -- the rest of the layout leaves the first instruction alone
    have hfirst : ((l.tell id pc).layOutFrom (pc + (l id).insn.size pc) ids).1 id
        = (l id).told pc := by
      rw [layOutFrom_of_not_mem _ _ hnotin, tell_self]
    rw [layOutFrom, insns, List.map_cons, List.map_cons, List.sum_cons, span]
    dsimp only
    rw [tell_self, Placed.size_told, hfirst, Placed.size_told, hrest]
    rfl

/-- **The offsets of a listing are where its instructions are written.** When the instructions are
written and none stands twice, the first ones are written as the bytes up to the next one's offset,
and afterwards the sizes add up to all bytes. What instructions were told before does not matter,
and none is ever found to be longer or shorter than its size. -/
theorem encode_laidOut (l : Listing) (ids : List InstructionId) :
    (∀ out, ids.Nodup → (l.encode ids).2 = .ok out →
      (∀ i < ids.length, ∃ front, (l.encode (ids.take i)).2 = .ok front ∧ front <+: out ∧
        (l.layOut ids).2[i]? = some front.length) ∧
      (ids.map fun id => ((l.layOut ids).1 id).size).sum = out.length) ∧
    (∀ calls, ((l.tellAll calls).layOut ids).2 = (l.layOut ids).2 ∧
      ((l.tellAll calls).encode ids).2 = (l.encode ids).2) ∧
    ∀ ordinal pc op wrote size,
      (l.encode ids).2 ≠ .error ⟨ordinal, pc, .sizeMismatch op wrote size⟩ := by
  refine ⟨fun out hnodup hencode => ?_, fun calls => ?_, fun ordinal pc op wrote size => ?_⟩
  · rw [encode, encodeFrom_eq, encodeFrom_eq_ok] at hencode
    refine ⟨fun i hi => ?_, ?_⟩
    · obtain ⟨front, hfront, hprefix⟩ := hencode.take i
      refine ⟨front, ?_, hprefix, ?_⟩
      · rw [encode, encodeFrom_eq, encodeFrom_eq_ok, insns, List.map_take]
        exact hfront
      · rw [layOut, layOutFrom_eq, getElem?_offsetsFrom 0 (by rwa [insns, List.length_map]),
          hfront.length_eq, Nat.zero_add]
    · rw [hencode.length_eq]
      exact l.sum_size_layOutFrom 0 hnodup
  · simp only [layOut, encode, layOutFrom_eq, encodeFrom_eq, insns_tellAll, and_self]
  · rw [encode, encodeFrom_eq]
    exact encodeFrom_ne_sizeMismatch 0 0 _ ordinal pc op wrote size

/-- An opcode without operands and two switches, which were told offsets that they do not stand
at. -/
def staleListing : Listing
  | 0 => ⟨.plain .aload0, 0⟩
  | 1 => ⟨.lookupSwitch 12 [(1, 2)], -7⟩
  | _ => ⟨.tableSwitch 4 0 0 [9], 3⟩

/-- What the three are written as. -/
def staleCode : Bytes :=
  [0x2A, 0xAB, 0x00, 0x00, 0x00, 0x00, 0x00, 0x0C, 0x00, 0x00, 0x00, 0x01, 0x00, 0x00, 0x00, 0x01,
    0x00, 0x00, 0x00, 0x02, 0xAA, 0x00, 0x00, 0x00, 0x00, 0x00, 0x00, 0x04, 0x00, 0x00, 0x00, 0x00,
    0x00, 0x00, 0x00, 0x00, 0x00, 0x00, 0x00, 0x09]

theorem encode_laidOut_staleListing :
    (staleListing.layOut [0, 1, 2]).2 = [0, 1, 20] ∧
    (staleListing.encode [0, 1, 2]).2 = .ok staleCode ∧
    (∀ i < 3, ∃ front, (staleListing.encode ([0, 1, 2].take i)).2 = .ok front ∧
      front <+: staleCode ∧ (staleListing.layOut [0, 1, 2]).2[i]? = some front.length) ∧
    ([0, 1, 2].map fun id => ((staleListing.layOut [0, 1, 2]).1 id).size).sum = staleCode.length :=
  have h : (staleListing.encode [0, 1, 2]).2 = .ok staleCode := by decide +kernel
  ⟨by decide +kernel, h, (encode_laidOut staleListing [0, 1, 2]).1 staleCode (by decide) h⟩

/-- A switch that stands twice has the size of where it stood last, so the sizes miss a byte. -/
example : (staleListing.encode [1, 0, 1]).2.toOption.map List.length = some 40 ∧
    ([1, 0, 1].map fun id => ((staleListing.layOut [1, 0, 1]).1 id).size).sum = 39 := by
  decide +kernel

end Listing

end ClassPrune
