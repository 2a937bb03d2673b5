import ClassPrune.Proofs.Code.Standard

/-!
# Code written from what it decodes to

Decoded code is written as the bytes that it was read from, with two exceptions: what stands
between a switch opcode and its operands becomes zero, and a reserved instruction becomes its
standard form.

- `WrittenAs`: instructions and the bytes that they are written as, from some offset on.
- `Decoder.standardBytes`: the standard form of a reserved instruction, in bytes.
- `Decoder.located`, `Decoder.IsPadding`, `Decoder.IsReserved`: the bytes of a code array that the
  exceptions are about.
- `Decoder.Respells`: what becomes of the bytes of one step (`Decoder.step_respells`).
- `Decoder.Retraced`: every step has a window of its size in both arrays, at the same place
  (`Decoder.Runs.retraced`), and no byte is outside of the windows (`Decoder.Runs.covered`).
- `Decoder.encodeCode_of_decode`: from the windows, the comparison byte by byte.
-/

namespace ClassPrune

open Opcode (switchShapes)

/-! ## Writing instructions one after the other -/

/-- The instructions are written as the bytes, the first of them standing at `pc`. -/
inductive WrittenAs : (pc : Nat) → List Instruction → Bytes → Prop
  | nil (pc : Nat) : WrittenAs pc [] []
  | cons {pc : Nat} {insn : Instruction} {insns : List Instruction} {front back : Bytes}
    (head : insn.encode pc = .ok front) (length : front.length = insn.size pc)
    (tail : WrittenAs (pc + insn.size pc) insns back) :
    WrittenAs pc (insn :: insns) (front ++ back)

/-- How an instruction is written does not depend on its number. -/
theorem encodeFrom_eq_ok {ordinal pc : Nat} {insns : List Instruction} {bytes : Bytes} :
    encodeFrom ordinal pc insns = .ok bytes ↔ WrittenAs pc insns bytes := by
  constructor
  · intro h
    induction insns generalizing ordinal pc bytes with
    | nil =>
      cases h
      exact .nil pc
    | cons insn insns ih =>
      rw [encodeFrom] at h
      split at h
      · cases h
      · rename_i front hfront
        obtain ⟨hlength, h⟩ := ite_error_eq_ok.mp h
        obtain ⟨back, hback, rfl⟩ := map_eq_ok.mp h
        have hlength : front.length = insn.size pc := not_not.mp hlength
        rw [hlength] at hback
        exact .cons hfront hlength (ih hback)
  · intro h
    induction h generalizing ordinal with
    | nil pc => rfl
    | cons head length _ ih =>
      rw [encodeFrom, head]
      simp only
      rw [if_neg fun hne => hne length, length, ih]
      rfl

namespace WrittenAs

theorem single {pc : Nat} {insn : Instruction} {bytes : Bytes} (h : insn.encode pc = .ok bytes)
    (hlength : bytes.length = insn.size pc) : WrittenAs pc [insn] bytes := by
  have hwritten := WrittenAs.cons h hlength (.nil _)
  rw [List.append_nil] at hwritten
  exact hwritten

/-- One opcode, repeated. -/
theorem replicate_plain (pc n : Nat) (op : Opcode) :
    WrittenAs pc (List.replicate n (.plain op)) (List.replicate n op.byte) := by
  induction n generalizing pc with
  | zero => exact .nil pc
  | succ n ih =>
    have hencode : (Instruction.plain op).encode pc = .ok [op.byte] := rfl
    exact .cons hencode rfl (ih (pc + 1))

/-- Instructions that are written at an offset, and more that are written at their end. -/
theorem append {pc : Nat} {xs ys : List Instruction} {front back : Bytes}
    (hxs : WrittenAs pc xs front) (hys : WrittenAs (pc + front.length) ys back) :
    WrittenAs pc (xs ++ ys) (front ++ back) := by
  induction hxs with
  | nil pc => exact hys
  | cons head length _ ih =>
    rw [List.length_append, length, ← Nat.add_assoc] at hys
    rw [List.append_assoc]
    exact .cons head length (ih hys)

end WrittenAs

/-! ## Which bytes are written differently -/

/-- The steps, each with the offset at which it starts; the first starts at `pc`. -/
def locate : (pc : Nat) → List Step → List (Nat × Step)
  | _, [] => []
  | pc, s :: steps => (pc, s) :: locate (pc + s.size) steps

namespace Decoder

variable {d : Decoder}

/-- The bytes that stand for a reserved instruction, given its operand bytes: two `nop` for a
breakpoint and its operand, `aload_0`, a load of the constant with the ordinal that the operand
gives, `return`, and one `nop`. The first row that has the opcode counts. -/
def standardBytes (d : Decoder) (op : Opcode) (operands : Bytes) : Option Bytes :=
  if op = d.profile.breakpoint then some [0x00, 0x00]
  else if op = d.profile.fastAload0 then some [0x2A]
  else if op = d.profile.fastAldc then
    match operands with
    | [ordinal] =>
      (d.remap (UInt16.ofNat ordinal.toNat) false).toOption.bind fun index =>
        if index.toNat ≤ 255 then some [0x12, UInt8.ofNat index.toNat] else none
    | _ => none
  else if op = d.profile.fastAldcW then
    match operands with
    | [high, low] =>
      (d.remap (Bytes.toU2 high low) true).toOption.map fun index => 0x13 :: Bytes.ofU2 index
    | _ => none
  else if op = d.profile.returnRegisterFinalizer then some [0xB1]
  else if op = d.profile.shouldNotReachHere then some [0x00]
  else none

/-- The instructions of a code array, each with the offset at which it starts. -/
def located (d : Decoder) (code : Bytes) : List (Nat × Step) := locate 0 (d.run code).1

/-- Byte `i` stands between the opcode of a switch and its operands. -/
def IsPadding (d : Decoder) (code : Bytes) (i : Nat) : Prop :=
  ∃ pc s op, (pc, s) ∈ d.located code ∧ code[pc]? = some (Opcode.byte op) ∧
    op.shape ∈ switchShapes ∧ pc < i ∧ i ≤ pc + switchPadding pc

/-- Byte `i` belongs to a reserved instruction. -/
def IsReserved (d : Decoder) (code : Bytes) (i : Nat) : Prop :=
  ∃ pc s op, (pc, s) ∈ d.located code ∧ code[pc]? = some (Opcode.byte op) ∧
    op.shape = .reserved ∧ pc ≤ i ∧ i < pc + s.size

/-- The second array is as long as the code and equal to it in every byte, but for these: what
pads a switch is zero, and a reserved instruction stands in its standard form. -/
structure Reencoded (d : Decoder) (code out : Bytes) : Prop where
  length_eq : out.length = code.length
  padding : ∀ i, d.IsPadding code i → out[i]? = some 0
  reserved : ∀ pc s op, (pc, s) ∈ d.located code → code[pc]? = some (Opcode.byte op) →
    op.shape = .reserved →
    d.standardBytes op ((code.drop (pc + 1)).take (s.size - 1)) = some ((out.drop pc).take s.size)
  elsewhere : ∀ i, ¬d.IsPadding code i → ¬d.IsReserved code i → out[i]? = code[i]?

/-- What becomes of an opcode at `pc` and its operands: in a standard instruction what aligns the
operands is cleared, a reserved one is replaced. -/
inductive Respells (d : Decoder) (pc : Nat) (op : Opcode) (operands : Bytes) : Bytes → Prop
  | cleared (shape : op.shape ≠ .reserved)
    (padding_le : op.shape ∈ switchShapes → switchPadding pc ≤ operands.length) :
    Respells d pc op operands (op.byte :: op.cleared pc operands)
  | replaced {written : Bytes} (shape : op.shape = .reserved)
    (standard : d.standardBytes op operands = some written) : Respells d pc op operands written

/-! ## One step -/

/-- The bytes that stand for a reserved instruction are written for its standard instructions. -/
theorem standardForm_written {pc size : Nat} {op replacement : Opcode} {rest : Bytes}
    {insns : List Instruction} (hform : d.profile.standardForm? op = some (replacement, size))
    (h : d.standardForm replacement size (rest.take 2) = .ok insns) :
    ∃ written, WrittenAs pc insns written ∧ written.length = size ∧
      d.standardBytes op (rest.take (size - 1)) = some written := by
  have hplain (hldc : replacement ≠ .ldc) (hldcW : replacement ≠ .ldcW)
      (hbytes : d.standardBytes op (rest.take (size - 1))
        = some (List.replicate size replacement.byte)) :
      ∃ written, WrittenAs pc insns written ∧ written.length = size ∧
        d.standardBytes op (rest.take (size - 1)) = some written := by
    rw [standardForm_plain hldc hldcW h]
    exact ⟨_, .replicate_plain pc size replacement, List.length_replicate, hbytes⟩
  unfold Profile.standardForm? at hform
  -- one case for every row of the profile
  split_ifs at hform with h₁ h₂ h₃ h₄ h₅ h₆ <;> cases hform
  · exact hplain (by decide) (by decide) (by simp only [standardBytes, if_pos h₁]; rfl)
  · exact hplain (by decide) (by decide) (by simp only [standardBytes, if_neg h₁, if_pos h₂]; rfl)
  · obtain ⟨a, more, index, rfl, hremap, hindex, rfl⟩ := standardForm_ldc h
    have hspelled := Instruction.spelled_constant1 pc Instruction.shape_ldc hindex
    refine ⟨_, .single hspelled.encode_eq hspelled.length_eq, rfl, ?_⟩
    rw [show (a :: more).take (2 - 1) = [a] from rfl]
    simp only [standardBytes, if_neg h₁, if_neg h₂, if_pos h₃, hremap, Except.toOption,
      Option.bind_some, if_pos hindex]
    rfl
  · obtain ⟨a, b, more, index, rfl, hremap, rfl⟩ := standardForm_ldcW h
    have hspelled : Instruction.Spelled pc (.constant .ldcW index []) _ :=
      Instruction.spelled_constant2 pc (by rw [Instruction.shape_ldcW]; decide)
        (by rw [Instruction.shape_ldcW]; rfl)
    refine ⟨_, .single hspelled.encode_eq hspelled.length_eq, rfl, ?_⟩
    rw [show (a :: b :: more).take (3 - 1) = [a, b] from rfl]
    simp only [standardBytes, if_neg h₁, if_neg h₂, if_neg h₃, if_pos h₄, hremap, Except.toOption,
      Option.map_some]
    rfl
  · exact hplain (by decide) (by decide)
      (by simp only [standardBytes, if_neg h₁, if_neg h₂, if_neg h₃, if_neg h₄, if_pos h₅]; rfl)
  · exact hplain (by decide) (by decide) (by
      simp only [standardBytes, if_neg h₁, if_neg h₂, if_neg h₃, if_neg h₄, if_neg h₅, if_pos h₆]
      rfl)

/-- **A step gives instructions that are written in its place.** -/
theorem step_respells {pc : Nat} {op : Opcode} {rest : Bytes} {s : Step}
    (h : d.step pc op rest = .ok s) :
    ∃ written, WrittenAs pc s.insns written ∧ written.length = s.size ∧
      d.Respells pc op (rest.take (s.size - 1)) written := by
  by_cases hshape : op.shape = .reserved
  · obtain ⟨replacement, size, insns, hform, hinsns, rfl⟩ :=
      stepReserved_eq_ok (step_of_reserved hshape h)
    obtain ⟨written, hwritten, hlength, hbytes⟩ := standardForm_written hform hinsns
    exact ⟨written, hwritten, hlength, .replaced hshape hbytes⟩
  · obtain ⟨insn, operands, more, rfl, rfl, hread⟩ := step_takenFrom hshape h
    have hlength := hread.length_cleared
    refine ⟨op.byte :: op.cleared pc operands, .single hread.encode_eq ?_, ?_, ?_⟩
    · rw [List.length_cons, hlength, hread.size_eq]
    · rw [List.length_cons, hlength]
    · rw [Nat.add_sub_cancel, List.take_left]
      exact .cleared hshape hread.padding_le

/-! ## Whole arrays -/

/-- The second array has the bytes of every step in the same place as the code. -/
structure Retraced (d : Decoder) (pc : Nat) (code : Bytes) (steps : List Step) (out : Bytes) :
    Prop where
  length_eq : out.length = code.length
  window : ∀ k s, (pc + k, s) ∈ locate pc steps → ∃ op rest, code.drop k = Opcode.byte op :: rest ∧
    d.step (pc + k) op rest = .ok s ∧
    d.Respells (pc + k) op (rest.take (s.size - 1)) ((out.drop k).take s.size)

end Decoder

theorem le_of_mem_locate {pc start : Nat} {steps : List Step} {s : Step}
    (h : (start, s) ∈ locate pc steps) : pc ≤ start := by
  induction steps generalizing pc with
  | nil => cases h
  | cons t steps ih =>
    rcases List.mem_cons.mp h with heq | hmem
    · cases heq
      exact Nat.le_refl _
    · exact Nat.le_of_add_right_le (ih hmem)

namespace Decoder

/-- The instructions of a run are written, and every step has its bytes in its place. -/
theorem Runs.retraced {pc : Nat} {code : Bytes} {steps : List Step} (h : Runs d pc code steps) :
    ∃ out, WrittenAs pc (steps.flatMap Step.insns) out ∧ d.Retraced pc code steps out := by
  induction h with
  | nil pc => exact ⟨[], .nil pc, rfl, fun k s hmem => nomatch hmem⟩
  | @cons pc byte rest s steps hstep _ ih =>
    obtain ⟨back, hback, hlength, hwindow⟩ := ih
    obtain ⟨front, hfront, hsize, hrespells⟩ := step_respells hstep
    obtain ⟨-, -, hpos, hle⟩ := (step_sound hstep).1
    rw [← hsize] at hback
    rw [List.length_drop] at hlength
    refine ⟨front ++ back, hfront.append hback, ?_, ?_⟩
    · rw [List.length_append, List.length_cons]
      omega
    intro k t hmem
    rcases List.mem_cons.mp hmem with heq | hmem
    · obtain ⟨hk, rfl⟩ := Prod.mk.inj heq
      obtain rfl : k = 0 := by omega
      refine ⟨⟨byte⟩, rest, rfl, hstep, ?_⟩
      rw [List.drop_zero, ← hsize, List.take_left, hsize]
      exact hrespells
    · -- the windows behind the first one are those of the run behind the first step
      obtain ⟨j, rfl⟩ : ∃ j, k = s.size + j := ⟨k - s.size, by have := le_of_mem_locate hmem; omega⟩
      rw [← Nat.add_assoc] at hmem ⊢
      obtain ⟨op, rest', hdrop, hstep', hrespells'⟩ := hwindow j t hmem
      refine ⟨op, rest', ?_, hstep', ?_⟩
      · rw [← hdrop, List.drop_drop, show s.size + j = (s.size - 1 + j) + 1 by omega,
          List.drop_succ_cons]
      · rw [← List.drop_drop, List.drop_left' hsize]
        exact hrespells'

/-- Every byte belongs to a step. -/
theorem Runs.covered {pc : Nat} {code : Bytes} {steps : List Step} (h : Runs d pc code steps)
    {i : Nat} (hi : i < code.length) :
    ∃ k s, (pc + k, s) ∈ locate pc steps ∧ k ≤ i ∧ i < k + s.size := by
  induction h generalizing i with
  | nil pc => cases hi
  | @cons pc byte rest s steps hstep _ ih =>
    have hpos := (step_sound hstep).1.size_pos
    rw [List.length_cons] at hi
    by_cases hfirst : i < s.size
    · exact ⟨0, s, List.mem_cons_self, Nat.zero_le _, by omega⟩
    · obtain ⟨k, t, hmem, hle, hlt⟩ := ih (i := i - s.size) (by rw [List.length_drop]; omega)
      refine ⟨s.size + k, t, ?_, by omega, by omega⟩
      rw [← Nat.add_assoc]
      exact List.mem_cons_of_mem _ hmem

end Decoder

theorem mem_locate {pc : Nat} {steps : List Step} {s : Step} :
    (∃ start, (start, s) ∈ locate pc steps) ↔ s ∈ steps := by
  induction steps generalizing pc with
  | nil => simp [locate]
  | cons t steps ih =>
    have ih := @ih (pc + t.size)
    rw [List.mem_cons, ← ih]
    constructor
    · rintro ⟨start, hmem⟩
      rcases List.mem_cons.mp hmem with heq | hmem
      · exact .inl (Prod.mk.inj heq).2
      · exact .inr ⟨start, hmem⟩
    · rintro (rfl | ⟨start, hmem⟩)
      · exact ⟨pc, List.mem_cons_self⟩
      · exact ⟨start, List.mem_cons_of_mem _ hmem⟩

/-! ## Byte by byte -/

/-- A byte inside of a window of an array, counted from the start of the window. -/
theorem getElem?_window {bytes : Bytes} {k n i : Nat} (hle : k ≤ i) (hlt : i < k + n) :
    bytes[i]? = ((bytes.drop k).take n)[i - k]? := by
  rw [List.getElem?_take_of_lt (by omega), List.getElem?_drop, Nat.add_sub_cancel' hle]

theorem getElem?_of_window {bytes more : Bytes} {byte : UInt8} {k n : Nat}
    (h : (bytes.drop k).take n = byte :: more) : bytes[k]? = some byte := by
  rw [← List.head?_drop, ← List.take_append_drop n (bytes.drop k), h]
  rfl

theorem Opcode.byte_inj {op op' : Opcode} (h : op.byte = op'.byte) : op = op' := by
  obtain ⟨byte⟩ := op
  obtain ⟨byte'⟩ := op'
  exact congrArg Opcode.mk h

theorem Opcode.cleared_getElem?_lt {op : Opcode} {pc j : Nat} {operands : Bytes}
    (hswitch : op.shape ∈ switchShapes) (hj : j < switchPadding pc) :
    (op.cleared pc operands)[j]? = some 0 := by
  rw [cleared, if_pos hswitch, List.getElem?_append_left (by rw [List.length_replicate]; exact hj),
    List.getElem?_replicate, if_pos hj]

theorem Opcode.cleared_getElem?_ge {op : Opcode} {pc j : Nat} {operands : Bytes}
    (hj : op.shape ∈ switchShapes → switchPadding pc ≤ j) :
    (op.cleared pc operands)[j]? = operands[j]? := by
  rw [cleared]
  split
  · rename_i hswitch
    have hj := hj hswitch
    rw [List.getElem?_append_right (by rw [List.length_replicate]; exact hj), List.length_replicate,
      List.getElem?_drop, Nat.add_sub_cancel' hj]
  · rfl

namespace Decoder

variable {d : Decoder}

/-- The opcode at the front of a standard form is a standard one. -/
theorem shape_of_standardBytes {op : Opcode} {operands written : Bytes}
    (h : d.standardBytes op operands = some written) :
    ∃ front more, written = Opcode.byte front :: more ∧ front.shape ≠ .reserved := by
  unfold standardBytes at h
  split_ifs at h
  · cases h
    exact ⟨.nop, _, rfl, by decide +kernel⟩
  · cases h
    exact ⟨.aload0, _, rfl, by decide +kernel⟩
  · split at h
    · obtain ⟨index, -, h⟩ := Option.bind_eq_some_iff.mp h
      obtain ⟨-, h⟩ := Option.ite_none_right_eq_some.mp h
      cases h
      exact ⟨.ldc, _, rfl, by decide +kernel⟩
    · cases h
  · split at h
    · obtain ⟨index, -, rfl⟩ := Option.map_eq_some_iff.mp h
      exact ⟨.ldcW, _, rfl, by decide +kernel⟩
    · cases h
  · cases h
    exact ⟨.return_, _, rfl, by decide +kernel⟩
  · cases h
    exact ⟨.nop, _, rfl, by decide +kernel⟩

theorem located_of_runs {code : Bytes} {steps : List Step} (h : Runs d 0 code steps) :
    d.located code = locate 0 steps := by
  rw [located, run_eq_iff.mpr h]

namespace Retraced

variable {code out : Bytes} {steps : List Step}

/-- The bytes of the step at a known opcode. -/
theorem respells_at (h : d.Retraced 0 code steps out) {pc : Nat} {s : Step} {op : Opcode}
    (hmem : (pc, s) ∈ locate 0 steps) (hop : code[pc]? = some op.byte) :
    (s.substitution = none ↔ op.shape ≠ .reserved) ∧
      d.Respells pc op ((code.drop (pc + 1)).take (s.size - 1)) ((out.drop pc).take s.size) := by
  obtain ⟨op', rest, hdrop, hstep, hrespells⟩ := h.window pc s (by rw [Nat.zero_add]; exact hmem)
  rw [Nat.zero_add] at hstep hrespells
  have hbyte : code[pc]? = some op'.byte := by
    rw [← List.head?_drop, hdrop]
    rfl
  rw [hop] at hbyte
  obtain rfl : op = op' := Opcode.byte_inj (Option.some.inj hbyte)
  have hrest : code.drop (pc + 1) = rest := by
    rw [← List.tail_drop, hdrop]
    rfl
  rw [hrest]
  exact ⟨(step_sound hstep).2, hrespells⟩

/-- A standard instruction is written as its opcode and its operands, what aligns them cleared. -/
theorem window_of_standard (h : d.Retraced 0 code steps out) {pc : Nat} {s : Step} {op : Opcode}
    (hmem : (pc, s) ∈ locate 0 steps) (hop : code[pc]? = some op.byte)
    (hshape : op.shape ≠ .reserved) :
    (out.drop pc).take s.size
        = op.byte :: op.cleared pc ((code.drop (pc + 1)).take (s.size - 1)) ∧
      (op.shape ∈ switchShapes → switchPadding pc < s.size) := by
  obtain ⟨-, hrespells⟩ := h.respells_at hmem hop
  generalize hout : (out.drop pc).take s.size = written at hrespells
  cases hrespells with
  | cleared _ padding_le =>
    refine ⟨rfl, fun hswitch => ?_⟩
    have hlength := congrArg List.length hout
    have hle := padding_le hswitch
    rw [List.length_take] at hle hlength
    rw [List.length_cons] at hlength
    omega
  | replaced hreserved => exact absurd hreserved hshape

/-- A reserved instruction is written in standard form. -/
theorem standardBytes_of_reserved (h : d.Retraced 0 code steps out) {pc : Nat} {s : Step}
    {op : Opcode} (hmem : (pc, s) ∈ locate 0 steps) (hop : code[pc]? = some op.byte)
    (hshape : op.shape = .reserved) :
    d.standardBytes op ((code.drop (pc + 1)).take (s.size - 1))
      = some ((out.drop pc).take s.size) := by
  obtain ⟨-, hrespells⟩ := h.respells_at hmem hop
  generalize (out.drop pc).take s.size = written at hrespells ⊢
  cases hrespells with
  | cleared hstandard => exact absurd hshape hstandard
  | replaced _ standard => exact standard

/-- What follows a switch opcode is written as zeros. -/
theorem padding_eq (h : d.Retraced 0 code steps out) {pc i : Nat} {s : Step} {op : Opcode}
    (hmem : (pc, s) ∈ locate 0 steps) (hop : code[pc]? = some op.byte)
    (hswitch : op.shape ∈ switchShapes) (hlt : pc < i) (hle : i ≤ pc + switchPadding pc) :
    out[i]? = some 0 := by
  have hstandard : op.shape ≠ .reserved := by
    intro hreserved
    rw [hreserved] at hswitch
    exact absurd hswitch (by decide)
  obtain ⟨hwindow, hpadding⟩ := h.window_of_standard hmem hop hstandard
  have hpadding := hpadding hswitch
  rw [getElem?_window (Nat.le_of_lt hlt) (show i < pc + s.size by omega), hwindow,
    show i - pc = (i - pc - 1) + 1 by omega, List.getElem?_cons_succ]
  exact Opcode.cleared_getElem?_lt hswitch (by omega)

/-- The other bytes of a standard instruction are written as they are. -/
theorem elsewhere_eq (h : d.Retraced 0 code steps out) {pc i : Nat} {s : Step} {op : Opcode}
    (hmem : (pc, s) ∈ locate 0 steps) (hop : code[pc]? = some op.byte)
    (hshape : op.shape ≠ .reserved) (hle : pc ≤ i) (hlt : i < pc + s.size)
    (hpadding : op.shape ∈ switchShapes → pc < i → pc + switchPadding pc < i) :
    out[i]? = code[i]? := by
  obtain ⟨hwindow, -⟩ := h.window_of_standard hmem hop hshape
  rw [getElem?_window hle hlt, hwindow]
  rcases Nat.eq_or_lt_of_le hle with rfl | hlt'
  · rw [Nat.sub_self, hop]
    rfl
  · rw [show i - pc = (i - (pc + 1)) + 1 by omega, List.getElem?_cons_succ,
      Opcode.cleared_getElem?_ge, ← getElem?_window hlt' (by omega)]
    intro hswitch
    have := hpadding hswitch hlt'
    omega

/-- The opcode at which a step stands. -/
theorem opcode_at (h : d.Retraced 0 code steps out) {pc : Nat} {s : Step}
    (hmem : (pc, s) ∈ locate 0 steps) : ∃ op : Opcode, code[pc]? = some op.byte := by
  obtain ⟨op, rest, hdrop, -, -⟩ := h.window pc s (by rw [Nat.zero_add]; exact hmem)
  refine ⟨op, ?_⟩
  rw [← List.head?_drop, hdrop]
  rfl

/-- **The array that is written differs from the code in the two ways only.** -/
theorem reencoded (h : d.Retraced 0 code steps out) (hruns : Runs d 0 code steps) :
    d.Reencoded code out := by
  have hlocated := located_of_runs hruns
  refine ⟨h.length_eq, ?_, ?_, ?_⟩
  · rintro i ⟨pc, s, op, hmem, hop, hswitch, hlt, hle⟩
    rw [hlocated] at hmem
    exact h.padding_eq hmem hop hswitch hlt hle
  · intro pc s op hmem hop hreserved
    rw [hlocated] at hmem
    exact h.standardBytes_of_reserved hmem hop hreserved
  · intro i hpadding hreserved
    by_cases hi : i < code.length
    · obtain ⟨pc, s, hmem, hle, hlt⟩ := hruns.covered hi
      rw [Nat.zero_add] at hmem
      obtain ⟨op, hop⟩ := h.opcode_at hmem
      rw [← hlocated] at hmem
      by_cases hshape : op.shape = .reserved
      · exact absurd ⟨pc, s, op, hmem, hop, hshape, hle, hlt⟩ hreserved
      · refine h.elsewhere_eq (by rwa [hlocated] at hmem) hop hshape hle hlt ?_
        intro hswitch hlt'
        by_contra hnot
        exact hpadding ⟨pc, s, op, hmem, hop, hswitch, hlt', by omega⟩
    · have hlength := h.length_eq
      rw [List.getElem?_eq_none (by omega), List.getElem?_eq_none (by omega)]

theorem substitution_eq_none_iff (h : d.Retraced 0 code steps out) {pc : Nat} {s : Step}
    {op : Opcode} (hmem : (pc, s) ∈ locate 0 steps) (hop : code[pc]? = some op.byte) :
    s.substitution = none ↔ op.shape ≠ .reserved := (h.respells_at hmem hop).1

/-- Without replacements there is nothing reserved. -/
theorem not_isReserved (h : d.Retraced 0 code steps out) (hruns : Runs d 0 code steps)
    (hnone : d.substitutions code = []) (i : Nat) : ¬d.IsReserved code i := by
  rintro ⟨pc, s, op, hmem, hop, hreserved, -, -⟩
  rw [located_of_runs hruns] at hmem
  rw [hruns.substitutions_eq, List.filterMap_eq_nil_iff] at hnone
  have hs := hnone s (mem_locate.mp ⟨pc, hmem⟩)
  exact (h.substitution_eq_none_iff hmem hop).mp hs hreserved

/-- When nothing changes, nothing was reserved. -/
theorem substitutions_eq_nil (h : d.Retraced 0 code steps out) (hruns : Runs d 0 code steps)
    (hsame : out = code) : d.substitutions code = [] := by
  rw [hruns.substitutions_eq, List.filterMap_eq_nil_iff]
  intro s hs
  obtain ⟨pc, hmem⟩ := mem_locate.mpr hs
  obtain ⟨op, hop⟩ := h.opcode_at hmem
  by_contra hsome
  have hreserved : op.shape = .reserved := by
    by_contra hstandard
    exact hsome ((h.substitution_eq_none_iff hmem hop).mpr hstandard)
  -- the standard form starts with another opcode
  obtain ⟨front, more, hwritten, hfront⟩ :=
    shape_of_standardBytes (h.standardBytes_of_reserved hmem hop hreserved)
  have hbyte := getElem?_of_window hwritten
  rw [hsame, hop] at hbyte
  refine hfront ?_
  rw [← hreserved]
  exact congrArg Opcode.shape (Opcode.byte_inj (Option.some.inj hbyte)).symm

end Retraced

/-- **Decoded code is written as it was, but for the padding of its switches and its reserved
instructions.** It is the same code exactly when nothing was replaced and all padding is zero. -/
theorem encodeCode_of_decode {d : Decoder} {code : Bytes} {insns : List Instruction}
    (h : d.decode code = .ok insns) :
    ∃ out, encodeCode insns = .ok out ∧ d.Reencoded code out ∧
      (out = code ↔
        d.substitutions code = [] ∧ ∀ i, d.IsPadding code i → code[i]? = some 0) := by
  obtain ⟨steps, hruns, rfl⟩ := decode_eq_ok_iff.mp h
  obtain ⟨out, hwritten, hretraced⟩ := hruns.retraced
  have hreencoded := hretraced.reencoded hruns
  refine ⟨out, encodeFrom_eq_ok.mpr hwritten, hreencoded, ?_, ?_⟩
  · rintro rfl
    exact ⟨hretraced.substitutions_eq_nil hruns rfl, hreencoded.padding⟩
  · rintro ⟨hnone, hzero⟩
    apply List.ext_getElem?
    intro i
    by_cases hpadding : d.IsPadding code i
    · rw [hreencoded.padding i hpadding, hzero i hpadding]
    · exact hreencoded.elsewhere i hpadding (hretraced.not_isReserved hruns hnone i)

/-- A breakpoint, three compact loads and a switch with stray bytes in front of its operands; the
two-byte number is stored with its bytes exchanged. -/
def compactCode : Bytes :=
  [0xCA, 0x55, 0xE6, 0x01, 0xE7, 0x01, 0x00, 0xDC, 0xAB, 0x09, 0x00, 0x09, 0x00, 0x00, 0x00, 0x0C,
    0x00, 0x00, 0x00, 0x00, 0xE8]

/-- The machine that `compactCode` is for, with two constants to count. -/
def compactDecoder : Decoder := ⟨.hotspot11, some #[0x0102, 0x0007]⟩

theorem encodeCode_of_decode_compactCode : ∃ insns, compactDecoder.decode compactCode = .ok insns ∧
    ∃ out, encodeCode insns = .ok out ∧ compactDecoder.Reencoded compactCode out ∧
      (out = compactCode ↔ compactDecoder.substitutions compactCode = [] ∧
        ∀ i, compactDecoder.IsPadding compactCode i → compactCode[i]? = some 0) :=
  have h : compactDecoder.decode compactCode = .ok
      [.plain .nop, .plain .nop, .constant .ldc 7 [], .constant .ldcW 7 [], .plain .aload0,
        .lookupSwitch 12 [], .plain .return_] := by decide +kernel
  ⟨_, h, encodeCode_of_decode h⟩

end Decoder

end ClassPrune
