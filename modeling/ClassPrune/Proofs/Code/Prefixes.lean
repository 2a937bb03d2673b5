import ClassPrune.Proofs.Code.Walk

/-!
# Decoding the front of code

What an instruction is depends on its own bytes only. The instructions in front of an error are
therefore decoded when the code ends there, and those of a code array when more code follows.

- `Decoder.step_append`: a step is the same in front of any other bytes.
- `Decoder.Traces.runs_take`: the code up to an error decodes.
- `Decoder.Runs.prefix_of_append`: what follows does not change what is in front.
- `Decoder.decode_settled`: how decoding ends.
-/

namespace ClassPrune

/-! ## Messages -/

/-- What a text begins with, everything that begins with the text begins with. -/
theorem exists_append_of_prefix {text lead : String} (h : text.toList <+: lead.toList)
    (rest : String) : ∃ detail, lead ++ rest = text ++ detail := by
  obtain ⟨more, hmore⟩ := h
  refine ⟨String.ofList more ++ rest, ?_⟩
  rw [← String.append_assoc]
  congr 1
  apply String.toList_inj.mp
  rw [String.toList_append, String.toList_ofList, hmore]

/-- The message of a cause begins with what its kind says. -/
theorem DecodeCause.message_of_kind (cause : DecodeCause) :
    ∃ detail, cause.message = cause.kind.text ++ detail := by
  unfold message kind DecodeKind.text
  cases cause with
  | truncated => exact ⟨"", rfl⟩
  | _ =>
    dsimp only
    rw [toString, instToStringString]
    simp only [String.append_assoc]
    exact exists_append_of_prefix (by decide +kernel) _

namespace Decoder

variable {d : Decoder} {pc : Nat} {op : Opcode} {rest : Bytes} {s : Step}

/-! ## One step -/

/-- A switch is read from behind its padding. -/
theorem step_congr_padding (d : Decoder) {rest' : Bytes} (hswitch : op.shape ∈ Opcode.switchShapes)
    (h : rest.drop (switchPadding pc) = rest'.drop (switchPadding pc)) :
    d.step pc op rest = d.step pc op rest' := by
  simp only [Opcode.switchShapes, List.mem_cons, List.not_mem_nil, or_false] at hswitch
  unfold step
  rcases hswitch with hshape | hshape
  · simp only [hshape, stepTableSwitch, ← List.drop_drop, h]
  · simp only [hshape, stepLookupSwitch, ← List.drop_drop, h]

theorem step_append_of_standard (hstandard : op.shape ≠ .reserved)
    (h : d.step pc op rest = .ok s) (tail : Bytes) :
    d.step pc op (rest.take (s.size - 1) ++ tail) = .ok s := by
  obtain ⟨insn, operands, more, rfl, rfl, hread⟩ := step_takenFrom hstandard h
  obtain ⟨written, hspelled⟩ := hread.wellFormed.spelled pc
  have hbytes := hspelled.encode_eq
  rw [hread.encode_eq] at hbytes
  obtain ⟨hop, rfl⟩ := List.cons.inj (Except.ok.inj hbytes)
  have hstep := hspelled.step_eq d tail
  rw [← Opcode.byte_inj hop, hread.size_eq] at hstep
  show d.step pc op ((operands ++ more).take operands.length ++ tail) = _
  rw [List.take_left]
  -- the instruction is read back from what it is written as, which only differs in the padding
  by_cases hswitch : op.shape ∈ Opcode.switchShapes
  · have hpadding := hread.padding_le hswitch
    rw [Opcode.cleared, if_pos hswitch] at hstep
    rw [← hstep]
    refine d.step_congr_padding hswitch ?_
    rw [List.drop_append_of_le_length hpadding, List.append_assoc,
      List.drop_left' List.length_replicate]
  · rw [Opcode.cleared, if_neg hswitch] at hstep
    exact hstep

/-- A standard form is decided by the bytes of the reserved instruction. -/
theorem standardForm_append {size : Nat} {replacement : Opcode} {insns : List Instruction}
    (hform : d.profile.standardForm? op = some (replacement, size))
    (h : d.standardForm replacement size (rest.take 2) = .ok insns) (tail : Bytes) :
    d.standardForm replacement size ((rest.take (size - 1) ++ tail).take 2) = .ok insns := by
  rw [← h]
  obtain ⟨rfl, rfl⟩ | ⟨rfl, rfl⟩ | ⟨hldc, hldcW, -⟩ := standardForm?_cases hform
  · obtain ⟨a, more, index, rfl, -⟩ := standardForm_ldc h
    rfl
  · obtain ⟨a, b, more, index, rfl, -⟩ := standardForm_ldcW h
    rfl
  · -- without operands, only the number of bytes matters
    have hsize := standardForm?_size_le hform
    have henough := (ite_error_eq_ok.mp h).1
    have henough' : ¬((rest.take (size - 1) ++ tail).take 2).length + 1 < size := by
      simp only [List.length_take, List.length_append] at henough ⊢
      omega
    rw [standardForm, standardForm, if_neg henough, if_neg henough', if_neg hldc, if_neg hldc,
      if_neg hldcW, if_neg hldcW]

/-- A reserved instruction looks at no bytes behind its own. -/
theorem stepReserved_append (h : d.stepReserved pc op rest = .ok s) (tail : Bytes) :
    d.stepReserved pc op (rest.take (s.size - 1) ++ tail) = .ok s := by
  obtain ⟨replacement, size, insns, hform, hinsns, rfl⟩ := stepReserved_eq_ok h
  rw [stepReserved, hform]
  dsimp only
  rw [standardForm_append hform hinsns]

/-- **A step is the same in front of any other bytes.** -/
theorem step_append (h : d.step pc op rest = .ok s) (tail : Bytes) :
    d.step pc op (rest.take (s.size - 1) ++ tail) = .ok s := by
  by_cases hshape : op.shape = .reserved
  · have hreserved := stepReserved_append (step_of_reserved hshape h) tail
    unfold step
    rw [hshape]
    exact hreserved
  · exact step_append_of_standard hshape h tail

/-! ## Whole arrays -/

/-- **The code up to an error decodes.** -/
theorem Traces.runs_take {code : Bytes} {steps : List Step} {end? : Option DecodeError}
    (h : d.Traces pc code steps end?) {e : DecodeError} (he : end? = some e) :
    d.Runs pc (code.take (e.pc - pc)) steps := by
  induction h with
  | nil pc => cases he
  | @fault pc byte rest cause step =>
    cases he
    rw [Nat.sub_self]
    exact .nil pc
  | @cons pc byte rest s steps _ step more ih =>
    obtain ⟨-, -, hpos, -⟩ := (step_sound step).1
    obtain ⟨k, -, -, hk, -⟩ := more.fault_at he
    have hruns := ih he
    rw [show e.pc - pc = s.size - 1 + k + 1 by omega, List.take_succ_cons]
    rw [show e.pc - (pc + s.size) = k by omega] at hruns
    have hstep : d.step pc ⟨byte⟩ (rest.take (s.size - 1 + k)) = .ok s := by
      rw [List.take_add]
      exact step_append step _
    refine .cons hstep ?_
    rw [List.drop_take, Nat.add_sub_cancel_left]
    exact hruns

/-- **What follows does not change what is in front.** -/
theorem Runs.prefix_of_append {front more : Bytes} {steps all : List Step}
    (h : d.Runs pc front steps) (hall : d.Runs pc (front ++ more) all) : steps <+: all := by
  induction h generalizing all with
  | nil pc => exact List.nil_prefix
  | @cons pc byte rest s steps step _ ih =>
    obtain ⟨-, -, hpos, hle⟩ := (step_sound step).1
    have hsame := step_append step (rest.drop (s.size - 1) ++ more)
    rw [← List.append_assoc, List.take_append_drop] at hsame
    rw [List.cons_append] at hall
    cases hall with
    | @cons _ _ _ s' steps' step' more' =>
      obtain rfl : s' = s := Except.ok.inj (step'.symm.trans hsame)
      rw [List.drop_append_of_le_length (Nat.sub_le_of_le_add hle)] at more'
      exact List.cons_prefix_cons.mpr ⟨rfl, ih more'⟩

/-- **How decoding ends.** Either the sizes of the instructions add up to all of the code, or there
is an error of one of the four kinds, at an instruction in front of which the code decodes. Walking
over the code comes to the same and looks no byte up that the code does not have. What is decoded
stays decoded when more code follows. -/
theorem decode_settled (d : Decoder) (code : Bytes) :
    ((∃ insns placed, d.decode code = .ok insns ∧ d.walk code = .ok placed ∧
        placed.map Placed.insn = insns ∧ (placed.map Placed.size).sum = code.length) ∨
      ∃ e, d.decode code = .error e ∧ d.walk code = .error (.refused e) ∧
        (∃ detail, e.message = s!"pc {e.pc}: " ++ (e.cause.kind.text ++ detail)) ∧
        e.pc < code.length ∧ ∃ insns, d.decode (code.take e.pc) = .ok insns) ∧
    (∀ i, d.walk code ≠ .error (.outside i)) ∧
    ∀ more insns all, d.decode code = .ok insns → d.decode (code ++ more) = .ok all →
      insns <+: all := by
  have htraces := d.traces_run code
  refine ⟨?_, d.walk_ne_outside code, ?_⟩
  · rw [walk_eq]
    cases hend : (d.run code).2 with
    | none =>
      have hruns : d.Runs 0 code (d.run code).1 := run_eq_iff.mp (Prod.ext rfl hend)
      exact .inl ⟨_, _, decode_eq_ok_iff.mpr ⟨_, hruns, rfl⟩, rfl, map_insn_placements 0 _,
        hruns.sum_size⟩
    | some e =>
      obtain ⟨detail, hdetail⟩ := e.cause.message_of_kind
      obtain ⟨k, op, rest, hpc, hdrop, -⟩ := htraces.fault_at hend
      have hlength := Walk.length_of_drop hdrop
      refine .inr ⟨e, decode_eq_error_iff.mpr hend, rfl, ⟨detail, ?_⟩, by omega, _,
        decode_eq_ok_iff.mpr ⟨_, htraces.runs_take hend, rfl⟩⟩
      rw [DecodeError.message, hdetail]
      rfl
  · intro more insns all h hall
    obtain ⟨steps, hruns, rfl⟩ := decode_eq_ok_iff.mp h
    obtain ⟨steps', hruns', rfl⟩ := decode_eq_ok_iff.mp hall
    obtain ⟨tail, rfl⟩ := hruns.prefix_of_append hruns'
    rw [List.flatMap_append]
    exact List.prefix_append _ _

/-- A load, and a switch that announces one pair but ends in the middle of it. -/
def cutCode : Bytes :=
  [0x2A, 0xAB, 0x00, 0x00, 0x00, 0x00, 0x00, 0x0C, 0x00, 0x00, 0x00, 0x01, 0x00, 0x00, 0x00, 0x01]

theorem decode_settled_cutCode :
    compactDecoder.decode cutCode = .error ⟨1, .truncated⟩ ∧
    compactDecoder.walk cutCode = .error (.refused ⟨1, .truncated⟩) ∧
    (∃ insns, compactDecoder.decode (cutCode.take 1) = .ok insns) ∧
    ∃ insns all, compactDecoder.decode (cutCode.take 1) = .ok insns ∧
      compactDecoder.decode (cutCode.take 1 ++ [0xB1]) = .ok all ∧ insns <+: all := by
  have hcut : compactDecoder.decode cutCode = .error ⟨1, .truncated⟩ := by decide +kernel
  have hfront : compactDecoder.decode (cutCode.take 1) = .ok [.plain .aload0] := by decide +kernel
  have hall : compactDecoder.decode (cutCode.take 1 ++ [0xB1])
      = .ok [.plain .aload0, .plain .return_] := by decide +kernel
  obtain ⟨⟨insns, placed, hok, -⟩ | ⟨e, herror, hwalk, -, -, hbefore⟩, -, -⟩ :=
    decode_settled compactDecoder cutCode
  · rw [hcut] at hok
    cases hok
  · obtain rfl : ⟨1, .truncated⟩ = e := Except.error.inj (hcut.symm.trans herror)
    exact ⟨hcut, hwalk, hbefore, _, _, hfront, hall,
      (decode_settled compactDecoder (cutCode.take 1)).2.2 [0xB1] _ _ hfront hall⟩

end Decoder

end ClassPrune
