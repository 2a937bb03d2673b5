import ClassPrune.Proofs.Code.Offsets

/-!
# Decoding up to the first error

A run of a decoder ends at the end of the code or at the first instruction that cannot be read.
Either way the decoder has looked at one instruction after the other, and what it made of each of
them is the step that its bytes decide.

- `Decoder.Traces`: the steps over code and the error that ends them, if any.
- `Decoder.Takes`: what the decoder makes of the instruction at an offset.
- `Decoder.reaches_zero`, `Decoder.reaches_next`: the decoder gets to the front of the code, and
  from every step to the bytes behind it.
- `Decoder.takes_iff`: where the decoder gets to, it takes the step there, or fails there.
-/

namespace ClassPrune.Decoder

variable {d : Decoder}

/-- The steps of a decoder over code that starts at `pc`, and the error that ends them, if any. -/
inductive Traces (d : Decoder) : Nat → Bytes → List Step → Option DecodeError → Prop
  | nil (pc : Nat) : Traces d pc [] [] none
  | fault {pc : Nat} {byte : UInt8} {rest : Bytes} {cause : DecodeCause}
    (step : d.step pc ⟨byte⟩ rest = .error cause) :
    Traces d pc (byte :: rest) [] (some ⟨pc, cause⟩)
  | cons {pc : Nat} {byte : UInt8} {rest : Bytes} {s : Step} {steps : List Step}
    {end? : Option DecodeError} (step : d.step pc ⟨byte⟩ rest = .ok s)
    (more : Traces d (pc + s.size) (rest.drop (s.size - 1)) steps end?) :
    Traces d pc (byte :: rest) (s :: steps) end?

/-- The run of a decoder with enough fuel is such a trace. -/
theorem traces_runFrom {n pc : Nat} {code : Bytes} (hn : code.length ≤ n) :
    d.Traces pc code (d.runFrom n pc code).1 (d.runFrom n pc code).2 := by
  induction n generalizing pc code with
  | zero =>
    obtain rfl := List.length_eq_zero_iff.mp (Nat.le_zero.mp hn)
    exact .nil pc
  | succ n ih =>
    cases code with
    | nil => exact .nil pc
    | cons byte rest =>
      rw [List.length_cons] at hn
      rw [runFrom_cons]
      cases hstep : d.step pc ⟨byte⟩ rest with
      | error cause => exact .fault hstep
      | ok s =>
        -- a step takes a byte, so the bytes that are left are enough steps
        exact .cons hstep (ih (by rw [List.length_drop]; omega))

theorem traces_run (d : Decoder) (code : Bytes) : d.Traces 0 code (d.run code).1 (d.run code).2 :=
  traces_runFrom (Nat.le_refl _)

/-- Decoding fails with the error that ends the run. -/
theorem decode_eq_error_iff {code : Bytes} {e : DecodeError} :
    d.decode code = .error e ↔ (d.run code).2 = some e := by
  rw [decode]
  rcases d.run code with ⟨steps, _ | e'⟩ <;> simp

namespace Traces

variable {pc : Nat} {code : Bytes} {steps : List Step} {end? : Option DecodeError}

/-- The bytes at which a step is located are those that the step is taken from. -/
theorem step_at (h : d.Traces pc code steps end?) {k : Nat} {s : Step}
    (hmem : (pc + k, s) ∈ locate pc steps) :
    ∃ op rest, code.drop k = Opcode.byte op :: rest ∧ d.step (pc + k) op rest = .ok s := by
  induction h generalizing k with
  | nil pc => cases hmem
  | fault step => cases hmem
  | @cons pc byte rest t steps end? step more ih =>
    have hpos := (step_sound step).1.size_pos
    rw [locate, List.mem_cons] at hmem
    rcases hmem with heq | hmem
    · obtain ⟨hk, rfl⟩ := Prod.mk.inj heq
      obtain rfl : k = 0 := by omega
      exact ⟨⟨byte⟩, rest, rfl, step⟩
    · obtain ⟨j, rfl⟩ : ∃ j, k = t.size + j :=
        ⟨k - t.size, by have := le_of_mem_locate hmem; omega⟩
      rw [← Nat.add_assoc] at hmem ⊢
      obtain ⟨op, rest', hdrop, hstep⟩ := ih hmem
      refine ⟨op, rest', ?_, hstep⟩
      rw [List.drop_drop] at hdrop
      rw [show t.size + j = t.size - 1 + j + 1 by omega, List.drop_succ_cons]
      exact hdrop

/-- The error is that of the instruction where the run ends. -/
theorem fault_at (h : d.Traces pc code steps end?) {e : DecodeError} (he : end? = some e) :
    ∃ k op rest, e.pc = pc + k ∧ code.drop k = Opcode.byte op :: rest ∧
      d.step e.pc op rest = .error e.cause := by
  induction h with
  | nil pc => cases he
  | @fault pc byte rest cause step =>
    cases he
    exact ⟨0, ⟨byte⟩, rest, rfl, rfl, step⟩
  | @cons pc byte rest s steps end? step more ih =>
    have hpos := (step_sound step).1.size_pos
    obtain ⟨k, op, rest', hpc, hdrop, hstep⟩ := ih he
    refine ⟨s.size + k, op, rest', by omega, ?_, hstep⟩
    rw [List.drop_drop] at hdrop
    rw [show s.size + k = s.size - 1 + k + 1 by omega, List.drop_succ_cons]
    exact hdrop

/-- Something is made of the instruction at the front. -/
theorem front (h : d.Traces pc code steps end?) (hcode : code ≠ []) :
    (∃ s, (pc, s) ∈ locate pc steps) ∨ ∃ cause, end? = some ⟨pc, cause⟩ := by
  cases h with
  | nil => exact absurd rfl hcode
  | fault step => exact .inr ⟨_, rfl⟩
  | cons step more => exact .inl ⟨_, List.mem_cons_self⟩

/-- Something is made of the instruction behind a step, if there is one. -/
theorem next (h : d.Traces pc code steps end?) {k : Nat} {s : Step}
    (hmem : (pc + k, s) ∈ locate pc steps) (hlt : k + s.size < code.length) :
    (∃ s', (pc + (k + s.size), s') ∈ locate pc steps) ∨
      ∃ cause, end? = some ⟨pc + (k + s.size), cause⟩ := by
  induction h generalizing k with
  | nil pc => cases hmem
  | fault step => cases hmem
  | @cons pc byte rest t steps end? step more ih =>
    have hpos := (step_sound step).1.size_pos
    rw [List.length_cons] at hlt
    simp only [locate, List.mem_cons] at hmem ⊢
    rcases hmem with heq | hmem
    · obtain ⟨hk, rfl⟩ := Prod.mk.inj heq
      obtain rfl : k = 0 := by omega
      have hrest : rest.drop (s.size - 1) ≠ [] := by
        rw [ne_eq, List.drop_eq_nil_iff]
        omega
      rw [Nat.zero_add]
      exact (more.front hrest).imp_left (Exists.imp fun _ => .inr)
    · obtain ⟨j, rfl⟩ : ∃ j, k = t.size + j :=
        ⟨k - t.size, by have := le_of_mem_locate hmem; omega⟩
      rw [← Nat.add_assoc] at hmem
      have hnext := ih hmem (by rw [List.length_drop]; omega)
      rw [show pc + (t.size + j + s.size) = pc + t.size + (j + s.size) by omega]
      exact hnext.imp_left (Exists.imp fun _ => .inr)

end Traces

/-! ## One instruction of the code -/

/-- What the decoder makes of the instruction at `pc`: a step that is located there, or the error
that decoding ends with there. -/
def Takes (d : Decoder) (code : Bytes) (pc : Nat) : Except DecodeCause Step → Prop
  | .ok s => (pc, s) ∈ d.located code
  | .error cause => d.decode code = .error ⟨pc, cause⟩

/-- The decoder gets as far as the instruction at `pc`. -/
def Reaches (d : Decoder) (code : Bytes) (pc : Nat) : Prop := ∃ result, d.Takes code pc result

/-- The decoder gets to the offsets of its steps, and to that of its error. -/
theorem reaches_iff {code : Bytes} {pc : Nat} : d.Reaches code pc ↔
    (∃ s, (pc, s) ∈ d.located code) ∨ ∃ cause, (d.run code).2 = some ⟨pc, cause⟩ := by
  constructor
  · rintro ⟨s | cause, h⟩
    · exact .inr ⟨_, decode_eq_error_iff.mp h⟩
    · exact .inl ⟨_, h⟩
  · rintro (⟨s, h⟩ | ⟨cause, h⟩)
    · exact ⟨.ok s, h⟩
    · exact ⟨.error cause, decode_eq_error_iff.mpr h⟩

/-- It gets to the front of any code that has bytes. -/
theorem reaches_zero (d : Decoder) {code : Bytes} (hcode : code ≠ []) : d.Reaches code 0 :=
  reaches_iff.mpr ((d.traces_run code).front hcode)

/-- The decoder goes on behind every step, as far as there is code. -/
theorem reaches_next {code : Bytes} {pc : Nat} {s : Step} (h : (pc, s) ∈ d.located code)
    (hlt : pc + s.size < code.length) : d.Reaches code (pc + s.size) := by
  rw [located, ← Nat.zero_add pc] at h
  have hnext := (d.traces_run code).next h hlt
  rw [Nat.zero_add] at hnext
  exact reaches_iff.mpr hnext

/-- What the decoder makes of an instruction is decided by the bytes from there on. -/
theorem Takes.exists_step {code : Bytes} {pc : Nat} {result : Except DecodeCause Step}
    (h : d.Takes code pc result) :
    ∃ op rest, code.drop pc = Opcode.byte op :: rest ∧ d.step pc op rest = result := by
  have htraces := d.traces_run code
  cases result with
  | ok s =>
    have hmem : (0 + pc, s) ∈ locate 0 (d.run code).1 := by
      rw [Nat.zero_add]
      exact h
    obtain ⟨op, rest, hdrop, hstep⟩ := htraces.step_at hmem
    rw [Nat.zero_add] at hstep
    exact ⟨op, rest, hdrop, hstep⟩
  | error cause =>
    obtain ⟨k, op, rest, hpc, hdrop, hstep⟩ := htraces.fault_at (decode_eq_error_iff.mp h)
    rw [Nat.zero_add] at hpc
    subst hpc
    exact ⟨op, rest, hdrop, hstep⟩

/-- **Where the decoder gets to, it takes the step there, or fails there.** -/
theorem takes_iff {code : Bytes} {pc : Nat} (hreach : d.Reaches code pc) {op : Opcode}
    {rest : Bytes} (hdrop : code.drop pc = op.byte :: rest) (result : Except DecodeCause Step) :
    d.Takes code pc result ↔ d.step pc op rest = result := by
  have hdecided : ∀ {result : Except DecodeCause Step}, d.Takes code pc result →
      d.step pc op rest = result := by
    intro result h
    obtain ⟨op', rest', hdrop', rfl⟩ := h.exists_step
    rw [hdrop] at hdrop'
    obtain ⟨hbyte, rfl⟩ := List.cons.inj hdrop'
    rw [Opcode.byte_inj hbyte]
  refine ⟨hdecided, fun hresult => ?_⟩
  obtain ⟨taken, h⟩ := hreach
  rw [← hresult, hdecided h]
  exact h

end ClassPrune.Decoder
