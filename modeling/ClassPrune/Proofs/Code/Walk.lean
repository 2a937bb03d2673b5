import ClassPrune.Code.Walk
import ClassPrune.Proofs.Code.Listing
import ClassPrune.Proofs.Code.Traces

/-!
# A walk stays inside

Every byte is looked up behind a check that it is there, and the checks compare sizes, some of which
were themselves read from the code. They let the walk pass exactly where the bytes that are left are
enough, so walking over an array and splitting it up come to the same.

- `Walk.byte_of_drop`, `Walk.need_of_le`, `Walk.switchHead_cases`: what is looked up at a position,
  when the bytes from there on are known.
- `Decoder.walkStep_eq`: the instruction at a position is what the bytes from there on say.
- `Decoder.walk_eq`, `Decoder.walk_ne_outside`: a walk finds what decoding does, or why decoding
  fails, and no byte outside.
- `Decoder.Runs.sum_size`: what is decoded takes all bytes.
-/

namespace ClassPrune

/-! ## Looking bytes up -/

namespace Walk

variable {code tail : Bytes} {i : Nat}

/-- Bytes that are known to stand somewhere, and what stands behind them. -/
theorem drop_of_drop_append (front : Bytes) (h : code.drop i = front ++ tail) :
    code.drop (i + front.length) = tail := by
  rw [← List.drop_drop, h, List.drop_left]

/-- A lookup succeeds where a byte is known to stand. -/
theorem byte_of_drop {a : UInt8} (h : code.drop i = a :: tail) : byte code i = .ok a := by
  have hget : code[i]? = some a := by
    rw [← List.head?_drop, h]
    rfl
  rw [byte, hget]

theorem u2_of_drop {a b : UInt8} (h : code.drop i = a :: b :: tail) :
    u2 code i = .ok (Bytes.toU2 a b) := by
  have h₁ : code.drop (i + 1) = b :: tail := drop_of_drop_append [a] h
  rw [u2, byte_of_drop h, byte_of_drop h₁]
  rfl

theorem s4_of_drop {a b c d : UInt8} (h : code.drop i = a :: b :: c :: d :: tail) :
    s4 code i = .ok (Bytes.toU4 a b c d).toInt32 := by
  have h₁ : code.drop (i + 1) = b :: c :: d :: tail := drop_of_drop_append [a] h
  have h₂ : code.drop (i + 2) = c :: d :: tail := drop_of_drop_append [a, b] h
  have h₃ : code.drop (i + 3) = d :: tail := drop_of_drop_append [a, b, c] h
  rw [s4, byte_of_drop h, byte_of_drop h₁, byte_of_drop h₂, byte_of_drop h₃]
  rfl

theorem slice_of_drop {front : Bytes} (h : code.drop i = front ++ tail) :
    slice code i front.length = .ok front := by
  induction front generalizing i with
  | nil => rfl
  | cons a front ih =>
    have hmore := ih (i := i + 1) (drop_of_drop_append [a] h)
    rw [List.length_cons, slice, byte_of_drop h, hmore]
    rfl

/-- Numbers that are looked up in a row are looked up one by one. -/
theorem s4s_cons {n : Nat} {v : Int32} {vs : List Int32} (h : s4s code i (n + 1) = .ok (v :: vs)) :
    s4 code i = .ok v ∧ s4s code (i + 4) n = .ok vs := by
  obtain ⟨v', hv, h⟩ := bind_eq_ok.mp h
  obtain ⟨vs', hvs, h⟩ := bind_eq_ok.mp h
  cases h
  exact ⟨hv, hvs⟩

/-- Numbers that are read at the front of some bytes are looked up where these stand. -/
theorem s4s_of_readS4s? {bytes : Bytes} {n : Nat} {vs : List Int32} (h : code.drop i = bytes)
    (hread : readS4s? n bytes = some vs) : s4s code i n = .ok vs := by
  fun_induction readS4s? n bytes generalizing i vs with
  | case1 bytes =>
    cases hread
    rfl
  | case2 n a b c d rest ih =>
    obtain ⟨more, hmore, rfl⟩ := Option.map_eq_some_iff.mp hread
    have hrest : s4s code (i + 4) n = .ok more := ih (drop_of_drop_append [a, b, c, d] h) hmore
    rw [s4s, s4_of_drop h, ok_bind, hrest]
    rfl
  | case3 n bytes hshort => cases hread

/-- Pairs are found by the walk where splitting finds them. -/
theorem pairs_of_readPairs? {bytes : Bytes} {n : Nat} {vs : List (Int32 × Int32)}
    (h : code.drop i = bytes) (hread : readPairs? n bytes = some vs) :
    pairs code i n = .ok vs := by
  fun_induction readPairs? n bytes generalizing i vs with
  | case1 bytes =>
    cases hread
    rfl
  | case2 n a b c d e f g k rest ih =>
    obtain ⟨more, hmore, rfl⟩ := Option.map_eq_some_iff.mp hread
    have hoffset : code.drop (i + 4) = e :: f :: g :: k :: rest :=
      drop_of_drop_append [a, b, c, d] h
    have hrest : pairs code (i + 8) n = .ok more :=
      ih (drop_of_drop_append [a, b, c, d, e, f, g, k] h) hmore
    rw [pairs, s4_of_drop h, ok_bind, s4_of_drop hoffset, ok_bind, hrest]
    rfl
  | case3 n bytes hshort => cases hread

/-! ## Making sure of bytes -/

theorem length_of_drop {b : UInt8} (h : code.drop i = b :: tail) :
    code.length = i + 1 + tail.length := by
  have hlength := congrArg List.length h
  rw [List.length_drop, List.length_cons] at hlength
  omega

/-- The check of a walk lets pass what is there, -/
theorem need_of_le {b : UInt8} {n : Nat} (h : code.drop i = b :: tail)
    (hle : n ≤ (b :: tail).length) : need code i n = .ok () := by
  have hlength := length_of_drop h
  rw [List.length_cons] at hle
  exact if_neg (by omega)

/-- and refuses what is not. -/
theorem need_of_lt {b : UInt8} {n : Nat} (h : code.drop i = b :: tail)
    (hlt : (b :: tail).length < n) : need code i n = .error (.refused .truncated) := by
  have hlength := length_of_drop h
  rw [List.length_cons] at hlt
  exact if_pos (by omega)

/-- The check for a table compares sizes, one of which was read from the code. It does not depend on
how they are multiplied. -/
theorem needRows_eq {start : Nat} (hstart : start ≤ code.length) (n : Nat) {width : Nat}
    (hwidth : 0 < width) : needRows code start n width
      = if code.length - start < width * n then refuse .truncated else .ok () := by
  have hleft : (code.length : Int) - start = (code.length - start : Nat) := by omega
  rw [needRows, hleft, ← Int.ofNat_tdiv]
  congr 1
  rw [eq_iff_iff, gt_iff_lt, Int.ofNat_lt, Nat.div_lt_iff_lt_mul hwidth, Nat.mul_comm]

/-! ## Tables -/

/-- Numbers that cannot be read are more than there are bytes for. -/
theorem length_lt_of_readS4s? {n : Nat} {bytes : Bytes} (h : readS4s? n bytes = none) :
    bytes.length < 4 * n := by
  fun_induction readS4s? n bytes with
  | case1 bytes => cases h
  | case2 n a b c d rest ih =>
    have hrest := ih (Option.map_eq_none_iff.mp h)
    simp only [List.length_cons]
    omega
  | case3 n bytes hshort =>
    rcases bytes with _ | ⟨a, _ | ⟨b, _ | ⟨c, _ | ⟨d, rest⟩⟩⟩⟩
    case cons.cons.cons.cons => exact absurd rfl (hshort a b c d rest)
    all_goals
      simp only [List.length_cons, List.length_nil]
      omega

/-- Pairs cannot be read only because bytes are missing. -/
theorem length_lt_of_readPairs? {n : Nat} {bytes : Bytes} (h : readPairs? n bytes = none) :
    bytes.length < 8 * n := by
  fun_induction readPairs? n bytes with
  | case1 bytes => cases h
  | case2 n a b c d e f g k rest ih =>
    have hrest := ih (Option.map_eq_none_iff.mp h)
    simp only [List.length_cons]
    omega
  | case3 n bytes hshort =>
    rcases bytes with _ | ⟨a, _ | ⟨b, _ | ⟨c, _ | ⟨d, _ | ⟨e, _ | ⟨f, _ | ⟨g, _ | ⟨k, rest⟩⟩⟩⟩⟩⟩⟩⟩
    case cons.cons.cons.cons.cons.cons.cons.cons => exact absurd rfl (hshort a b c d e f g k rest)
    all_goals
      simp only [List.length_cons, List.length_nil]
      omega

/-- A table is cut off, or it is looked up as it is read. -/
theorem table_cases {α : Type} {start n width : Nat} {read : Option α}
    {look : Except (Halt DecodeCause) α} (hstart : start ≤ code.length) (hwidth : 0 < width)
    (hnone : read = none → (code.drop start).length < width * n)
    (hsome : ∀ v, read = some v → width * n ≤ (code.drop start).length ∧ look = .ok v) :
    (needRows code start n width = .error (.refused .truncated) ∧ read = none) ∨
      ∃ v, needRows code start n width = .ok () ∧ read = some v ∧ look = .ok v := by
  rw [needRows_eq hstart n hwidth, ← List.length_drop]
  cases read with
  | none => exact .inl ⟨if_pos (hnone rfl), rfl⟩
  | some v =>
    obtain ⟨hle, hlook⟩ := hsome v rfl
    exact .inr ⟨v, if_neg (Nat.not_lt.mpr hle), rfl, hlook⟩

/-! ## Instructions -/

variable {pc : Nat} {rest : Bytes} {b : UInt8}

/-- An instruction with an index: the walk and the split agree, including on what they refuse. -/
theorem constant_eq (op : Opcode) (trailing : Nat) (h : code.drop pc = b :: rest) :
    constant code pc op trailing = (Decoder.stepConstant op trailing rest).mapError .refused := by
  rcases rest with _ | ⟨a, _ | ⟨c, rest⟩⟩
  case cons.cons =>
    have hindex : code.drop (pc + 1) = a :: c :: rest := drop_of_drop_append [b] h
    unfold constant Decoder.stepConstant
    dsimp only
    cases hsplit : Bytes.split? trailing rest with
    | none =>
      have hlt := Bytes.length_lt_of_split? hsplit
      rw [need_of_lt h (by simp only [List.length_cons]; omega)]
      rfl
    | some split =>
      obtain ⟨front, back⟩ := split
      obtain ⟨rfl, rfl⟩ := Bytes.split?_eq_some_iff.mp hsplit
      have hbytes : code.drop (pc + 3) = front ++ back := drop_of_drop_append [b, a, c] h
      rw [need_of_le h (by simp; omega), ok_bind, u2_of_drop hindex, ok_bind, slice_of_drop hbytes]
      rfl
  all_goals
    rw [constant, need_of_lt h (by simp; omega)]
    rfl

theorem wide_eq (h : code.drop pc = b :: rest) :
    wide code pc = (stepWide rest).mapError .refused := by
  unfold stepWide
  rcases rest with _ | ⟨byte, rest⟩
  · rw [wide, need_of_lt h (by simp)]
    rfl
  · have hrest : code.drop (pc + 1) = byte :: rest := drop_of_drop_append [b] h
    have hoperands : code.drop (pc + 2) = rest := drop_of_drop_append [b, byte] h
    rw [wide, need_of_le h (by simp), ok_bind, byte_of_drop hrest, ok_bind]
    dsimp only
    by_cases hwideable : (!(⟨byte⟩ : Opcode).isWideable) = true
    · rw [if_pos hwideable, if_pos hwideable]
      rfl
    · rw [if_neg hwideable, if_neg hwideable]
      by_cases hiinc : (⟨byte⟩ : Opcode) = .iinc
      · simp only [if_pos hiinc]
        rcases rest with _ | ⟨a, _ | ⟨b, _ | ⟨c, _ | ⟨d, rest⟩⟩⟩⟩
        case cons.cons.cons.cons =>
          have hamount : code.drop (pc + 4) = c :: d :: rest := drop_of_drop_append [a, b] hoperands
          rw [need_of_le h (by simp), ok_bind, u2_of_drop hoperands, ok_bind, u2_of_drop hamount]
          rfl
        all_goals
          rw [need_of_lt h (by simp)]
          rfl
      · simp only [if_neg hiinc]
        rcases rest with _ | ⟨a, _ | ⟨b, rest⟩⟩
        case cons.cons =>
          rw [need_of_le h (by simp), ok_bind, u2_of_drop hoperands]
          -- two more bytes may follow by chance
          rcases rest with _ | ⟨c, _ | ⟨d, rest⟩⟩ <;> rfl
        all_goals
          rw [need_of_lt h (by simp)]
          rfl

/-- What stands behind the padding of a switch. -/
theorem drop_padded (h : code.drop pc = b :: rest) (n : Nat) :
    rest.drop (switchPadding pc + n) = code.drop (pc + 1 + switchPadding pc + n) := by
  have hrest : code.drop (pc + 1) = rest := drop_of_drop_append [b] h
  rw [← hrest, List.drop_drop, Nat.add_assoc (pc + 1)]

/-- The numbers in front of a switch are cut off, or they are looked up as they are read. -/
theorem switchHead_cases (h : code.drop pc = b :: rest) {n : Nat} (hn : 0 < n) :
    (need code pc (pc + 1 + switchPadding pc - pc + 4 * n) = .error (.refused .truncated) ∧
        readS4s? n (rest.drop (switchPadding pc)) = none) ∨
      ∃ vs, need code pc (pc + 1 + switchPadding pc - pc + 4 * n) = .ok () ∧ vs.length = n ∧
        pc + 1 + switchPadding pc + 4 * n ≤ code.length ∧
        readS4s? n (rest.drop (switchPadding pc)) = some vs ∧
        s4s code (pc + 1 + switchPadding pc) n = .ok vs := by
  have hlength := length_of_drop h
  cases hread : readS4s? n (rest.drop (switchPadding pc)) with
  | none =>
    have hlt := length_lt_of_readS4s? hread
    rw [List.length_drop] at hlt
    exact .inl ⟨need_of_lt h (by rw [List.length_cons]; omega), rfl⟩
  | some vs =>
    obtain ⟨hvs, hle⟩ := readS4s?_eq_some hread
    rw [List.length_drop] at hle
    exact .inr ⟨vs, need_of_le h (by rw [List.length_cons]; omega), hvs, by omega, rfl,
      s4s_of_readS4s? (drop_padded h 0).symm hread⟩

/-- A table switch is refused by both for the same reason, whichever check comes first. -/
theorem tableSwitch_eq (h : code.drop pc = b :: rest) :
    tableSwitch code pc = (stepTableSwitch pc rest).mapError .refused := by
  unfold tableSwitch stepTableSwitch
  dsimp only
  rw [show 12 = 4 * 3 from rfl]
  obtain ⟨hneed, hread⟩ | ⟨vs, hneed, hlength, hle, hread, hhead⟩ :=
    switchHead_cases h (n := 3) (by decide)
  · rw [hneed, hread]
    rfl
  · obtain ⟨default_, low, high, rfl⟩ := List.length_eq_three.mp hlength
    obtain ⟨hdefault, hhead⟩ := s4s_cons hhead
    obtain ⟨hlow, hhead⟩ := s4s_cons hhead
    obtain ⟨hhigh, -⟩ := s4s_cons hhead
    rw [hneed, ok_bind, hdefault, ok_bind, hlow, ok_bind, hhigh, ok_bind, hread]
    dsimp only
    by_cases hempty : low.toInt > high.toInt
    · rw [if_pos hempty, if_pos hempty]
      rfl
    · obtain ⟨n, hn⟩ := Int.eq_ofNat_of_zero_le (a := high.toInt - low.toInt + 1) (by omega)
      rw [if_neg hempty, if_neg hempty, hn, Int.toNat_natCast, drop_padded h]
      obtain ⟨hrows, hread⟩ | ⟨offsets, hrows, hread, htable⟩ :=
        table_cases hle (by decide) length_lt_of_readS4s? fun vs hvs =>
          ⟨(readS4s?_eq_some (n := n) hvs).2, s4s_of_readS4s? rfl hvs⟩
      · rw [hrows, hread]
        rfl
      · rw [hrows, hread, ok_bind, htable]
        rfl

/-- Likewise for a lookup switch. -/
theorem lookupSwitch_eq (h : code.drop pc = b :: rest) :
    lookupSwitch code pc = (stepLookupSwitch pc rest).mapError .refused := by
  unfold lookupSwitch stepLookupSwitch
  dsimp only
  rw [show 8 = 4 * 2 from rfl]
  obtain ⟨hneed, hread⟩ | ⟨vs, hneed, hlength, hle, hread, hhead⟩ :=
    switchHead_cases h (n := 2) (by decide)
  · rw [hneed, hread]
    rfl
  · obtain ⟨default_, count, rfl⟩ := List.length_eq_two.mp hlength
    obtain ⟨hdefault, hhead⟩ := s4s_cons hhead
    obtain ⟨hcount, -⟩ := s4s_cons hhead
    rw [hneed, ok_bind, hdefault, ok_bind, hcount, ok_bind, hread]
    dsimp only
    by_cases hnegative : count.toInt < 0
    · rw [if_pos hnegative, if_pos hnegative]
      rfl
    · obtain ⟨n, hn⟩ := Int.eq_ofNat_of_zero_le (Int.not_lt.mp hnegative)
      rw [if_neg hnegative, if_neg hnegative, hn, Int.toNat_natCast, drop_padded h]
      obtain ⟨hrows, hread⟩ | ⟨table, hrows, hread, htable⟩ :=
        table_cases hle (by decide) length_lt_of_readPairs? fun vs hvs =>
          ⟨(readPairs?_eq_some (n := n) hvs).2, pairs_of_readPairs? rfl hvs⟩
      · rw [hrows, hread]
        rfl
      · rw [hrows, hread, ok_bind, htable]
        rfl

end Walk

namespace Decoder

open Walk

variable {code rest : Bytes} {pc : Nat} {op : Opcode}

/-- What stands for a reserved opcode takes at most three bytes. -/
theorem standardForm?_size_le {p : Profile} {replacement : Opcode} {size : Nat}
    (h : p.standardForm? op = some (replacement, size)) : size ≤ 3 := by
  unfold Profile.standardForm? at h
  split_ifs at h <;> cases h <;> decide

theorem walkStandardForm_eq (d : Decoder) {replacement : Opcode} {size : Nat}
    (hform : d.profile.standardForm? op = some (replacement, size))
    (h : code.drop pc = op.byte :: rest) :
    d.walkStandardForm code pc replacement size
      = (d.standardForm replacement size (rest.take 2)).mapError .refused := by
  -- two bytes behind the opcode are all that is ever looked at
  have hsize := standardForm?_size_le hform
  have hrest : code.drop (pc + 1) = rest := drop_of_drop_append [op.byte] h
  unfold walkStandardForm standardForm
  by_cases hshort : (rest.take 2).length + 1 < size
  · rw [if_pos hshort]
    rw [List.length_take] at hshort
    rw [need_of_lt h (by rw [List.length_cons]; omega)]
    rfl
  · rw [if_neg hshort]
    obtain ⟨rfl, rfl⟩ | ⟨rfl, rfl⟩ | ⟨hldc, hldcW, -⟩ := standardForm?_cases hform
    · rcases rest with _ | ⟨a, rest⟩
      · exact absurd (by decide) hshort
      · rw [need_of_le h (by simp), ok_bind, if_pos rfl, if_pos rfl, byte_of_drop hrest]
        rfl
    · rcases rest with _ | ⟨a, _ | ⟨b, rest⟩⟩
      · exact absurd (by decide) hshort
      · exact absurd (Nat.lt_succ_self 2) hshort
      · have hne : Opcode.ldcW ≠ .ldc := by decide
        rw [need_of_le h (by simp), ok_bind, if_neg hne, if_neg hne, if_pos rfl, if_pos rfl,
          u2_of_drop hrest]
        rfl
    · rw [List.length_take] at hshort
      rw [need_of_le h (by rw [List.length_cons]; omega), ok_bind, if_neg hldc, if_neg hldc,
        if_neg hldcW, if_neg hldcW]
      rfl

/-- A reserved instruction is looked up and refused alike. -/
theorem walkReserved_eq (d : Decoder) (h : code.drop pc = op.byte :: rest) :
    d.walkReserved code pc op = (d.stepReserved pc op rest).mapError .refused := by
  unfold walkReserved stepReserved
  cases hform : d.profile.standardForm? op with
  | none => rfl
  | some form =>
    obtain ⟨replacement, size⟩ := form
    dsimp only
    rw [walkStandardForm_eq d hform h]
    cases d.standardForm replacement size (rest.take 2) with
    | error cause => rfl
    | ok insns => rfl

/-- **The instruction at a position is what the bytes from there on say.** -/
theorem walkStep_eq (d : Decoder) (h : code.drop pc = op.byte :: rest) :
    d.walkStep code pc = (d.step pc op rest).mapError .refused := by
  obtain ⟨byte⟩ := op
  have hrest : code.drop (pc + 1) = rest := drop_of_drop_append [byte] h
  unfold walkStep step
  rw [byte_of_drop h, ok_bind]
  dsimp only at h ⊢
  cases hshape : (⟨byte⟩ : Opcode).shape with
  | bare => rfl
  | localSlot | arrayType | signedByte | constant1 =>
    dsimp only
    rcases rest with _ | ⟨a, rest⟩
    · rw [need_of_lt h (by simp)]
      rfl
    · rw [need_of_le h (by simp), ok_bind, byte_of_drop hrest]
      rfl
  | signedShort | branch =>
    dsimp only
    rcases rest with _ | ⟨a, _ | ⟨b, rest⟩⟩
    case cons.cons =>
      rw [need_of_le h (by simp), ok_bind, u2_of_drop hrest]
      rfl
    all_goals
      rw [need_of_lt h (by simp)]
      rfl
  | branchWide =>
    dsimp only
    rcases rest with _ | ⟨a, _ | ⟨b, _ | ⟨c, _ | ⟨e, rest⟩⟩⟩⟩
    case cons.cons.cons.cons =>
      rw [need_of_le h (by simp), ok_bind, s4_of_drop hrest]
      rfl
    all_goals
      rw [need_of_lt h (by simp)]
      rfl
  | constant2 | invokeInterface | invokeDynamic | multiArray => exact constant_eq _ _ h
  | iinc =>
    dsimp only
    rcases rest with _ | ⟨a, _ | ⟨b, rest⟩⟩
    case cons.cons =>
      have hamount : code.drop (pc + 2) = b :: rest := drop_of_drop_append [a] hrest
      rw [need_of_le h (by simp), ok_bind, byte_of_drop hrest, ok_bind, byte_of_drop hamount]
      rfl
    all_goals
      rw [need_of_lt h (by simp)]
      rfl
  | wide => exact wide_eq h
  | tableSwitch => exact tableSwitch_eq h
  | lookupSwitch => exact lookupSwitch_eq h
  | reserved => exact d.walkReserved_eq h

/-! ## Whole arrays -/

/-- The instructions of steps over code that starts at `pc`, each switch having been told where it
stands. -/
def placements (pc : Nat) (steps : List Step) : List Placed :=
  (locate pc steps).flatMap fun p => p.2.placed p.1

/-- What a walk from `pc` on gives for steps and the error that ends them, if any. -/
def walked (pc : Nat) (steps : List Step) :
    Option DecodeError → Except (Halt DecodeError) (List Placed)
  | none => .ok (placements pc steps)
  | some e => .error (.refused e)

variable {d : Decoder}

/-- The walk takes the steps of the decoder, and ends where and how the decoder ends. -/
theorem Traces.walkFrom_eq {steps : List Step} {end? : Option DecodeError} {n : Nat}
    (h : d.Traces pc (code.drop pc) steps end?) (hn : code.length ≤ pc + n) :
    d.walkFrom code n pc = walked pc steps end? := by
  induction n generalizing pc steps with
  | zero =>
    rw [List.drop_eq_nil_iff.mpr (by omega)] at h
    cases h
    exact if_pos hn
  | succ n ih =>
    generalize hdrop : code.drop pc = window at h
    rw [walkFrom]
    cases h with
    | nil => exact if_pos (List.drop_eq_nil_iff.mp hdrop)
    | @fault _ byte rest cause step =>
      have hlength := length_of_drop hdrop
      have hwalk : d.walkStep code pc = (d.step pc ⟨byte⟩ rest).mapError .refused :=
        d.walkStep_eq hdrop
      rw [if_neg (by omega), hwalk, step]
      rfl
    | @cons _ byte rest s steps _ step more =>
      have hlength := length_of_drop hdrop
      have hpos := (step_sound step).1.size_pos
      have hrest : code.drop (pc + s.size) = rest.drop (s.size - 1) := by
        rw [← List.drop_drop, hdrop, ← Nat.sub_add_cancel hpos, List.drop_succ_cons,
          Nat.add_sub_cancel]
      rw [← hrest] at more
      have hwalk : d.walkStep code pc = (d.step pc ⟨byte⟩ rest).mapError .refused :=
        d.walkStep_eq hdrop
      rw [if_neg (by omega), hwalk, step, Except.mapError]
      dsimp only
      rw [ih more (by omega)]
      cases end? <;> rfl

/-- **Looking bytes up by their positions finds what the bytes say.** -/
theorem walk_eq (d : Decoder) (code : Bytes) :
    d.walk code = walked 0 (d.run code).1 (d.run code).2 :=
  (d.traces_run code).walkFrom_eq (Nat.le_add_left _ _)

/-- No byte is looked up where the array has none. -/
theorem walk_ne_outside (d : Decoder) (code : Bytes) (i : Nat) :
    d.walk code ≠ .error (.outside i) := by
  intro h
  rw [walk_eq] at h
  cases hend : (d.run code).2 with
  | none =>
    rw [hend] at h
    cases h
  | some e =>
    rw [hend] at h
    cases h

/-! ## What the instructions take -/

theorem map_insn_placed (s : Step) (pc : Nat) : (s.placed pc).map Placed.insn = s.insns := by
  rw [Step.placed, List.map_map]
  conv_rhs => rw [← List.map_id s.insns]
  exact List.map_congr_left fun insn _ => Placed.insn_told ⟨insn, 0⟩ pc

theorem map_insn_placements (pc : Nat) (steps : List Step) :
    (placements pc steps).map Placed.insn = steps.flatMap Step.insns := by
  induction steps generalizing pc with
  | nil => rfl
  | cons s steps ih =>
    rw [placements, locate, List.flatMap_cons, List.map_append, map_insn_placed, List.flatMap_cons,
      ← ih]
    rfl

/-- The instructions of a step take the bytes of the step. -/
theorem sum_size_placed {s : Step} (h : d.step pc op rest = .ok s) :
    ((s.placed pc).map Placed.size).sum = s.size := by
  by_cases hbreak : op.shape = .reserved ∧ op = d.profile.breakpoint
  · obtain ⟨hreserved, rfl⟩ := hbreak
    obtain ⟨hsize, hinsns⟩ := step_breakpoint hreserved h
    rw [Step.placed, hsize, hinsns]
    rfl
  · obtain ⟨insn, hinsn⟩ := step_single (fun hshape heq => hbreak ⟨hshape, heq⟩) h
    have hspan := (step_sound h).1.span_eq
    rw [hinsn] at hspan
    rw [Step.placed, hinsn, ← hspan]
    show (Placed.told ⟨insn, 0⟩ pc).size + 0 = insn.size pc + 0
    rw [Placed.size_told]

/-- **The instructions of a run take all bytes.** -/
theorem Runs.sum_size {steps : List Step} (h : Runs d pc code steps) :
    ((placements pc steps).map Placed.size).sum = code.length := by
  induction h with
  | nil pc => rfl
  | @cons pc byte rest s steps step more ih =>
    obtain ⟨-, -, hpos, hle⟩ := (step_sound step).1
    rw [List.length_drop] at ih
    rw [placements, locate, List.flatMap_cons, List.map_append, List.sum_append,
      sum_size_placed step, List.length_cons]
    show s.size + ((placements (pc + s.size) steps).map Placed.size).sum = _
    omega

end Decoder

end ClassPrune
