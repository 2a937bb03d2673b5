import ClassPrune.Text.ModifiedUtf8
import Mathlib.Tactic.SplitIfs

/-!
# Modified UTF-8 is read back

Reading is lenient, so bytes that are no spelling of anything are read as some text as well. What
a text is spelled as is nevertheless read back exactly, since no character is spelled as bytes that
the reader would join with those of the next one: only the first half of a surrogate pair looks
ahead, and a half alone is not a character.

- `decode_one`, `decode_two`, `decode_three`, `decode_pair`: the reader at the front of its input.
- `decode_encodeChar`: one character is read back, whatever follows it.
- `mem_encodeChar`: the bytes that occur in a spelling.
- `toString_ofString_canonical`: every string has one spelling, and any other bytes are read as a
  string with another spelling.
-/

namespace ClassPrune.ModifiedUtf8

theorem charOf_toNat (c : Char) : charOf c.toNat = c := by
  rw [charOf, if_pos (show c.toNat.isValidChar from c.valid)]
  exact Char.ofNat_toNat c

/-! ## Reading one character -/

/-- A byte below 0x80 is a character, -/
theorem decode_one {b : UInt8} (h : b.toNat < 0x80) (rest : Bytes) :
    decode (b :: rest) = charOf b.toNat :: decode rest := by
  rw [decode.eq_def]
  exact if_pos h

/-- and one from 0xC0 on leads a character of two bytes. -/
theorem decode_two {b : UInt8} (hlow : 0xC0 ≤ b.toNat) (hhigh : b.toNat < 0xE0) (c : UInt8)
    (rest : Bytes) : decode (b :: c :: rest) = charOf (point2 b c) :: decode rest := by
  rw [decode, if_neg (by omega), if_pos ⟨hlow, hhigh⟩]

/-- Without the first half of a pair, the reader does not look beyond the three bytes. -/
theorem decode_three {b c d : UInt8} (hlow : 0xE0 ≤ b.toNat) (hhigh : b.toNat < 0xF0)
    (halone : isHigh (point3 b c d) = false) (rest : Bytes) :
    decode (b :: c :: d :: rest) = charOf (point3 b c d) :: decode rest := by
  rw [decode, if_neg (by omega), if_neg (by omega), if_pos ⟨hlow, hhigh⟩]
  rcases rest with _ | ⟨e, _ | ⟨f, _ | ⟨g, rest⟩⟩⟩ <;> simp [halone]

/-- Two halves of a surrogate pair, of three bytes each, are joined to one character. -/
theorem decode_pair {b c d f g : UInt8} (hlow : 0xE0 ≤ b.toNat) (hhigh : b.toNat < 0xF0)
    (hfirst : isHigh (point3 b c d) = true) (hsecond : isLow (point3 0xED f g) = true)
    (rest : Bytes) : decode (b :: c :: d :: 0xED :: f :: g :: rest)
      = charOf (pairPoint (point3 b c d) (point3 0xED f g)) :: decode rest := by
  rw [decode, if_neg (by omega), if_neg (by omega), if_pos ⟨hlow, hhigh⟩]
  simp [hfirst, hsecond]

/-! ## Spelling one character -/

/-- The bits that are put into two bytes are found again, -/
theorem point2_ofNat {n : Nat} (h : n < 0x800) :
    point2 (UInt8.ofNat (0xC0 + n / 64)) (UInt8.ofNat (0x80 + n % 64)) = n := by
  simp only [point2, UInt8.toNat_ofNat']
  omega

/-- likewise for three bytes, -/
theorem point3_ofNat {n : Nat} (h : n < 0x10000) :
    point3 (UInt8.ofNat (0xE0 + n / 4096 % 16)) (UInt8.ofNat (0x80 + n / 64 % 64))
      (UInt8.ofNat (0x80 + n % 64)) = n := by
  simp only [point3, UInt8.toNat_ofNat']
  omega

/-- and for the halves of a pair. -/
theorem pairPoint_halves {n : Nat} (h : 0x10000 ≤ n) :
    pairPoint (0xD800 + (n - 0x10000) / 1024) (0xDC00 + (n - 0x10000) % 1024) = n := by
  unfold pairPoint
  omega

/-- The first of the three bytes of a code point. -/
theorem toNat_lead3 (n : Nat) :
    (UInt8.ofNat (0xE0 + n / 4096 % 16)).toNat = 0xE0 + n / 4096 % 16 := by
  rw [UInt8.toNat_ofNat']
  omega

/-- A character of three bytes is read back. The condition keeps it from being taken for the first
half of a pair. -/
theorem decode_encode3 {n : Nat} (h : n < 0x10000) (halone : isHigh n = false) (rest : Bytes) :
    decode (encode3 n ++ rest) = charOf n :: decode rest := by
  have hlead := toNat_lead3 n
  have hpoint := point3_ofNat h
  rw [encode3, List.cons_append, List.cons_append, List.singleton_append,
    decode_three (by omega) (by omega) (by rw [hpoint]; exact halone), hpoint]

theorem decode_encode3_pair {high low : Nat} (hhigh : isHigh high = true) (hlow : isLow low = true)
    (rest : Bytes) : decode (encode3 high ++ (encode3 low ++ rest))
      = charOf (pairPoint high low) :: decode rest := by
  have hhigh' : 0xD800 ≤ high ∧ high ≤ 0xDBFF := by simpa [isHigh] using hhigh
  have hlow' : 0xDC00 ≤ low ∧ low ≤ 0xDFFF := by simpa [isLow] using hlow
  have hlead := toNat_lead3 high
  have hpoint := point3_ofNat (n := high) (by omega)
  have hpoint' := point3_ofNat (n := low) (by omega)
  -- every second half starts with the byte that the reader looks for
  have hnext : UInt8.ofNat (0xE0 + low / 4096 % 16) = 0xED := by
    rw [show 0xE0 + low / 4096 % 16 = 0xED by omega]
    rfl
  rw [hnext] at hpoint'
  simp only [encode3, hnext, List.cons_append, List.nil_append]
  rw [decode_pair (by omega) (by omega) (by rw [hpoint]; exact hhigh)
    (by rw [hpoint']; exact hlow), hpoint, hpoint']

/-- **One character is read back, whatever follows it.** -/
theorem decode_encodeChar (c : Char) (rest : Bytes) :
    decode (encodeChar c ++ rest) = c :: decode rest := by
  have hvalid : c.toNat < 0xD800 ∨ 0xDFFF < c.toNat ∧ c.toNat < 0x110000 := c.valid
  have hback := charOf_toNat c
  rw [encodeChar]
  generalize c.toNat = n at hvalid hback ⊢
  split_ifs with hzero hascii htwo hthree
  · have hread := decode_two (b := 0xC0) (by decide) (by decide) 0x80 rest
    rw [show point2 0xC0 0x80 = n by rw [hzero]; decide, hback] at hread
    exact hread
  · have hn : (UInt8.ofNat n).toNat = n := by
      rw [UInt8.toNat_ofNat']
      omega
    have hread := decode_one (b := UInt8.ofNat n) (by omega) rest
    rw [hn, hback] at hread
    exact hread
  · have hlead : (UInt8.ofNat (0xC0 + n / 64)).toNat = 0xC0 + n / 64 := by
      rw [UInt8.toNat_ofNat']
      omega
    have hread := decode_two (b := UInt8.ofNat (0xC0 + n / 64)) (by omega) (by omega)
      (UInt8.ofNat (0x80 + n % 64)) rest
    rw [point2_ofNat htwo, hback] at hread
    exact hread
  · -- a character is no half of a pair
    have halone : isHigh n = false := by
      simp only [isHigh, Bool.and_eq_false_iff, decide_eq_false_iff_not]
      omega
    rw [decode_encode3 hthree halone, hback]
  · have hhigh : isHigh (0xD800 + (n - 0x10000) / 1024) = true := by
      simp only [isHigh, Bool.and_eq_true, decide_eq_true_eq]
      omega
    have hlow : isLow (0xDC00 + (n - 0x10000) % 1024) = true := by
      simp only [isLow, Bool.and_eq_true, decide_eq_true_eq]
      omega
    rw [List.append_assoc, decode_encode3_pair hhigh hlow, pairPoint_halves (by omega), hback]

/-- No byte of such a spelling is zero, and none is above 0xEF. -/
theorem mem_encode3 {n : Nat} {b : UInt8} (h : b ∈ encode3 n) : b ≠ 0 ∧ b < 0xF0 := by
  rw [ne_eq, ← UInt8.toNat_inj, UInt8.lt_iff_toNat_lt]
  simp only [encode3, List.mem_cons, List.not_mem_nil, or_false] at h
  rcases h with rfl | rfl | rfl <;> simp only [UInt8.toNat_ofNat', UInt8.reduceToNat] <;> omega

/-- No byte of a spelling is zero, and none is above those that the reader knows. -/
theorem mem_encodeChar {c : Char} {b : UInt8} (h : b ∈ encodeChar c) : b ≠ 0 ∧ b < 0xF0 := by
  rw [encodeChar] at h
  generalize c.toNat = n at h
  split_ifs at h with hzero hascii htwo hthree
  · simp only [List.mem_cons, List.not_mem_nil, or_false] at h
    rcases h with rfl | rfl <;> decide
  · obtain rfl := List.mem_singleton.mp h
    rw [ne_eq, ← UInt8.toNat_inj, UInt8.lt_iff_toNat_lt]
    simp only [UInt8.toNat_ofNat', UInt8.reduceToNat]
    omega
  · rw [ne_eq, ← UInt8.toNat_inj, UInt8.lt_iff_toNat_lt]
    simp only [List.mem_cons, List.not_mem_nil, or_false] at h
    rcases h with rfl | rfl <;> simp only [UInt8.toNat_ofNat', UInt8.reduceToNat] <;> omega
  · exact mem_encode3 h
  · rcases List.mem_append.mp h with h | h <;> exact mem_encode3 h

/-! ## Whole texts -/

/-- A text is read back character by character. -/
theorem decode_encode (text : List Char) : decode (encode text) = text := by
  induction text with
  | nil => rfl
  | cons c text ih =>
    show decode (encodeChar c ++ encode text) = c :: text
    rw [decode_encodeChar, ih]

theorem toString_ofString (s : String) : toString (ofString s) = s := by
  rw [toString, ofString, decode_encode, String.ofList_toList]

/-- **Every string is read back from what it is spelled as**, and no byte of a spelling is zero or
above `0xEF`. Of any other bytes, what is read is spelled otherwise, and read back from there. -/
theorem toString_ofString_canonical :
    (∀ s : String, toString (ofString s) = s ∧ ∀ b ∈ ofString s, b ≠ 0x00 ∧ ¬0xF0 ≤ b) ∧
    ∀ raw : Bytes, toString (ofString (toString raw)) = toString raw ∧
      (ofString (toString raw) = raw ↔ ∃ s, ofString s = raw) := by
  refine ⟨fun s => ⟨toString_ofString s, fun b hb => ?_⟩,
    fun raw => ⟨toString_ofString _, fun h => ⟨_, h⟩, ?_⟩⟩
  · obtain ⟨c, -, hc⟩ := List.mem_flatMap.mp hb
    obtain ⟨hzero, hlt⟩ := mem_encodeChar hc
    exact ⟨hzero, UInt8.not_le.mpr hlt⟩
  · rintro ⟨s, rfl⟩
    rw [toString_ofString]

/-- The null character, a character of two bytes, one of three and a surrogate pair. -/
example : ofString "\x00é€😀" = [0xC0, 0x80, 0xC3, 0xA9, 0xE2, 0x82, 0xAC, 0xED, 0xA0, 0xBD, 0xED,
    0xB8, 0x80] := by decide +kernel

end ClassPrune.ModifiedUtf8
