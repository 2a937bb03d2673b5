import ClassPrune.Bytes

/-!
# Words and their bytes

A word is recovered from its bytes and its bytes from the word, for every width. All that reading
and writing need of the numbers behind the words is stated here; later modules treat words as
opaque.

- `ofU2_toU2`, `ofU4_toU4`, `ofU8_toU8`: the bytes of a word that was made of bytes.
- `toU2_ofNat`, `toU4_ofNat`, `toU8_ofNat`: the word that is made of the bytes of a word.
- `split?_eq_some_iff`: cutting a number of bytes off the front.
-/

namespace ClassPrune.Bytes

/-! ## Two bytes -/

/-- The first byte is the more significant one. -/
theorem toNat_toU2 (a b : UInt8) : (toU2 a b).toNat = a.toNat * 256 + b.toNat := by
  have ha := a.toNat_lt
  have hb := b.toNat_lt
  rw [toU2, UInt16.toNat_ofNat', Nat.mod_eq_of_lt (by omega)]

/-- A word that was made of two bytes is written as them, -/
@[simp] theorem ofU2_toU2 (a b : UInt8) : ofU2 (toU2 a b) = [a, b] := by
  have ha := a.toNat_lt
  have hb := b.toNat_lt
  rw [ofU2, toNat_toU2]
  congr 1
  · apply UInt8.toNat_inj.mp
    rw [UInt8.toNat_ofNat']
    omega
  · congr 1
    apply UInt8.toNat_inj.mp
    rw [UInt8.toNat_ofNat']
    omega

/-- and two bytes that a word was written as make that word again. -/
@[simp] theorem toU2_ofNat (v : UInt16) :
    toU2 (UInt8.ofNat (v.toNat / 256)) (UInt8.ofNat v.toNat) = v := by
  have hv := v.toNat_lt
  apply UInt16.toNat_inj.mp
  rw [toNat_toU2, UInt8.toNat_ofNat', UInt8.toNat_ofNat']
  omega

@[simp] theorem length_ofU2 (v : UInt16) : (ofU2 v).length = 2 := rfl

/-! ## Four bytes -/

/-- Four bytes, the most significant one first. -/
theorem toNat_toU4 (a b c d : UInt8) :
    (toU4 a b c d).toNat
      = ((a.toNat * 256 + b.toNat) * 256 + c.toNat) * 256 + d.toNat := by
  have ha := a.toNat_lt
  have hb := b.toNat_lt
  have hc := c.toNat_lt
  have hd := d.toNat_lt
  rw [toU4, UInt32.toNat_ofNat', Nat.mod_eq_of_lt (by omega)]

@[simp] theorem ofU4_toU4 (a b c d : UInt8) : ofU4 (toU4 a b c d) = [a, b, c, d] := by
  have ha := a.toNat_lt
  have hb := b.toNat_lt
  have hc := c.toNat_lt
  have hd := d.toNat_lt
  have hbyte : ∀ (n : Nat) (x : UInt8), n % 256 = x.toNat → UInt8.ofNat n = x := by
    intro n x h
    apply UInt8.toNat_inj.mp
    rw [UInt8.toNat_ofNat']
    exact h
  rw [ofU4, toNat_toU4, hbyte _ a (by omega), hbyte _ b (by omega), hbyte _ c (by omega),
    hbyte _ d (by omega)]

@[simp] theorem toU4_ofNat (v : UInt32) :
    toU4 (UInt8.ofNat (v.toNat / 16777216)) (UInt8.ofNat (v.toNat / 65536))
      (UInt8.ofNat (v.toNat / 256)) (UInt8.ofNat v.toNat) = v := by
  have hv := v.toNat_lt
  apply UInt32.toNat_inj.mp
  rw [toNat_toU4, UInt8.toNat_ofNat', UInt8.toNat_ofNat', UInt8.toNat_ofNat', UInt8.toNat_ofNat']
  omega

@[simp] theorem length_ofU4 (v : UInt32) : (ofU4 v).length = 4 := rfl

/-! ## Eight bytes -/

/-- Eight bytes are two words of four bytes, the more significant one first. -/
@[simp] theorem ofU8_toU8 (upper lower : UInt32) :
    ofU8 (toU8 upper lower) = ofU4 upper ++ ofU4 lower := by
  have hu := upper.toNat_lt
  have hl := lower.toNat_lt
  have hw : (toU8 upper lower).toNat = upper.toNat * 4294967296 + lower.toNat := by
    rw [toU8, UInt64.toNat_ofNat', Nat.mod_eq_of_lt (by omega)]
  have hupper : UInt32.ofNat ((upper.toNat * 4294967296 + lower.toNat) / 4294967296) = upper := by
    apply UInt32.toNat_inj.mp
    rw [UInt32.toNat_ofNat']
    omega
  have hlower : UInt32.ofNat (upper.toNat * 4294967296 + lower.toNat) = lower := by
    apply UInt32.toNat_inj.mp
    rw [UInt32.toNat_ofNat']
    omega
  rw [ofU8, hw, hupper, hlower]

@[simp] theorem toU8_ofNat (v : UInt64) :
    toU8 (UInt32.ofNat (v.toNat / 4294967296)) (UInt32.ofNat v.toNat) = v := by
  have hv := v.toNat_lt
  apply UInt64.toNat_inj.mp
  rw [toU8, UInt64.toNat_ofNat', UInt32.toNat_ofNat', UInt32.toNat_ofNat']
  omega

/-! ## Cutting -/

/-- Cutting succeeds exactly when there are enough bytes, and loses none of them. -/
theorem split?_eq_some_iff {n : Nat} {bytes front rest : Bytes} :
    split? n bytes = some (front, rest) ↔ bytes = front ++ rest ∧ front.length = n := by
  rw [split?]
  constructor
  · intro h
    by_cases hlen : (bytes.take n).length = n
    · rw [if_pos hlen] at h
      obtain ⟨rfl, rfl⟩ := Prod.mk.inj (Option.some.inj h)
      exact ⟨(List.take_append_drop n bytes).symm, hlen⟩
    · rw [if_neg hlen] at h
      cases h
  · rintro ⟨rfl, rfl⟩
    simp

/-- Cutting fails when there are too few bytes. -/
theorem length_lt_of_split? {n : Nat} {bytes : Bytes} (h : split? n bytes = none) :
    bytes.length < n := by
  refine Nat.lt_of_not_le fun hle => ?_
  have hlen : (bytes.take n).length = n := List.length_take_of_le hle
  rw [split?, if_pos hlen] at h
  cases h

end ClassPrune.Bytes
