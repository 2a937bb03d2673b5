import ClassPrune.Dump.Describe
import Mathlib.Algebra.BigOperators.Group.List.Basic
import Mathlib.Algebra.GroupWithZero.Nat

/-!
# Newlines in text

Which pieces of output can break a line. Numbers, in whatever base or form, contain no newline, and
quoted text contains none whatever is quoted.

- `newlines`: how many newlines a text has.
- `Text.newlines_quote`: quoted text stays on its line.
- `Decimal.newlines_text`: so does a floating-point number.

Newlines are counted, and not only excluded, because the texts that a dump shows unquoted may have
some: then the count says how many lines there are too many.
-/

namespace ClassPrune

/-- The number of newlines in a text. -/
def newlines (s : String) : Nat := s.toList.count '\n'

/-- A text is on one line when the newline does not occur in it. -/
theorem newlines_eq_zero_iff {s : String} : newlines s = 0 ↔ '\n' ∉ s.toList :=
  List.count_eq_zero

@[simp] theorem newlines_append (s t : String) : newlines (s ++ t) = newlines s + newlines t := by
  rw [newlines, String.toList_append, List.count_append, newlines, newlines]

@[simp] theorem newlines_toString (s : String) : newlines (toString s) = newlines s := rfl

theorem newlines_ofList {l : List Char} (h : '\n' ∉ l) : newlines (String.ofList l) = 0 := by
  rw [newlines_eq_zero_iff, String.toList_ofList]
  exact h

/-- The newlines of joined texts are those of the texts. -/
theorem newlines_join (l : List String) : newlines (String.join l) = (l.map newlines).sum := by
  rw [newlines, String.toList_join, List.count_flatMap]
  rfl

/-- A separator without newlines adds none. -/
theorem newlines_intercalate {separator : String} (h : newlines separator = 0) (l : List String) :
    newlines (separator.intercalate l) = (l.map newlines).sum := by
  induction l with
  | nil => simp [newlines]
  | cons s l ih =>
    cases l with
    | nil => simp
    | cons t l =>
      rw [String.intercalate_cons_cons, newlines_append, newlines_append, h, ih, Nat.add_zero]
      rfl

/-! ## Numbers -/

/-- The digits of a number are digits, in any base. -/
theorem newline_not_mem_toDigits {base : Nat} (hbase : 1 < base) (n : Nat) :
    '\n' ∉ Nat.toDigits base n := by
  induction n using Nat.strongRecOn with
  | ind n ih =>
    rw [Nat.toDigits_eq_if hbase]
    split
    · rw [List.mem_singleton]
      exact (Nat.digitChar_ne '\n' rfl).symm
    · rename_i hle
      rw [List.mem_append, List.mem_singleton, not_or]
      exact ⟨ih _ (Nat.div_lt_self (by omega) hbase), (Nat.digitChar_ne '\n' rfl).symm⟩

@[simp] theorem newlines_repr_nat (n : Nat) : newlines n.repr = 0 := by
  rw [Nat.repr_eq_ofList_toDigits]
  exact newlines_ofList (newline_not_mem_toDigits (by decide) n)

@[simp] theorem newlines_repr_int (n : Int) : newlines n.repr = 0 := by
  cases n with
  | ofNat n => exact newlines_repr_nat n
  | negSucc n =>
    show newlines ("-" ++ (n + 1).repr) = 0
    rw [newlines_append, newlines_repr_nat]
    rfl

namespace Text

@[simp] theorem newlines_hex (width n : Nat) : newlines (hex width n) = 0 := by
  refine newlines_ofList ?_
  rw [List.mem_append, not_or]
  exact ⟨by simp [List.mem_replicate], newline_not_mem_toDigits (by decide) n⟩

theorem newline_not_mem_hex (width n : Nat) : '\n' ∉ (hex width n).toList :=
  newlines_eq_zero_iff.mp (newlines_hex width n)

/-! ## Quoted text -/

/-- The newline is not printable, so quoting escapes it, -/
theorem isPrintable_newline : isPrintable '\n' = false := by decide +kernel

/-- and what it is escaped as has no newline either. -/
theorem controlLetter?_ne {n : Nat} {letter : Char} (h : controlLetter? n = some letter) :
    '\n' ≠ letter := by
  unfold controlLetter? at h
  split at h <;> cases h <;> decide

/-- Whatever the character, what stands for it is on one line. -/
theorem newline_not_mem_escapeChar {mark : Char} (hmark : mark ≠ '\n') (c : Char) :
    '\n' ∉ escapeChar mark c := by
  unfold escapeChar
  split
  · rename_i hc
    rcases hc with rfl | rfl
    · simp [hmark.symm]
    · decide
  · split
    · rename_i hprintable
      rw [List.mem_singleton]
      rintro rfl
      rw [isPrintable_newline] at hprintable
      cases hprintable
    · cases hletter : controlLetter? c.toNat with
      | some letter => simp [controlLetter?_ne hletter]
      | none =>
        dsimp only
        split_ifs <;> simp [newline_not_mem_hex]

/-- **Quoted text has no newline.** -/
@[simp] theorem newlines_quote (s : String) : newlines (quote s) = 0 := by
  refine newlines_ofList ?_
  simp only [List.mem_cons, List.mem_append, List.mem_flatMap, not_or, not_exists, not_and]
  exact ⟨by decide, fun c _ => newline_not_mem_escapeChar (by decide) c, by simp⟩

end Text

/-! ## Floating-point numbers -/

namespace Decimal

/-- A number with an exponent: digits, a point, signs and a letter. -/
theorem newline_not_mem_scientific {digits : List Char} (h : '\n' ∉ digits) (exponent : Int) :
    '\n' ∉ scientific digits exponent := by
  have htail : '\n' ∉ digits.tail := fun hmem => h (List.mem_of_mem_tail hmem)
  have htake : '\n' ∉ digits.take 1 := fun hmem => h (List.mem_of_mem_take hmem)
  have hpower : '\n' ∉ digitChars exponent.natAbs := newline_not_mem_toDigits (by decide) _
  unfold scientific
  cases hfraction : digits.tail with
  | nil => split_ifs <;> simp [htake, hpower, List.mem_replicate]
  | cons d more =>
    rw [hfraction, List.mem_cons, not_or] at htail
    split_ifs <;> simp [htake, hpower, List.mem_replicate, htail]

theorem newline_not_mem_positional {digits : List Char} (h : '\n' ∉ digits) (exponent : Int) :
    '\n' ∉ positional digits exponent := by
  have htake (n : Nat) : '\n' ∉ digits.take n := fun hmem => h (List.mem_of_mem_take hmem)
  have hdrop (n : Nat) : '\n' ∉ digits.drop n := fun hmem => h (List.mem_of_mem_drop hmem)
  unfold positional
  split
  · simp [h, List.mem_replicate]
  · have hrest := hdrop (exponent.toNat + 1)
    cases hfraction : digits.drop (exponent.toNat + 1) with
    | nil => simp [hfraction, htake, List.mem_replicate]
    | cons d more =>
      rw [hfraction, List.mem_cons, not_or] at hrest
      simp [hfraction, htake, List.mem_replicate, hrest]

theorem newline_not_mem_layout (d : Scaled) : '\n' ∉ layout d := by
  have hdigits : '\n' ∉ digitChars d.digits := newline_not_mem_toDigits (by decide) _
  unfold layout
  dsimp only
  split
  · exact newline_not_mem_scientific hdigits _
  · exact newline_not_mem_positional hdigits _

/-- **The text of a floating-point number has no newline.** -/
@[simp] theorem newlines_text (f : Format) (bits : Nat) : newlines (f.text bits) = 0 := by
  unfold Format.text
  split
  · rfl
  · split <;> rfl
  · split <;> rfl
  · refine newlines_ofList ?_
    split <;> simp [newline_not_mem_layout]

end Decimal

end ClassPrune
