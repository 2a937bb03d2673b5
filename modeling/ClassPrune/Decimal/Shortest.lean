/-!
# Shortest decimals

The decimal with the fewest digits that still identifies a binary floating-point number.

- `Binary`: a positive number `mantissa * 2 ^ exponent`, and whether its lower neighbour is only
  half as far away as its upper one.
- `Binary.readsBack`: the decimals that round to the number: those at most half way to its
  neighbours, the ends included when the mantissa is even.
- `Binary.shortest`: the grids of decimals are tried from coarse to fine. On each grid only the
  two neighbours of the number can be meant; the first grid with a hit wins, of two hits the
  nearer one, and of two equally near ones the even one.
-/

namespace ClassPrune.Decimal

/-- A positive number `mantissa * 2 ^ exponent`. -/
structure Binary where
  mantissa : Nat
  exponent : Int
  /-- The number is the least of its binade, so the next lower number is nearer. -/
  lowerNear : Bool
  deriving DecidableEq, Repr

/-- A positive number `digits * 10 ^ exponent`. -/
structure Scaled where
  digits : Nat
  exponent : Int
  deriving DecidableEq, Repr

namespace Binary

/-- Compares a quarter-scaled binary number with a decimal: both sides of
`quarters * 2 ^ (exponent - 2)` and `digits * 10 ^ k` as naturals. -/
def sides (b : Binary) (quarters : Nat) (d : Scaled) : Nat × Nat :=
  let shift := b.exponent - 2
  (quarters * Nat.pow 2 shift.toNat * Nat.pow 10 (-d.exponent).toNat,
    d.digits * Nat.pow 10 d.exponent.toNat * Nat.pow 2 (-shift).toNat)

/-- The number of quarters of the last place half way to the lower neighbour. -/
def lowerEnd (b : Binary) : Nat :=
  if b.lowerNear then 4 * b.mantissa - 1 else 4 * b.mantissa - 2

/-- The number of quarters of the last place half way to the upper neighbour. -/
def upperEnd (b : Binary) : Nat := 4 * b.mantissa + 2

/-- Whether a decimal rounds to the number. -/
def readsBack (b : Binary) (d : Scaled) : Bool :=
  let (low, value) := b.sides b.lowerEnd d
  let (high, value') := b.sides b.upperEnd d
  if b.mantissa % 2 = 0 then low ≤ value && value' ≤ high else low < value && value' < high

/-- The neighbours of the number among the multiples of `10 ^ k`, and by how much each is off,
the lower one first. -/
def neighbours (b : Binary) (k : Int) : (Nat × Nat) × (Nat × Nat) :=
  let (value, unit) := b.sides (4 * b.mantissa) ⟨1, k⟩
  let q := value / unit
  ((q, value - q * unit), (q + 1, (q + 1) * unit - value))

/-- The multiple of `10 ^ k` that stands for the number, if one does. -/
def onGrid? (b : Binary) (k : Int) : Option Scaled :=
  let ((below, down), (above, up)) := b.neighbours k
  let lower : Scaled := ⟨below, k⟩
  let upper : Scaled := ⟨above, k⟩
  match b.readsBack lower, b.readsBack upper with
  | true, true =>
    if down < up || (down = up && below % 2 = 0) then some lower else some upper
  | true, false => some lower
  | false, true => some upper
  | false, false => none

/-- Tries the grids `10 ^ k`, `10 ^ (k - 1)` and so on, `steps` of them. -/
def search (b : Binary) : (steps : Nat) → (k : Int) → Option Scaled
  | 0, _ => none
  | steps + 1, k =>
    match b.onGrid? k with
    | some d => some d
    | none => b.search steps (k - 1)

/-- A power of ten at least as large as the number, by the number of its bits: ten is more than
eight and less than sixteen. -/
def startGrid (b : Binary) : Int :=
  let bits : Int := b.mantissa.log2 + 1 + b.exponent
  if bits ≥ 0 then bits / 3 + 1 else -((-bits) / 4) + 1

/-- Moves trailing zeros of the digits into the exponent. -/
def strip : (steps : Nat) → Scaled → Scaled
  | 0, d => d
  | steps + 1, d =>
    if d.digits ≠ 0 ∧ d.digits % 10 = 0 then strip steps ⟨d.digits / 10, d.exponent + 1⟩ else d

/-- The decimal with the fewest digits that identifies the number. The grids reach far below the
last place of any number of at most 64 bits; the number itself stands in for a grid that is
never needed. -/
def shortest (b : Binary) : Scaled :=
  let found := b.search (400 + b.startGrid.natAbs) b.startGrid
  strip 400 (found.getD ⟨b.mantissa * Nat.pow 2 b.exponent.toNat, 0⟩)

end Binary

end ClassPrune.Decimal
