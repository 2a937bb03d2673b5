import ClassPrune.Decimal.Shortest

/-!
# Floating-point numbers as text

The text of a floating-point constant: the fewest digits that identify it, positionally when the
decimal exponent of the first digit is from -4 to 5, and otherwise with a signed exponent of at
least two digits. Zero keeps its sign; the special values are `NaN`, `+Inf` and `-Inf`.
-/

namespace ClassPrune.Decimal

/-- An interchange format: how many bits of fraction and of exponent it has. -/
structure Format where
  fractionBits : Nat
  exponentBits : Nat
  deriving DecidableEq, Repr

/-- Single precision. -/
def single : Format := ⟨23, 8⟩

/-- Double precision. -/
def double : Format := ⟨52, 11⟩

/-- What the bits of a number mean. -/
inductive Meaning where
  | nan
  | infinite (negative : Bool)
  | zero (negative : Bool)
  | finite (negative : Bool) (value : Binary)
  deriving DecidableEq, Repr

/-- The meaning of the bits of a number in a format. -/
def Format.meaning (f : Format) (bits : Nat) : Meaning :=
  let fractions := Nat.pow 2 f.fractionBits
  let exponents := Nat.pow 2 f.exponentBits
  let fraction := bits % fractions
  let exponent := bits / fractions % exponents
  let negative := bits / fractions / exponents % 2 = 1
  let least : Int := 2 - (exponents / 2 : Nat) - f.fractionBits
  if exponent = exponents - 1 then
    if fraction = 0 then .infinite negative else .nan
  else if exponent = 0 then
    if fraction = 0 then .zero negative else .finite negative ⟨fraction, least, false⟩
  else
    .finite negative
      ⟨fractions + fraction, least + (exponent - 1), fraction = 0 && exponent > 1⟩

/-- The digits of a number. -/
def digitChars (n : Nat) : List Char := Nat.toDigits 10 n

/-- A decimal with an exponent: one digit, the others behind a point, and the power of ten. -/
def scientific (digits : List Char) (exponent : Int) : List Char :=
  let fraction := match digits.tail with
    | [] => []
    | more => '.' :: more
  let power := digitChars exponent.natAbs
  let padding := List.replicate (2 - power.length) '0'
  digits.take 1 ++ fraction ++ 'e' :: (if exponent < 0 then '-' else '+') :: (padding ++ power)

/-- A decimal without an exponent; `exponent` is that of the first digit. -/
def positional (digits : List Char) (exponent : Int) : List Char :=
  if exponent < 0 then
    '0' :: '.' :: (List.replicate (exponent.natAbs - 1) '0' ++ digits)
  else
    let whole := exponent.toNat + 1
    let front := digits.take whole
    let fraction := match digits.drop whole with
      | [] => []
      | more => '.' :: more
    front ++ List.replicate (whole - front.length) '0' ++ fraction

/-- The text of a decimal. -/
def layout (d : Scaled) : List Char :=
  let digits := digitChars d.digits
  let exponent := d.exponent + (digits.length - 1)
  if exponent < -4 ∨ exponent ≥ 6 then scientific digits exponent else positional digits exponent

/-- The text of the number with the given bits. -/
def Format.text (f : Format) (bits : Nat) : String :=
  match f.meaning bits with
  | .nan => "NaN"
  | .infinite negative => if negative then "-Inf" else "+Inf"
  | .zero negative => if negative then "-0" else "0"
  | .finite negative value =>
    String.ofList ((if negative then ['-'] else []) ++ layout value.shortest)

end ClassPrune.Decimal
