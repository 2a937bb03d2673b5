import ClassPrune.Toml.Quoted

/-!
# Numbers and moments in settings

Which words are numbers, and which are dates, times or both. The program uses none of them, so
they are tested and kept as they are written.
-/

namespace ClassPrune.Toml

/-! ## Numbers -/

/-- Digits, in which a single underscore may stand between two of them. -/
def isDigitRun (digit : Char → Bool) : List Char → Bool
  | [] => false
  | [c] => digit c
  | c :: '_' :: rest => digit c && isDigitRun digit rest
  | c :: rest => digit c && isDigitRun digit rest

/-- The value of digits in a base, underscores not counted. -/
def digitsValue (base : Nat) (digits : List Char) : Nat :=
  digits.foldl (fun n c => match Text.hexDigit? c with
    | some d => n * base + d
    | none => n) 0

/-- Whether a word of digits has a zero in front that does not stand alone. -/
def hasLeadingZero (digits : List Char) : Bool :=
  match digits with
  | '0' :: _ :: _ => true
  | _ => false

/-- A word without the sign in front of it. -/
def dropSign : List Char → List Char
  | '+' :: rest => rest
  | '-' :: rest => rest
  | word => word

/-- The least natural number that is no signed number of sixty-four bits. -/
def int64Bound : Nat := 0x8000000000000000

/-- A whole number without a sign in base two, eight or sixteen. -/
def isBasedInteger (base : Nat) (digits : List Char) : Bool :=
  isDigitRun (fun c => (Text.hexDigit? c).any (· < base)) digits
    && digitsValue base digits < int64Bound

/-- A whole number of at most sixty-four bits, the sign included. -/
def isInteger (word : List Char) : Bool :=
  match word with
  | '0' :: 'x' :: digits => isBasedInteger 16 digits
  | '0' :: 'o' :: digits => isBasedInteger 8 digits
  | '0' :: 'b' :: digits => isBasedInteger 2 digits
  | _ =>
    let digits := dropSign word
    let bound := if word.head? = some '-' then int64Bound + 1 else int64Bound
    isDigitRun Char.isDigit digits && !hasLeadingZero digits && digitsValue 10 digits < bound

/-- Whether `mantissa * 10 ^ exponent` rounds to a finite double-precision number. -/
def isFinite (mantissa : Nat) (exponent : Int) : Bool :=
  let size : Int := (Nat.toDigits 10 mantissa).length + exponent
  let bound : Nat := Nat.pow 2 1024 - Nat.pow 2 970
  if mantissa = 0 ∨ size < 300 then true
  else if size > 320 then false
  else if exponent ≥ 0 then mantissa * Nat.pow 10 exponent.toNat < bound
  else mantissa < bound * Nat.pow 10 (-exponent).toNat

/-- The value of a signed exponent. -/
def exponentValue (word : List Char) : Int :=
  let n : Int := digitsValue 10 (dropSign word)
  if word.head? = some '-' then -n else n

/-- A number with a fraction, an exponent or both. -/
def isFraction (word : List Char) : Bool :=
  let body := dropSign word
  let isMark (c : Char) : Bool := c = 'e' || c = 'E'
  let mantissa := body.takeWhile fun c => !isMark c
  let exponent := (body.dropWhile fun c => !isMark c)
  let whole := mantissa.takeWhile (· != '.')
  let fraction := mantissa.dropWhile (· != '.')
  let digits := fraction.drop 1
  isDigitRun Char.isDigit whole && !hasLeadingZero whole
    && (fraction.isEmpty || isDigitRun Char.isDigit digits)
    && (exponent.isEmpty || isDigitRun Char.isDigit (dropSign (exponent.drop 1)))
    && !(fraction.isEmpty && exponent.isEmpty)
    && isFinite (digitsValue 10 (whole ++ digits))
      (exponentValue (exponent.drop 1) - (digits.filter Char.isDigit).length)

/-- The words for numbers that are not finite. -/
def isSpecialNumber (word : List Char) : Bool :=
  dropSign word = ['i', 'n', 'f'] || dropSign word = ['n', 'a', 'n']

/-- A number. -/
def isNumber (word : List Char) : Bool :=
  isInteger word || isFraction word || isSpecialNumber word

/-! ## Moments -/

/-- How many days a month has. -/
def daysIn (year month : Nat) : Nat :=
  match month with
  | 2 => if year % 4 = 0 ∧ (year % 100 ≠ 0 ∨ year % 400 = 0) then 29 else 28
  | 4 | 6 | 9 | 11 => 30
  | _ => 31

/-- Whether digits alone make a number below a bound. -/
def isBelow (bound : Nat) (digits : List Char) : Bool :=
  digits.all Char.isDigit && digitsValue 10 digits < bound

/-- A date: year, month and day. -/
def isDate : List Char → Bool
  | [a, b, c, d, '-', e, f, '-', g, h] =>
    let year := [a, b, c, d]
    let month := [e, f]
    let day := [g, h]
    let monthValue := digitsValue 10 month
    isBelow 10000 year && isBelow 13 month && 1 ≤ monthValue
      && isBelow (daysIn (digitsValue 10 year) monthValue + 1) day && 1 ≤ digitsValue 10 day
  | _ => false

/-- Hours, minutes and, if there are any, seconds with their fraction. -/
def isTime : List Char → Bool
  | [a, b, ':', c, d] => isBelow 24 [a, b] && isBelow 60 [c, d]
  | a :: b :: ':' :: c :: d :: ':' :: e :: f :: fraction =>
    isBelow 24 [a, b] && isBelow 60 [c, d] && isBelow 60 [e, f]
      && (match fraction with
        | [] => true
        | '.' :: digits => !digits.isEmpty && digits.all Char.isDigit
        | _ => false)
  | _ => false

/-- The distance of a time from universal time. -/
def isOffset : List Char → Bool
  | [z] => z = 'Z' || z = 'z'
  | [sign, a, b, ':', c, d] =>
    (sign = '+' || sign = '-') && isBelow 25 [a, b] && isBelow 61 [c, d]
  | _ => false

/-- A time that may have an offset behind it. -/
def isZonedTime (word : List Char) : Bool :=
  let marks := ['Z', 'z', '+', '-']
  let time := word.takeWhile fun c => !marks.contains c
  let offset := word.drop time.length
  isTime time && (offset.isEmpty || isOffset offset)

/-- A date, a time, or both with a letter between them. -/
def isMoment (word : List Char) : Bool :=
  isDate word || isTime word ||
    (isDate (word.take 10) && (match word.drop 10 with
      | separator :: time => (separator = 'T' || separator = 't') && isZonedTime time
      | [] => false))

/-! ## Words -/

/-- A character of a word without quotes. -/
def isWordChar (c : Char) : Bool := c.isAlphanum || ['_', '+', '-', '.', ':'].contains c

/-- A word without quotes. A date and the time after a single space are one word. -/
def bareWord : Scan (List Char) := fun text =>
  let word := text.takeWhile isWordChar
  let rest := text.drop word.length
  match isDate word, rest with
  | true, ' ' :: c :: more =>
    if c.isDigit then
      let time := (c :: more).takeWhile isWordChar
      some (word ++ 'T' :: time, (c :: more).drop time.length)
    else some (word, rest)
  | _, _ => some (word, rest)

end ClassPrune.Toml
