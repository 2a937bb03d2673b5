import ClassPrune.Text.Hex
import ClassPrune.Text.Printable

/-!
# Quoted text

Text between quotes, as messages and dumps show names and strings. A printable character stands
for itself; the quote and the backslash get a backslash; the seven named controls have their
letters; other controls below `0x80` are `\xhh`, and everything else is `\uhhhh` or `\Uhhhhhhhh`.

- `quote`: a string in double quotes.
- `quoteByte`: a byte, read as a code point, in single quotes.
-/

namespace ClassPrune.Text

/-- The letter that names a control character after a backslash. -/
def controlLetter? (n : Nat) : Option Char :=
  match n with
  | 7 => some 'a'
  | 8 => some 'b'
  | 9 => some 't'
  | 10 => some 'n'
  | 11 => some 'v'
  | 12 => some 'f'
  | 13 => some 'r'
  | _ => none

/-- One character of quoted text; `mark` is the quote around it. -/
def escapeChar (mark c : Char) : List Char :=
  if c = mark ∨ c = '\\' then ['\\', c]
  else if isPrintable c then [c]
  else match controlLetter? c.toNat with
    | some letter => ['\\', letter]
    | none =>
      if c.toNat < 0x20 ∨ c.toNat = 0x7F then '\\' :: 'x' :: (hex 2 c.toNat).toList
      else if c.toNat < 0x10000 then '\\' :: 'u' :: (hex 4 c.toNat).toList
      else '\\' :: 'U' :: (hex 8 c.toNat).toList

/-- `s` in double quotes. -/
def quote (s : String) : String :=
  String.ofList ('\"' :: (s.toList.flatMap (escapeChar '\"') ++ ['\"']))

/-- The character with code point `b`, in single quotes. -/
def quoteByte (b : UInt8) : String :=
  String.ofList ('\'' :: (escapeChar '\'' (Char.ofNat b.toNat) ++ ['\'']))

end ClassPrune.Text
