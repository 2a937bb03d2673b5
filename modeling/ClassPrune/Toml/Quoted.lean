import ClassPrune.Text.Hex
import ClassPrune.Toml.Scan

/-!
# Quoted text in settings

Four kinds of quoted text: in double quotes with escapes or in single quotes without, on one
line or, between triple quotes, on many.
-/

namespace ClassPrune.Toml

/-- The character whose code point is written in `width` hexadecimal digits. -/
def codePoint (width : Nat) : Scan Char := fun text => do
  let digits := text.take width
  guard (digits.length = width)
  let n ← Text.hexNumber? digits
  guard n.isValidChar
  return (Char.ofNat n, text.drop width)

/-- What follows a backslash. -/
def escape : Scan Char
  | 'b' :: rest => some ('\x08', rest)
  | 't' :: rest => some ('\t', rest)
  | 'n' :: rest => some ('\n', rest)
  | 'f' :: rest => some ('\x0c', rest)
  | 'r' :: rest => some ('\r', rest)
  | 'e' :: rest => some ('\x1b', rest)
  | '\"' :: rest => some ('\"', rest)
  | '\\' :: rest => some ('\\', rest)
  | 'x' :: rest => codePoint 2 rest
  | 'u' :: rest => codePoint 4 rest
  | 'U' :: rest => codePoint 8 rest
  | _ => none

/-- One line with escapes, up to the closing quote. Every step takes at least one character. -/
def basicChars : (steps : Nat) → Scan (List Char)
  | 0 => failure
  | steps + 1 => fun text =>
    match text with
    | [] => none
    | '\"' :: rest => some ([], rest)
    | '\\' :: rest => do
      let (c, rest) ← escape rest
      let (cs, rest) ← basicChars steps rest
      return (c :: cs, rest)
    | c :: rest =>
      if isNewline c then none
      else do
        let (cs, rest) ← basicChars steps rest
        return (c :: cs, rest)

/-- One line without escapes, up to the closing quote. -/
def literalChars : Scan (List Char) := do
  let body ← Scan.run (· != '\'')
  guard (!body.any isNewline)
  Scan.char '\''
  return body

/-- A run of quotes inside a text between triple quotes: fewer than three belong to the text. The
last three of a longer run end it, those before belong to it, and a run longer than `most` is
refused. Gives the quotes that belong to the text and whether it ends there. -/
def quoteRun? (most length : Nat) : Option (Nat × Bool) :=
  if length < 3 then some (length, false)
  else if length ≤ most then some (length - 3, true)
  else none

/-- The longest run of quotes that may end a text: two and the three that close it. -/
def longestRun : Nat := 5

/-- The longest run of quotes that may end a text after what follows a backslash: one more is
taken right behind a second backslash. -/
def longestRunAfter : List Char → Nat
  | '\\' :: _ => longestRun + 1
  | _ => longestRun

/-- Many lines with escapes. A backslash at the end of a line also removes the blanks and ends of
line that follow. A run of quotes at the front may have length `most`. -/
def multiBasicChars : (steps most : Nat) → Scan (List Char)
  | 0, _ => failure
  | steps + 1, most => fun text =>
    match text with
    | [] => none
    | '\"' :: _ => do
      let quotes := text.takeWhile (· = '\"')
      let rest := text.dropWhile (· = '\"')
      let (count, ends) ← quoteRun? most quotes.length
      if ends then return (List.replicate count '\"', rest)
      let (cs, rest) ← multiBasicChars steps longestRun rest
      return (List.replicate count '\"' ++ cs, rest)
    | '\\' :: rest => do
      let blanks := rest.takeWhile fun c => isBlank c || isNewline c
      if blanks.contains '\n' then multiBasicChars steps longestRun (rest.drop blanks.length)
      else
        let most := longestRunAfter rest
        let (c, rest) ← escape rest
        let (cs, rest) ← multiBasicChars steps most rest
        return (c :: cs, rest)
    | c :: rest => do
      let (cs, rest) ← multiBasicChars steps longestRun rest
      return (c :: cs, rest)

/-- Many lines without escapes. -/
def multiLiteralChars : (steps : Nat) → Scan (List Char)
  | 0 => failure
  | steps + 1 => fun text =>
    match text with
    | [] => none
    | '\'' :: _ => do
      let quotes := text.takeWhile (· = '\'')
      let rest := text.dropWhile (· = '\'')
      let (count, ends) ← quoteRun? longestRun quotes.length
      if ends then return (List.replicate count '\'', rest)
      let (cs, rest) ← multiLiteralChars steps rest
      return (List.replicate count '\'' ++ cs, rest)
    | c :: rest => do
      let (cs, rest) ← multiLiteralChars steps rest
      return (c :: cs, rest)

/-- An end of line right after the opening triple quote does not count. -/
def dropFirstNewline : List Char → List Char
  | '\n' :: rest => rest
  | '\r' :: '\n' :: rest => rest
  | text => text

/-- A quoted text on one line. -/
def quotedLine : Scan String := fun text =>
  match text with
  | '\"' :: rest => (basicChars text.length rest).map fun (cs, rest) => (String.ofList cs, rest)
  | '\'' :: rest => (literalChars rest).map fun (cs, rest) => (String.ofList cs, rest)
  | _ => none

/-- A quoted text of any kind. -/
def quotedText : Scan String := fun text =>
  match text with
  | '\"' :: '\"' :: '\"' :: rest =>
    (multiBasicChars text.length longestRun (dropFirstNewline rest)).map fun (cs, rest) =>
      (String.ofList cs, rest)
  | '\'' :: '\'' :: '\'' :: rest =>
    (multiLiteralChars text.length (dropFirstNewline rest)).map fun (cs, rest) =>
      (String.ofList cs, rest)
  | _ => quotedLine text

end ClassPrune.Toml
