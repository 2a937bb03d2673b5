import ClassPrune.Toml.Scalar

/-!
# The syntax of settings

A settings file is a list of statements: headers of tables and of list elements, and pairs of a
dotted key and a value.

- `Literal`, `Statement`: what can be written.
- `readStatements?`: the statements of a text.
-/

namespace ClassPrune.Toml

/-- The parts of a dotted key. -/
abbrev Path := List String

/-- A written value. -/
inductive Literal where
  | text (value : String)
  | boolean (value : Bool)
  | number (word : String)
  | moment (word : String)
  | array (items : List Literal)
  | table (pairs : List (Path × Literal))

/-- One statement of a file. -/
inductive Statement where
  /-- Opens a table. -/
  | header (path : Path)
  /-- Opens a new table at the end of a list. -/
  | element (path : Path)
  | pair (path : Path) (value : Literal)

/-! ## Keys -/

/-- A character of a key without quotes. -/
def isKeyChar (c : Char) : Bool := c.isAlphanum || c = '_' || c = '-'

/-- One part of a key. -/
def keyPart : Scan String := do
  match ← Scan.peek with
  | some '\"' | some '\'' => quotedLine
  | _ =>
    let word ← Scan.run isKeyChar
    guard (!word.isEmpty)
    return String.ofList word

/-- The parts of a key, up to what is not a dot. Every part takes at least one character. -/
def dottedKey : (steps : Nat) → Scan Path
  | 0 => failure
  | steps + 1 => do
    skipBlanks
    let part ← keyPart
    skipBlanks
    if ← Scan.accept ['.'] then
      let parts ← dottedKey steps
      return part :: parts
    else return [part]

/-! ## Values -/

/-- A value written as a word. -/
def wordLiteral : Scan Literal := do
  let word ← bareWord
  if word = "true".toList then return .boolean true
  else if word = "false".toList then return .boolean false
  else if isNumber word then return .number (String.ofList word)
  else if isMoment word then return .moment (String.ofList word)
  else failure

/-- Things with commas between them, up to a closing bracket; a comma may also stand behind the
last. Every thing takes at least one character. -/
def separated {α : Type} (closing : Char) (item : Scan α) : (steps : Nat) → Scan (List α)
  | 0 => failure
  | steps + 1 => do
    skipTrivia
    if ← Scan.accept [closing] then return []
    let first ← item
    skipTrivia
    if ← Scan.accept [','] then
      let more ← separated closing item steps
      return first :: more
    else
      Scan.char closing
      return [first]

/-- A key, an equals sign and a value. -/
def pairWith (value : Scan Literal) : Scan (Path × Literal) := do
  let text ← get
  let path ← dottedKey text.length
  Scan.char '='
  let v ← value
  return (path, v)

/-- A value with less than `depth` values around one another. -/
def literal : (depth : Nat) → Scan Literal
  | 0 => failure
  | depth + 1 => do
    skipBlanks
    let text ← get
    match text.head? with
    | some '\"' | some '\'' =>
      let s ← quotedText
      return .text s
    | some '[' =>
      Scan.char '['
      let items ← separated ']' (literal depth) text.length
      return .array items
    | some '\x7b' =>
      Scan.char '\x7b'
      let pairs ← separated '\x7d' (pairWith (literal depth)) text.length
      return .table pairs
    | _ => wordLiteral

/-! ## Statements -/

/-- One statement, with the rest of its line. -/
def statement : Scan Statement := do
  let text ← get
  if ← Scan.accept ['[', '['] then
    let path ← dottedKey text.length
    Scan.char ']'
    Scan.char ']'
    endLine
    return .element path
  else if ← Scan.accept ['['] then
    let path ← dottedKey text.length
    Scan.char ']'
    endLine
    return .header path
  else
    let (path, value) ← pairWith (literal text.length)
    endLine
    return .pair path value

/-- The statements of a text. Every statement takes at least one character. -/
def statements : (steps : Nat) → Scan (List Statement)
  | 0 => failure
  | steps + 1 => do
    skipTrivia
    let text ← get
    if text.isEmpty then return []
    let first ← statement
    let more ← statements steps
    return first :: more

/-- Whether a text has only characters that may stand in a file: no controls but tabs and ends
of line, and no carriage return alone. -/
def isClean : List Char → Bool
  | [] => true
  | '\r' :: '\n' :: rest => isClean rest
  | c :: rest => (c = '\t' || c = '\n' || (c.toNat ≥ 0x20 && c.toNat ≠ 0x7F)) && isClean rest

/-- The statements of a text, if it is well formed. -/
def readStatements? (text : String) : Option (List Statement) :=
  let chars := text.toList
  if isClean chars then (statements (chars.length + 1) chars).map Prod.fst else none

end ClassPrune.Toml
