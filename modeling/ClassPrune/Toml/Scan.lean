/-!
# Reading characters

A reader takes characters off the front of a text and fails without saying why: a settings file
is accepted or it is not.
-/

namespace ClassPrune.Toml

/-- Reads a value off the front of a text. -/
abbrev Scan := StateT (List Char) Option

namespace Scan

/-- The next character, left where it is. -/
def peek : Scan (Option Char) := fun text => some (text.head?, text)

/-- The longest run of characters with a property. -/
def run (p : Char → Bool) : Scan (List Char) := fun text =>
  some (text.takeWhile p, text.dropWhile p)

/-- One given character. -/
def char (c : Char) : Scan Unit
  | found :: rest => if found = c then some ((), rest) else none
  | [] => none

/-- Whether the text starts with the given characters, which are then taken off. -/
def accept (expected : List Char) : Scan Bool := fun text =>
  if expected.isPrefixOf text then some (true, text.drop expected.length) else some (false, text)

end Scan

/-- A space or a tab. -/
def isBlank (c : Char) : Bool := c = ' ' || c = '\t'

/-- An end of line, or the first half of one. -/
def isNewline (c : Char) : Bool := c = '\n' || c = '\r'

/-- Skips spaces and tabs. -/
def skipBlanks : Scan Unit := fun text => some ((), text.dropWhile isBlank)

/-- What is left after blanks, ends of line and comments. -/
def dropTrivia : (inComment : Bool) → List Char → List Char
  | _, [] => []
  | true, c :: rest => dropTrivia (!isNewline c) rest
  | false, c :: rest =>
    if c = '#' then dropTrivia true rest
    else if isBlank c || isNewline c then dropTrivia false rest
    else c :: rest

/-- Skips blanks, ends of line and comments. -/
def skipTrivia : Scan Unit := fun text => some ((), dropTrivia false text)

/-- The rest of a line, which may hold blanks and a comment only. -/
def endLine : Scan Unit := fun text =>
  match text.dropWhile isBlank with
  | [] => some ((), [])
  | '#' :: rest => some ((), rest.dropWhile fun c => !isNewline c)
  | c :: rest => if isNewline c then some ((), rest) else none

end ClassPrune.Toml
