import ClassPrune.Text.Hex

/-!
# JSON text

A document of objects, lists, texts and numbers, printed with two spaces of indentation per
level. Characters that mean something in HTML, and the two line separators outside ASCII, are
escaped like control characters.
-/

namespace ClassPrune.Text

/-- A document. -/
inductive Json where
  | null
  | number (value : Nat)
  | text (value : String)
  | list (items : List Json)
  | object (fields : List (String × Json))

namespace Json

/-- One character of a text. -/
def escapeChar (c : Char) : List Char :=
  match c with
  | '\"' => ['\\', '\"']
  | '\\' => ['\\', '\\']
  | '\x08' => ['\\', 'b']
  | '\x0c' => ['\\', 'f']
  | '\n' => ['\\', 'n']
  | '\r' => ['\\', 'r']
  | '\t' => ['\\', 't']
  | _ =>
    if c.toNat < 0x20 ∨ c ∈ ['<', '>', '&', '\u2028', '\u2029'] then
      '\\' :: 'u' :: (hex 4 c.toNat).toList
    else [c]

/-- A text in quotes. -/
def quote (s : String) : String :=
  String.ofList ('\"' :: (s.toList.flatMap escapeChar ++ ['\"']))

/-- A new line, indented `depth` levels. -/
def newline (depth : Nat) : String := String.ofList ('\n' :: List.replicate (2 * depth) ' ')

/-- Items on lines of their own between two brackets. -/
def enclose (opening closing : String) (depth : Nat) (items : List String) : String :=
  if items.isEmpty then opening ++ closing
  else opening ++ newline (depth + 1) ++ (("," ++ newline (depth + 1)).intercalate items)
    ++ newline depth ++ closing

mutual

/-- A document whose first line stands at the given depth. -/
def render (depth : Nat) : Json → String
  | .null => "null"
  | .number value => toString value
  | .text value => quote value
  | .list items => enclose "[" "]" depth (renderItems (depth + 1) items)
  | .object fields => enclose "\x7b" "\x7d" depth (renderFields (depth + 1) fields)

/-- The items of a list. -/
def renderItems (depth : Nat) : List Json → List String
  | [] => []
  | item :: more => render depth item :: renderItems depth more

/-- The fields of an object. -/
def renderFields (depth : Nat) : List (String × Json) → List String
  | [] => []
  | (key, value) :: more =>
    (quote key ++ ": " ++ render depth value) :: renderFields depth more

end

/-- A list field that is left out when the list is empty. -/
def optionalList (key : String) (items : List Json) : List (String × Json) :=
  if items.isEmpty then [] else [(key, .list items)]

end Json

end ClassPrune.Text
