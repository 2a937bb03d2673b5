/-!
# Descriptors

The text that gives the type of a field or method. A field type is up to 255 array brackets,
then a base type letter or a class name between `L` and `;`. A method descriptor is the field
types of the parameters in parentheses, then a field type or `V`.

- `Descriptor.parse`: the reading of a text; what is neither form is `illegal`.
- `FieldType.encode`, `Descriptor.encode`: the text of a type, the other way round.
- `FieldType.source`, `Descriptor.source`: the type in source form, for dumps.

Texts are lists of characters here. This covers byte strings as well, also those that are not UTF-8:
every character that the reading asks for (brackets, parentheses, letters of types, `.`, `/` and
`;`) is ASCII and stands for one byte, and no other byte matters. So each byte may be read as the
character of that number, up to U+00FF, and a text is cut in the same places either way.
-/

namespace ClassPrune

/-- The types that are not classes or arrays. -/
inductive BaseType where
  | byte
  | char
  | double
  | float
  | int
  | long
  | short
  | boolean
  deriving DecidableEq, Repr

namespace BaseType

/-- The letter of a base type. -/
def letter : BaseType → Char
  | .byte => 'B'
  | .char => 'C'
  | .double => 'D'
  | .float => 'F'
  | .int => 'I'
  | .long => 'J'
  | .short => 'S'
  | .boolean => 'Z'

/-- The base type of a letter. -/
def ofLetter? : Char → Option BaseType
  | 'B' => some .byte
  | 'C' => some .char
  | 'D' => some .double
  | 'F' => some .float
  | 'I' => some .int
  | 'J' => some .long
  | 'S' => some .short
  | 'Z' => some .boolean
  | _ => none

/-- The keyword of a base type. -/
def keyword : BaseType → String
  | .byte => "byte"
  | .char => "char"
  | .double => "double"
  | .float => "float"
  | .int => "int"
  | .long => "long"
  | .short => "short"
  | .boolean => "boolean"

end BaseType

/-- What an array is made of in the end. -/
inductive ElementType where
  | base (type : BaseType)
  | object (name : List Char)
  deriving DecidableEq, Repr

/-- A field type: `depth` array brackets around an element type. -/
structure FieldType where
  depth : Nat
  element : ElementType
  deriving DecidableEq, Repr

/-- The reading of a descriptor. -/
inductive Descriptor where
  | illegal
  | field (type : FieldType)
  /-- A method; without a result it is void. -/
  | method (parameters : List FieldType) (result : Option FieldType)
  deriving DecidableEq, Repr

/-- The parts of a name between slashes; there is always at least one. -/
def segments : List Char → List (List Char)
  | [] => [[]]
  | c :: rest =>
    if c = '/' then [] :: segments rest
    else match segments rest with
      | part :: parts => (c :: part) :: parts
      | [] => [[c]]

/-- Whether a text is the name of a class: not empty, without `.`, `;` and `[`, and without an
empty part between slashes. -/
def isBinaryName (name : List Char) : Bool :=
  name != [] && name.all (fun c => c != '.' && c != ';' && c != '[')
    && (segments name).all (· != [])

namespace FieldType

/-- Reads the element type at the front. -/
def readElement? : List Char → Option (ElementType × List Char)
  | 'L' :: rest =>
    let name := rest.takeWhile (· != ';')
    match rest.dropWhile (· != ';') with
    | _ :: rest => if isBinaryName name then some (.object name, rest) else none
    | [] => none
  | c :: rest => (BaseType.ofLetter? c).map fun t => (.base t, rest)
  | [] => none

/-- Reads the field type at the front of a text. -/
def read? (text : List Char) : Option (FieldType × List Char) := do
  let depth := (text.takeWhile (· = '[')).length
  let (element, rest) ← readElement? (text.dropWhile (· = '['))
  if depth > 255 then none else some (⟨depth, element⟩, rest)

/-- The text of an element type. -/
def encodeElement : ElementType → List Char
  | .base t => [t.letter]
  | .object name => 'L' :: (name ++ [';'])

/-- The text of a field type. -/
def encode (t : FieldType) : List Char :=
  List.replicate t.depth '[' ++ encodeElement t.element

/-- A field type in source form: dots for slashes, and the brackets behind. -/
def source (t : FieldType) : String :=
  let element := match t.element with
    | .base b => b.keyword
    | .object name => String.ofList (name.map fun c => if c = '/' then '.' else c)
  element ++ String.join (List.replicate t.depth "[]")

end FieldType

namespace Descriptor

/-- Reads field types up to a closing parenthesis. Each field type takes at least one character,
so as many steps as there are characters are enough. -/
def readParameters? : (steps : Nat) → List Char → Option (List FieldType × List Char)
  | _, ')' :: rest => some ([], rest)
  | 0, _ => none
  | steps + 1, text => do
    let (t, rest) ← FieldType.read? text
    let (ts, rest) ← readParameters? steps rest
    return (t :: ts, rest)

/-- Reads a field type that is all of the text. -/
def readWhole? (text : List Char) : Option FieldType :=
  match FieldType.read? text with
  | some (t, []) => some t
  | _ => none

/-- Reads what follows the opening parenthesis of a method descriptor. -/
def readMethod? (text : List Char) : Option Descriptor := do
  let (parameters, rest) ← readParameters? text.length text
  if rest = ['V'] then return .method parameters none
  let result ← readWhole? rest
  return .method parameters (some result)

/-- The reading of a descriptor, on characters. -/
def parseChars : List Char → Descriptor
  | '(' :: rest => (readMethod? rest).getD .illegal
  | text => ((readWhole? text).map .field).getD .illegal

/-- The reading of a descriptor. -/
def parse (text : String) : Descriptor := parseChars text.toList

/-- How many parameters a method has; nothing for any other descriptor. -/
def parameterCount? : Descriptor → Option Nat
  | .method parameters _ => some parameters.length
  | _ => none

/-- Whether the text was a field descriptor. -/
def isField : Descriptor → Bool
  | .field _ => true
  | _ => false

/-- The text of a descriptor; there is none for an illegal one. -/
def encode : Descriptor → List Char
  | .illegal => []
  | .field t => t.encode
  | .method parameters result =>
    '(' :: (parameters.flatMap FieldType.encode ++ ')' :: (match result with
      | none => ['V']
      | some t => t.encode))

/-- The word for the form of a descriptor. -/
def form : Descriptor → String
  | .illegal => "illegal"
  | .field _ => "field"
  | .method _ _ => "method"

/-- A descriptor in source form. -/
def source : Descriptor → String
  | .illegal => "illegal"
  | .field t => t.source
  | .method parameters result =>
    "(" ++ ", ".intercalate (parameters.map FieldType.source) ++ ") " ++
      (match result with
      | none => "void"
      | some t => t.source)

end Descriptor

end ClassPrune
