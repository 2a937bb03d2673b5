import ClassPrune.Toml.Statement

/-!
# The tables of settings

The statements of a file, one after the other, build a table of tables. A key has one value and
a table one header, with these allowances.

- A table that stands only on the way to another one is *implied*. It may be opened, or given a
  value, once; what it holds stays.
- A dotted key may pass through any table. A table that was there before is then no longer
  implied.
- A dotted key may also pass through a key that was last given an array: an empty table takes
  the place of the array. An empty key is not told apart from the table around it in this, so
  giving it an array exposes that table.

- `Document.ofStatements?`: the document, if no rule is broken.
- `Document.root`: its tables and values.
-/

namespace ClassPrune.Toml

/-- A value of a document. -/
inductive Value where
  | text (value : String)
  | boolean (value : Bool)
  | number (word : String)
  | moment (word : String)
  | array (items : List Value)
  | table (fields : List (String × Value))
  /-- The tables of a list, the last one first. -/
  | tables (items : List (List (String × Value)))

/-- The fields of a table, in the order in which they were given. -/
abbrev Fields := List (String × Value)

namespace Fields

/-- The value of a field. -/
def find? (fields : Fields) (key : String) : Option Value := fields.lookup key

/-- The fields with one set. -/
def set (fields : Fields) (key : String) (value : Value) : Fields :=
  if (fields.find? key).isSome then
    fields.map fun (k, v) => if k = key then (k, value) else (k, v)
  else fields ++ [(key, value)]

/-- The fields of the table at a path. A list stands for its last table. -/
def at? : Path → Fields → Option Fields
  | [], fields => some fields
  | key :: path, fields =>
    match fields.find? key with
    | some (.table inner) => at? path inner
    | some (.tables (last :: _)) => at? path last
    | _ => none

/-- Changes the fields of the table at a path, if there is one. -/
def modifyAt (change : Fields → Fields) : Path → Fields → Fields
  | [], fields => change fields
  | key :: path, fields =>
    match fields.find? key with
    | some (.table inner) => fields.set key (.table (modifyAt change path inner))
    | some (.tables (last :: others)) =>
      fields.set key (.tables (modifyAt change path last :: others))
    | _ => fields

/-- Sets a field below a path, making the tables on the way. -/
def setDeep : Path → String → Value → Fields → Option Fields
  | [], key, value, fields => some (fields.set key value)
  | first :: path, key, value, fields =>
    match (fields.find? first).getD (.table []) with
    | .table inner => do
      let inner ← setDeep path key value inner
      return fields.set first (.table inner)
    | _ => none

end Fields

/-- A document under construction. -/
structure Document where
  root : Fields := []
  /-- The tables that are implied. -/
  implied : List Path := []
  /-- The keys that were last given an array. -/
  arrays : List Path := []

namespace Document

/-- Marks a table as implied. -/
def imply (d : Document) (path : Path) : Document :=
  if d.implied.contains path then d else { d with implied := path :: d.implied }

/-- The key under which it is noted what `key` was last given. An empty key is noted as the table
around it, except at the top, where there is none. -/
def notedAt (context : Path) (key : String) : Path :=
  if key ≠ "" then context ++ [key]
  else if context = [] then [key]
  else context

/-- Notes whether a key was last given an array. -/
def markArray (d : Document) (path : Path) (isArray : Bool) : Document :=
  let others := d.arrays.filter (· != path)
  { d with arrays := if isArray then path :: others else others }

/-- Sets a field of the table at `context`, whatever it was. -/
def put (d : Document) (context : Path) (key : String) (value : Value) : Document :=
  { d with root := Fields.modifyAt (fun fields => fields.set key value) context d.root }

/-- Gives a key of the table at `context` a value. A key that has one already must be implied:
its value stays, unless it was last given an array. -/
def define (d : Document) (context : Path) (key : String) (value : Value) : Option Document := do
  let fields ← Fields.at? context d.root
  let path := context ++ [key]
  let settled := { d with implied := d.implied.filter (· != path) }
  if (fields.find? key).isNone then return d.put context key value
  else if !d.implied.contains path then none
  else if d.arrays.contains path then return settled.put context key value
  else return settled

/-- Makes the tables on the way to a path, `done` being the part that exists. -/
def openParents (done : Path) : Path → Document → Option Document
  | [], d => some d
  | [_], d => some d
  | key :: path, d => do
    let fields ← Fields.at? done d.root
    let d := if (fields.find? key).isSome then d
      else (d.imply (done ++ [key])).put done key (.table [])
    guard (Fields.at? (done ++ [key]) d.root).isSome
    openParents (done ++ [key]) path d

/-- Opens the table at a path. -/
def openTable (d : Document) (path : Path) : Option Document := do
  let d ← openParents [] path d
  d.define path.dropLast (path.getLastD "") (.table [])

/-- Opens a new table at the end of the list at a path. -/
def openElement (d : Document) (path : Path) : Option Document := do
  let d ← openParents [] path d
  let context := path.dropLast
  let key := path.getLastD ""
  let fields ← Fields.at? context d.root
  match fields.find? key with
  | none => return d.put context key (.tables [[]])
  | some (.tables items) => return d.put context key (.tables ([] :: items))
  | some _ => none

/-- Passes through the tables on the way of a dotted key. -/
def passThrough (context : Path) : Path → Document → Option Document
  | [], d => some d
  | key :: path, d => do
    let d ← (d.imply (context ++ [key])).openTable (context ++ [key])
    passThrough (context ++ [key]) path d

/-- Gives the last part of a dotted key a value, after its other parts were passed. -/
def settle (d : Document) (context : Path) (key : String) (value : Value) : Option Document := do
  let d ← d.define context key value
  let isArray := match value with
    | .array _ => true
    | _ => false
  return d.markArray (notedAt context key) isArray

mutual

/-- The value of a literal that is given to a key of the table at `context`. Tables inside it are
opened in the document on the way, those of an array as elements of a list. -/
def evaluate (context : Path) (key : String) (inArray : Bool) (d : Document) :
    Literal → Option (Document × Value)
  | .text value => some (d, .text value)
  | .boolean value => some (d, .boolean value)
  | .number word => some (d, .number word)
  | .moment word => some (d, .moment word)
  | .array items => do
    let (d, values) ← evaluateItems context key (d.markArray (notedAt context key) true) items
    return (d, .array values)
  | .table pairs => do
    let path := context ++ [key]
    let d := d.imply path
    let d ← if inArray then d.openElement path else d.openTable path
    let (d, fields) ← evaluatePairs path d [] pairs
    return (d, .table fields)

/-- The values of the items of an array. -/
def evaluateItems (context : Path) (key : String) (d : Document) :
    List Literal → Option (Document × List Value)
  | [] => some (d, [])
  | item :: more => do
    let (d, value) ← evaluate context key true d item
    let (d, values) ← evaluateItems context key d more
    return (d, value :: values)

/-- The fields of a table in braces at `path`; `fields` are those before. -/
def evaluatePairs (path : Path) (d : Document) (fields : Fields) :
    List (Path × Literal) → Option (Document × Fields)
  | [] => some (d, fields)
  | (key, value) :: more => do
    let way := key.dropLast
    let last := key.getLastD ""
    let d ← passThrough path way d
    let (d, v) ← evaluate (path ++ way) last false d value
    let d ← d.settle (path ++ way) last v
    let fields ← Fields.setDeep way last v fields
    evaluatePairs path d fields more

end

/-- Takes a statement up; `context` is the table that is open. -/
def take (context : Path) (d : Document) : Statement → Option (Path × Document)
  | .header path => do
    let d ← d.openTable path
    return (path, d.markArray path false)
  | .element path => do
    let d ← d.openElement path
    return (path, d.markArray path false)
  | .pair key value => do
    let way := key.dropLast
    let last := key.getLastD ""
    let d ← passThrough context way d
    let (d, v) ← evaluate (context ++ way) last false d value
    let d ← d.settle (context ++ way) last v
    return (context, d)

/-- The document that statements build. -/
def ofStatements? (statements : List Statement) : Option Document :=
  (statements.foldlM (fun (context, d) s => take context d s) ([], {})).map Prod.snd

end Document

/-- The tables and values that a text describes, if it is well formed. -/
def parse? (text : String) : Option Fields := do
  let statements ← readStatements? text
  let document ← Document.ofStatements? statements
  return document.root

end ClassPrune.Toml
