import ClassPrune.Bytes

/-!
# Trees of files

The files that a command can see, and how a written path leads to one of them. Paths are
followed name by name: every name but the last must be that of a directory, `.` stays and `..`
goes up.

- `Location`: a place in the tree, as the names from the root down.
- `FileTree.read`, `FileTree.write`: the contents of files by their paths.
-/

namespace ClassPrune

/-- A place in the tree: the names from the root down. -/
abbrev Location := List String

namespace Location

/-- The place that a name leads to, whether or not it exists. -/
def step (place : Location) (name : String) : Location :=
  if name = "" ∨ name = "." then place
  else if name = ".." then place.dropLast
  else place ++ [name]

/-- The names of a path: what stands between its slashes. -/
def names (path : String) : List String := (path.toList.splitOn '/').map String.ofList

/-- The place that a path starts from: the root if it is absolute, `base` if it is not. -/
def start (base : Location) (path : String) : Location := if path.startsWith "/" then [] else base

/-- The place that a path leads to from `base`, whether or not it exists. -/
def ofPath (base : Location) (path : String) : Location := (names path).foldl step (start base path)

/-- The path of a place. -/
def path (place : Location) : String := "/" ++ "/".intercalate place

/-- The place itself and the places above it, up to the root. -/
def upward (place : Location) : List Location :=
  (List.range (place.length + 1)).reverse.map fun n => place.take n

end Location

/-- Why a path cannot be used. -/
inductive FileError where
  | notFound
  | notDirectory
  | isDirectory
  | badName
  | nameTooLong
  deriving DecidableEq, Repr

def FileError.message : FileError → String
  | .notFound => "no such file or directory"
  | .notDirectory => "not a directory"
  | .isDirectory => "is a directory"
  | .badName => "invalid argument"
  | .nameTooLong => "file name too long"

/-- What a path was used for. -/
inductive FileAction where
  | opening
  | reading
  deriving DecidableEq, Repr

def FileAction.name : FileAction → String
  | .opening => "open"
  | .reading => "read"

/-- A failed use of a path. -/
structure FileFault where
  action : FileAction
  path : String
  error : FileError
  deriving DecidableEq, Repr

def FileFault.message (f : FileFault) : String :=
  s!"{f.action.name} {f.path}: {f.error.message}"

/-- The files, by their places, and the directories that may be empty. A place above a file or
a directory is a directory, and so is the root. -/
structure FileTree where
  files : List (Location × Bytes) := []
  directories : List Location := []
  deriving DecidableEq, Repr

/-- What stands at a place. -/
inductive FileNode where
  | file (data : Bytes)
  | directory
  deriving DecidableEq, Repr

namespace FileTree

/-- Whether a place is a directory. -/
def isDirectory (t : FileTree) (place : Location) : Bool :=
  place.isEmpty || t.directories.any (fun d => place.isPrefixOf d)
    || t.files.any fun (p, _) => place.isPrefixOf p && p.length > place.length

/-- What stands at a place, if anything. -/
def node? (t : FileTree) (place : Location) : Option FileNode :=
  match t.files.lookup place with
  | some data => some (.file data)
  | none => if t.isDirectory place then some .directory else none

/-- Where a path ends. -/
inductive PathEnd where
  | file (data : Bytes)
  | directory (place : Location)
  /-- Nothing stands there, but the directory around it exists. -/
  | vacant
  deriving DecidableEq, Repr

/-- The longest name that a file can have, in bytes. -/
def longestName : Nat := 255

/-- The longest path that can be followed, in bytes. -/
def longestPath : Nat := 4095

/-- Whether a name is too long for a file. -/
def isLong (name : String) : Bool := name.utf8ByteSize > longestName

/-- Follows names from a directory. -/
def follow (t : FileTree) (place : Location) : List String → Except FileError PathEnd
  | [] => .ok (.directory place)
  | name :: rest =>
    let next := place.step name
    if name = "" ∨ name = "." ∨ name = ".." then t.follow next rest
    else if isLong name then .error .nameTooLong
    else match t.node? next with
      | some .directory => t.follow next rest
      | some (.file data) => if rest = [] then .ok (.file data) else .error .notDirectory
      | none => if rest.all (· = "") then .ok .vacant else .error .notFound

/-- Whether a path cannot name anything. -/
def refused? (path : String) : Option FileError :=
  if path = "" then some .notFound
  else if path.toList.contains '\x00' then some .badName
  else if path.utf8ByteSize > longestPath then some .nameTooLong
  else none

/-- The contents of the file at a path; paths start from `base`. -/
def read (t : FileTree) (base : Location) (path : String) : Except FileFault Bytes :=
  match refused? path with
  | some error => .error ⟨.opening, path, error⟩
  | none =>
    match t.follow (Location.start base path) (Location.names path) with
    | .ok (.file data) => .ok data
    | .ok (.directory _) => .error ⟨.reading, path, .isDirectory⟩
    | .ok .vacant => .error ⟨.opening, path, .notFound⟩
    | .error error => .error ⟨.opening, path, error⟩

/-- The tree with a file at a place. -/
def put (t : FileTree) (place : Location) (data : Bytes) : FileTree :=
  { t with files :=
      if (t.files.lookup place).isSome then
        t.files.map fun (p, old) => if p = place then (p, data) else (p, old)
      else t.files ++ [(place, data)] }

/-- The place of a new file in a directory. Nothing but a file may stand there, and its name must
not be followed by slashes. -/
def vacancy (t : FileTree) (place : Location) (name : String) (slashed : Bool) :
    Except FileError Location :=
  if slashed ∨ name = "" ∨ name = "." ∨ name = ".." then .error .isDirectory
  else if isLong name then .error .nameTooLong
  else if t.node? (place ++ [name]) = some .directory then .error .isDirectory
  else .ok (place ++ [name])

/-- The place that a file is written to, whose directory must exist. -/
def target (t : FileTree) (base : Location) (path : String) : Except FileError Location :=
  match refused? path with
  | some error => .error error
  | none =>
    let backwards := (Location.names path).reverse
    let slashes := backwards.takeWhile (· = "")
    let unslashed := backwards.drop slashes.length
    match t.follow (Location.start base path) unslashed.tail.reverse with
    | .ok (.directory place) => t.vacancy place (unslashed.headD "") (!slashes.isEmpty)
    | .ok (.file _) => .error .notDirectory
    | .ok .vacant => .error .notFound
    | .error error => .error error

/-- The tree after writing a file; paths start from `base`. -/
def write (t : FileTree) (base : Location) (path : String) (data : Bytes) :
    Except FileFault FileTree :=
  match t.target base path with
  | .ok place => .ok (t.put place data)
  | .error error => .error ⟨.opening, path, error⟩

end FileTree

end ClassPrune
