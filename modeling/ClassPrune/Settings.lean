import ClassPrune.Code.Profile
import ClassPrune.FileTree
import ClassPrune.Toml.Document

/-!
# Settings

What `classguard.toml` can say: which machine numbers its opcodes how, whether to strip at all,
and what is appended to the name of the output. What a file leaves out keeps its default, and
what the program does not know is ignored.

- `Settings.decode?`: the settings after the contents of a file.
- `Settings.load`: the settings of a directory.
- `Settings.find`: those of the nearest directory that has any, going up.

Which file is looked for, what it starts from and which profiles are known is decided here. How its
contents are read is not: `load` and `find` take any decoder, `decode?` unless told otherwise.
-/

namespace ClassPrune

/-- The settings of a run. -/
structure Settings where
  /-- The name of the machine profile. -/
  vm : String := Profile.standard.name
  stripEnabled : Bool := true
  /-- Appended to the path of the input. -/
  suffix : String := ".stripped"
  /-- The directory of the file; there is none for the defaults. -/
  directory : Option Location := none
  deriving DecidableEq, Repr

/-- Why settings cannot be used. -/
inductive SettingsError where
  | unreadable (path : String) (fault : FileFault)
  /-- The file is not well formed, or a value is of the wrong kind. -/
  | malformed (path : String)
  | unknownProfile (path : String) (name : String)
  deriving DecidableEq, Repr

def SettingsError.message : SettingsError → String
  | .unreadable path fault => s!"cannot read {path}: {fault.message}"
  | .malformed path => s!"parse error in {path}: malformed settings"
  | .unknownProfile path name => s!"{path}: target.vm: {Profile.unknownMessage name}"

namespace Settings

/-- The name of the file. -/
def fileName : String := "classguard.toml"

/-! ## Contents -/

/-- A character without its case. Among the letters of the keys only `s` has a third form. -/
def foldChar (c : Char) : Char := if c = '\u017f' then 's' else c.toLower

/-- Whether a key stands for a name, whatever the case of its letters. -/
def isKey (key name : String) : Bool := key.toList.map foldChar = name.toList

/-- The fields of a value that must be a table. -/
def tableOf? : Toml.Value → Option Toml.Fields
  | .table fields => some fields
  | _ => none

/-- A value that must be a text. -/
def textOf? : Toml.Value → Option String
  | .text value => some value
  | _ => none

/-- A value that must be true or false. -/
def booleanOf? : Toml.Value → Option Bool
  | .boolean value => some value
  | _ => none

/-- The settings after the fields of one table whose name is `name`. -/
def applyFields (name : String) (apply : Settings → Toml.Value → Option Settings)
    (s : Settings) (fields : Toml.Fields) : Option Settings :=
  fields.foldlM (fun s (key, value) => if isKey key name then apply s value else some s) s

/-- The settings after the fields of a file. Where several keys stand for one name, being equal up
to case, it is left open which of them counts. Here it is the last one; another decoder may take
any of them, and a different one each time. -/
def apply (s : Settings) (fields : Toml.Fields) : Option Settings := do
  let s ← applyFields "target" (fun s v => do
    applyFields "vm" (fun s v => (textOf? v).map fun vm => { s with vm }) s (← tableOf? v)) s fields
  let s ← applyFields "strip" (fun s v => do
    applyFields "enabled" (fun s v => (booleanOf? v).map fun b => { s with stripEnabled := b }) s
      (← tableOf? v)) s fields
  applyFields "output" (fun s v => do
    applyFields "suffix" (fun s v => (textOf? v).map fun suffix => { s with suffix }) s
      (← tableOf? v)) s fields

/-- The bytes of a file without the mark of their order in front. -/
def dropOrderMark : Bytes → Bytes
  | 0xEF :: 0xBB :: 0xBF :: rest => rest
  | 0xFF :: 0xFE :: rest => rest
  | 0xFE :: 0xFF :: rest => rest
  | data => data

/-- The settings after the contents of a file; none when the file is not well formed, or a value is
of the wrong kind. -/
def decode? (s : Settings) (data : Bytes) : Option Settings := do
  let text ← String.fromUTF8? (ByteArray.mk (dropOrderMark data).toArray)
  let fields ← Toml.parse? text
  s.apply fields

/-! ## Files -/

/-- The settings of a directory: the defaults, and then what `decode` makes of them. -/
def load (tree : FileTree) (directory : Location)
    (decode : Settings → Bytes → Option Settings := decode?) : Except SettingsError Settings :=
  let path := (directory ++ [fileName]).path
  match tree.read [] path with
  | .error fault => .error (.unreadable path fault)
  | .ok data =>
    match decode {} data with
    | none => .error (.malformed path)
    | some s =>
      if (Profile.lookup? s.vm).isNone then .error (.unknownProfile path s.vm)
      else .ok { s with directory := some directory }

/-- The settings of the nearest directory that has any, from `directory` upward; the defaults
where there are none. -/
def find (tree : FileTree) (directory : Location)
    (decode : Settings → Bytes → Option Settings := decode?) : Except SettingsError Settings :=
  match directory.upward.find? fun place => (tree.node? (place ++ [fileName])).isSome with
  | some place => load tree place decode
  | none => .ok {}

/-! ## Use -/

/-- The profile that the settings name; the standard one where they name none. -/
def profile (s : Settings) : Profile := (Profile.lookup? s.vm).getD .standard

/-- Where the stripped form of an input goes. -/
def outputPath (s : Settings) (input : String) : String := input ++ s.suffix

end Settings

end ClassPrune
