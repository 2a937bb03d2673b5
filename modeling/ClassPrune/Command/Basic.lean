import ClassPrune.Class.Reading
import ClassPrune.Class.Writing
import ClassPrune.Command.Arguments
import ClassPrune.Digest.Blake3
import ClassPrune.Dump.Document
import ClassPrune.Dump.Lines
import ClassPrune.Settings
import ClassPrune.Strip.Basic

/-!
# Commands

What the verbs of the command line do to a tree of files.

- `dump` prints the contents of a class.
- `strip` writes the stripped form of a class and prints what was changed.
- `check` prints for each class whether it is written back as it was read, and whether stripping
  would change it.

`Environment.run` does what a command line says; of the files, it looks only at those that
`mentionedPaths` leads to and at the settings above them.

Commands do not decide how a settings file is decoded, how the words of a command line are told
apart, or how byte strings are identified in what is printed. For this they are given a `Toolkit`;
the program runs with the one of this library.
-/

namespace ClassPrune.Command

/-- Why a command fails. -/
inductive CommandError where
  | arguments (error : ArgumentError)
  | settings (error : SettingsError)
  | unknownProfile (name : String)
  | unreadable (fault : FileFault)
  | unreadableDump (fault : FileFault)
  | unparsable (error : ParseError)
  | unknownFormat (name : String)
  | unwritable (error : ClassWriteError)
  | unwritten (path : String) (fault : FileFault)
  | filesFailed (failed total : Nat)

def CommandError.message : CommandError → String
  | .arguments error => error.message
  | .settings error => s!"load config: {error.message}"
  | .unknownProfile name => Profile.unknownMessage name
  | .unreadable fault => s!"read class file: {fault.message}"
  | .unreadableDump fault => s!"parse class file: failed to read class file: {fault.message}"
  | .unparsable error => s!"parse class file: {error.message}"
  | .unknownFormat name => s!"unknown format: {name} (expected line or json)"
  | .unwritable error => s!"write class file: {error.message}"
  | .unwritten path fault => s!"write {path}: {fault.message}"
  | .filesFailed failed total => s!"{failed} of {total} files failed"

/-- What a command leaves behind. -/
structure Outcome where
  tree : FileTree
  output : String := ""
  failure : Option CommandError := none

/-- The status that the program ends with. -/
def Outcome.exitCode (o : Outcome) : UInt32 := if o.failure.isSome then 1 else 0

/-- Lines of output. -/
def printed (lines : List String) : String := String.join (lines.map (· ++ "\n"))

/-- What commands use without deciding it. Each field is what this library has for it, unless
another one is given. -/
structure Toolkit where
  /-- The settings after the contents of a file. -/
  decode : Settings → Bytes → Option Settings := Settings.decode?
  /-- The verb of a command line, with the flags and the plain words around it. -/
  readLine : List String → Except ArgumentError (Option Verb × Arguments) := Command.readLine
  /-- The digits that identify a byte string. -/
  digest : Bytes → String := ClassPrune.digest

/-- What commands start from: the files, and the directory that paths start from. -/
structure Environment where
  tree : FileTree
  directory : Location

namespace Environment

/-! ## Dump -/

/-- The dump of the class at a path. -/
def dumpText (env : Environment) (path format : String) : Except CommandError String := do
  let data ← (env.tree.read env.directory path).mapError .unreadableDump
  let k ← (ClassFile.parse data).mapError .unparsable
  if format = "line" then return k.lineDump
  else if format = "json" then return k.documentDump
  else throw (.unknownFormat format)

/-- Prints the contents of a class. -/
def dump (env : Environment) (path format : String) : Outcome :=
  match env.dumpText path format with
  | .ok output => { tree := env.tree, output }
  | .error error => { tree := env.tree, failure := some error }

/-! ## Strip -/

/-- What stripping a file needs. -/
structure StripPlan where
  settings : Settings
  profile : Profile
  output : String
  data : Bytes
  classFile : ClassFile

/-- The directory part of a path: what stands up to the last slash. -/
def directoryPart (path : String) : String :=
  String.ofList ((path.toList.reverse.dropWhile (· != '/')).reverse)

/-- The profile of a name; without a name, that of the settings. -/
def chooseProfile (settings : Settings) (vm : String) : Except CommandError Profile :=
  if vm = "" then .ok settings.profile
  else match Profile.lookup? vm with
    | some profile => .ok profile
    | none => .error (.unknownProfile vm)

/-- Gathers what stripping a file needs. The settings are those nearest to the file. -/
def stripPlan (env : Environment) (path output vm : String) (kit : Toolkit := {}) :
    Except CommandError StripPlan := do
  let place := Location.ofPath env.directory (directoryPart path)
  let settings ← (Settings.find env.tree place kit.decode).mapError .settings
  let profile ← chooseProfile settings vm
  let data ← (env.tree.read env.directory path).mapError .unreadable
  let classFile ← (ClassFile.parse data).mapError .unparsable
  return { settings, profile, data, classFile
           output := if output = "" then settings.outputPath path else output }

/-- The stripped class and the lines that say what was changed. Settings may turn it off. -/
def StripPlan.result (p : StripPlan) : ClassFile × List String :=
  if p.settings.stripEnabled then
    let (stripped, report) := p.classFile.strip p.profile
    (stripped, report.dropped.map (fun d => s!"dropped\t{d.text}")
      ++ report.filled.map (fun index => s!"filled\t#{index.toNat}")
      ++ (if report.bootstrapMethodsRemoved then ["removed\tBootstrapMethods"] else [])
      ++ (if report.substitutions > 0 then
          [s!"rewrote\t{report.substitutions} reserved opcodes"] else []))
  else (p.classFile, [])

/-- Writes the stripped form of a class and prints what was changed. -/
def strip (env : Environment) (path output vm : String) (kit : Toolkit := {}) : Outcome :=
  match env.stripPlan path output vm kit with
  | .error error => { tree := env.tree, failure := some error }
  | .ok plan =>
    let (stripped, changes) := plan.result
    let lines := describeBytes "in" plan.data kit.digest :: changes
    match stripped.encode with
    | .error error =>
      { tree := env.tree, output := printed lines, failure := some (.unwritable error) }
    | .ok written =>
      match env.tree.write env.directory plan.output written with
      | .error fault =>
        { tree := env.tree, output := printed lines
          failure := some (.unwritten plan.output fault) }
      | .ok tree =>
        { tree, output := printed (lines ++ [describeBytes "out" written kit.digest]) }

/-! ## Check -/

/-- Why a file fails the check. -/
inductive CheckError where
  | unreadable (fault : FileFault)
  | unparsable (error : ParseError)
  | unwritable (error : ClassWriteError)
  /-- The class is not written back as it was read. -/
  | changed (before after : Bytes)

def CheckError.message (digest : Bytes → String) : CheckError → String
  | .unreadable fault => fault.message
  | .unparsable error => error.message
  | .unwritable error => error.message
  | .changed before after => s!"round trip changed {digest before} to {digest after}"

/-- What a report comes to. -/
def statusOf (report : Report) : String :=
  if report.changed then
    s!"dirty ({report.dropped.length} dropped, {report.substitutions} rewrites)"
  else "ok"

/-- The status of a file that can be read and written. -/
def checkFile (env : Environment) (profile : Profile) (path : String) :
    Except CheckError String := do
  let data ← (env.tree.read env.directory path).mapError .unreadable
  let k ← (ClassFile.parse data).mapError .unparsable
  let written ← k.encode.mapError .unwritable
  if written ≠ data then throw (.changed data written)
  return statusOf (k.strip profile).2

/-- The line for one file, and whether it failed. -/
def checkLine (env : Environment) (profile : Profile) (path : String) (kit : Toolkit := {}) :
    String × Bool :=
  match env.checkFile profile path with
  | .ok status => (s!"{status}\t{path}", false)
  | .error error => (s!"FAIL\t{path}\t{error.message kit.digest}", true)

/-- Prints the status of each file. The settings are those nearest to the directory of the
command. -/
def check (env : Environment) (paths : List String) (kit : Toolkit := {}) : Outcome :=
  match Settings.find env.tree env.directory kit.decode with
  | .error error => { tree := env.tree, failure := some (.settings error) }
  | .ok settings =>
    let results := paths.map fun path => env.checkLine settings.profile path kit
    let failed := results.countP Prod.snd
    { tree := env.tree
      output := printed (results.map Prod.fst)
      failure := if failed > 0 then some (.filesFailed failed paths.length) else none }

/-! ## Command lines -/

/-- Does what a verb says. -/
def perform (env : Environment) (verb : Verb) (a : Arguments) (kit : Toolkit := {}) : Outcome :=
  let refuse (error : ArgumentError) : Outcome :=
    { tree := env.tree, failure := some (.arguments error) }
  match verb, a.words with
  | .dump, [path] => env.dump path ((a.value? .format).getD "line")
  | .dump, words => refuse (.notOneWord words.length)
  | .strip, [path] => env.strip path ((a.value? .output).getD "") ((a.value? .vm).getD "") kit
  | .strip, words => refuse (.notOneWord words.length)
  | .check, [] => refuse .noWords
  | .check, paths => env.check paths kit
  | .help, _ => { tree := env.tree }
  | .completion, _ => { tree := env.tree }

/-- Does what a command line says. A command line without a verb does nothing, and neither does
one that asks for an explanation. -/
def run (env : Environment) (words : List String) (kit : Toolkit := {}) : Outcome :=
  match kit.readLine words with
  | .ok (some verb, a) => if a.wantsHelp then { tree := env.tree } else env.perform verb a kit
  | .ok (none, _) => { tree := env.tree }
  | .error error => { tree := env.tree, failure := some (.arguments error) }

end Environment

/-- The paths that a command line mentions. -/
def mentionedPaths (words : List String) : List String :=
  match readLine words with
  | .ok (_, a) => a.words ++ (a.value? .output).toList
  | .error _ => []

end ClassPrune.Command
