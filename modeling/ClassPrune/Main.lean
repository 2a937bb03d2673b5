import ClassPrune.Command.Basic

/-!
# The program

Loads the part of the file system that a command line can touch, runs the command on it, and
stores the files that the command changed.
-/

namespace ClassPrune

/-- Adds what stands at a place, if anything does. -/
def FileTree.load (tree : FileTree) (place : Location) : IO FileTree := do
  let path := (← IO.currentDir) / place.path
  if ← path.isDir then
    return { tree with directories := place :: tree.directories }
  else if ← path.pathExists then
    return tree.put place (← IO.FS.readBinFile path).toList
  else
    return tree

/-- The files that a command line run in `directory` can touch: those that it mentions, and the
settings of the directories above them. -/
def loadTree (directory : Location) (words : List String) : IO FileTree := do
  let mentioned := (Command.mentionedPaths words).map (Location.ofPath directory)
  let above := (directory :: mentioned).flatMap Location.upward
  let settings := above.map fun place => place ++ [Settings.fileName]
  (above ++ settings).eraseDups.foldlM FileTree.load {}

/-- Stores the files in which `after` differs from `before`. -/
def storeChanges (before after : FileTree) : IO Unit :=
  for (place, data) in after.files do
    if before.files.lookup place ≠ some data then
      IO.FS.writeBinFile place.path (ByteArray.mk data.toArray)

end ClassPrune

open ClassPrune in
/-- Runs a command line and ends with its status. -/
def main (words : List String) : IO UInt32 := do
  let directory := Location.ofPath [] (← IO.currentDir).toString
  let tree ← loadTree directory words
  let outcome := Command.Environment.run ⟨tree, directory⟩ words
  storeChanges tree outcome.tree
  IO.print outcome.output
  if let some error := outcome.failure then
    IO.eprintln s!"Error: {error.message}"
  return outcome.exitCode
