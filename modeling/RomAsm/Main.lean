import RomAsm.CommandLine.Run

/-!
# The command

The command sees the disk through a tree of the files that its words name. It reads that tree, lets
`CommandLine.run` decide everything, writes the files that have changed, and prints.
-/

namespace RomAsm.Disk

/-- What is at a path of the disk. -/
def node? (path : String) : IO (Option Node) := do
  try
    let real ← IO.FS.realPath path
    if ← real.isDir then return some .directory
    let bytes ← IO.FS.readBinFile path
    return some (.file bytes.toList)
  catch _ => return none

/-- The tree of what is on the disk along the given paths. -/
def survey (paths : List String) : IO FileTree := do
  let mut tree := FileTree.empty
  for place in (paths.flatMap Place.along).eraseDups do
    if let some node ← node? place.text then tree := tree.put place node
  return tree

/-- Writes the files that have changed to the disk. -/
def commit (before after : FileTree) : IO Unit := do
  for (place, bytes) in FileTree.changed before after do
    IO.FS.writeBinFile place.text ⟨bytes.toArray⟩

/-- The settings in the environment of the process. -/
def environment : IO Environment :=
  Settings.variableNames.filterMapM fun name => do return (← IO.getEnv name).map (name, ·)

end RomAsm.Disk

open RomAsm in
/-- Runs the command on the disk. -/
def main (args : List String) : IO UInt32 := do
  let env ← Disk.environment
  let before ← Disk.survey (CommandLine.paths args env)
  let outcome := CommandLine.run args env none before
  try
    Disk.commit before outcome.files
  catch e =>
    IO.eprintln ("Error: " ++ toString e)
    return CommandLine.Exit.invalidUse.code.toUInt32
  IO.print outcome.stdout
  IO.eprint outcome.stderr
  return outcome.exit.code.toUInt32
