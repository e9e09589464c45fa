import ColumnAssembler.Session

/-!
# Command

The command that runs a session on the files of the working directory. The files that a session
can see are read before it starts: the source that the arguments name, or those of the directory
that a pattern searches. Files that the session created or changed are written after it ends.
-/

namespace ColumnAssembler.Command

/-- The text of a string. -/
def textOf (s : String) : Text := s.toUTF8.toList

/-- The bytes of a text. -/
def bytesOf (t : Text) : ByteArray := ByteArray.mk t.toArray

/-- The string of a text that came from a string. -/
def stringOf (t : Text) : String := (String.fromUTF8? (bytesOf t)).getD ""

/-- Add the file at a path to the files that a session can see. -/
def look (tree : FileTree) (path : Text) : IO FileTree := do
  try
    let content ← IO.FS.readBinFile (stringOf path)
    return tree.addFile (PathName.place path) content.toList
  catch _ => return tree

/-- Add what stands in a directory to the files that a session can see. -/
def lookInside (tree : FileTree) (directory : Text) : IO FileTree := do
  try
    let entries ← ((← IO.currentDir) / stringOf directory).readDir
    let mut seen := tree.addDirectory (PathName.place directory)
    for entry in entries do
      let path := directory ++ PathName.root ++ textOf entry.fileName
      if ← entry.path.isDir then seen := seen.addDirectory (PathName.place path)
      else seen ← look seen path
    return seen
  catch _ => return tree

/-- Add the directory at a path, if there is one, to what a session can see. -/
def lookFor (tree : FileTree) (path : Text) : IO FileTree := do
  if ← ((← IO.currentDir) / stringOf path).isDir then
    return tree.addDirectory (PathName.place path)
  else return tree

/-- The files that a session with these options can see. -/
def snapshot (o : Options) : IO FileTree := do
  let mut tree := FileTree.empty
  if o.batch.isEmpty then tree ← look tree o.input
  else tree ← lookInside tree (PathPattern.directoryOf o.batch)
  for path in [o.input, o.output, o.listing] do
    tree ← lookFor tree (PathPattern.directoryOf path)
    tree ← lookFor tree path
  return tree

/-- Write the files that differ from what was there before. -/
def writeBack (earlier later : FileTree) : IO Unit := do
  for (place, content) in later.files do
    if earlier.files.lookup place != some content then
      IO.FS.writeBinFile (stringOf (PathName.ofPlace place)) (bytesOf content)

/-- What the command says about itself. -/
def buildInfo : BuildInfo := ⟨textOf "dev", [], [], textOf "lean"⟩

end ColumnAssembler.Command

open ColumnAssembler Command in
/-- Run a session with the arguments of the command. -/
def main (arguments : List String) : IO UInt32 := do
  let texts := arguments.map textOf
  let tree ← snapshot (CommandLine.parse texts).1
  let result := Session.run buildInfo texts tree
  writeBack tree result.tree
  let stdout ← IO.getStdout
  stdout.write (bytesOf result.stdout)
  stdout.flush
  let stderr ← IO.getStderr
  stderr.write (bytesOf result.stderr)
  stderr.flush
  return result.exit.toUInt32
