import PotExtract.CommandLine.PoLint
import PotExtract.CommandLine.PotCreate
import Std.Time.Format

/-! The programs on a real disk. The directories and names that a run can look at are read first,
then the files it needs, and what the run changes is written back. A file that cannot be read is
taken to be absent. -/

namespace PotExtract.Real

/-- The time of the day. -/
def clock : IO Po.Clock := do
  let now ← Std.Time.DateTime.now
  return ⟨now.format "uuuu-MM-dd HH:mmxx", now.format "uuuu"⟩

/-- The disk with an empty file at a path. -/
def withName (d : Disk) (path : String) : Disk :=
  let d := (d.makeDirectories (Po.directoryOf path)).1
  (d.replaceFile path []).toOption.getD d

/-- The disk with the names in a directory and below it. -/
partial def readNames (d : Disk) (directory : String) : IO Disk := do
  let mut d := (d.makeDirectories directory).1
  for entry in ← ((← IO.currentDir) / directory).readDir do
    let path := Path.join directory entry.fileName
    match (← entry.path.symlinkMetadata).type with
    | .dir => d ← readNames d path
    | .file => d := withName d path
    | _ => pure ()
  return d

/-- The disk with what a path outside of it names. -/
def readOutside (d : Disk) (path : String) : IO Disk := do
  if d.hasNode path then return d
  try readNames d path
  catch _ =>
    try
      let bytes ← IO.FS.readBinFile path
      let d := (d.makeDirectories (Po.directoryOf path)).1
      return (d.replaceFile path bytes.toList).toOption.getD d
    catch _ => return d

/-- The disk with the bytes of a file. -/
def readFile (d : Disk) (path : String) : IO Disk := do
  if d.hasFile path then
    try return (d.replaceFile path (← IO.FS.readBinFile path).toList).toOption.getD d
    catch _ => return d
  else return d

/-- The disk with the working directory and the paths of a command line. -/
def readDisk (paths : List String) : IO Disk := do
  let here := ((Path.pieces (← IO.currentDir).toString).filter (· != ""))
  let empty := (({ here } : Disk).makeDirectories ("/" ++ "/".intercalate here)).1
  let d ← readNames empty "."
  paths.foldlM readOutside d

/-- Writes the nodes that a run has changed. A file is written beside its place and then moved
there. -/
def writeChanges (before after : Disk) : IO Unit := do
  for (place, node) in after.nodes do
    if before.node? place != some node then
      let path := "/" ++ "/".intercalate place
      match node with
      | .directory => IO.FS.createDirAll path
      | .file bytes =>
        let beside := path ++ ".new"
        IO.FS.writeBinFile beside ⟨bytes.toArray⟩
        IO.FS.rename beside path

/-- Shows what a run shows, and gives its exit code. -/
def finish (before : Disk) (result : CommandLine.Result) : IO UInt32 := do
  writeChanges before result.disk
  IO.print result.console.out
  IO.eprint result.console.err
  return result.code.toUInt32

/-- Extracts messages. -/
def potCreate (arguments : List String) : IO UInt32 := do
  match CommandLine.PotCreate.read arguments with
  | .error stop => finish {} (CommandLine.stopped CommandLine.PotCreate.grammar {} stop)
  | .ok words =>
    let named := CommandLine.PotCreate.pathsNamed words
    let d ← named.foldlM readFile (← readDisk named)
    let d ← (CommandLine.PotCreate.filesScanned d words).foldlM readFile d
    finish d (CommandLine.PotCreate.run d (← clock) arguments)

/-- Checks PO files. -/
def poLint (arguments : List String) : IO UInt32 := do
  match CommandLine.PoLint.read arguments with
  | .error stop => finish {} (CommandLine.stopped CommandLine.PoLint.grammar {} stop)
  | .ok words =>
    let paths := CommandLine.operands words
    let d ← paths.foldlM readFile (← readDisk paths)
    finish d (CommandLine.PoLint.run d arguments)

end PotExtract.Real

/-- Runs the program that the executable is named for. -/
def main (arguments : List String) : IO UInt32 := do
  if (← IO.appPath).fileStem = some "polint" then PotExtract.Real.poLint arguments
  else PotExtract.Real.potCreate arguments
