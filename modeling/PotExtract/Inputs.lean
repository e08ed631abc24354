import PotExtract.Disk.Glob
import PotExtract.Scanner.Registry
import PotExtract.Text.Blank
import PotExtract.Text.Lines

/-! The files to scan: what the names of a command line or of a list stand for. They are looked up in
and read from the disk, or anything else that answers the same questions. What cannot be read is
answered with the reason. -/

namespace PotExtract

/-- The answers about inputs. -/
structure FileSystem where
  read : String → Except String (List UInt8)
  readText : String → Except String (List Char)
  hasNode : String → Bool
  hasDirectory : String → Bool
  /-- The paths of the files below a directory, in their order. -/
  filesBelow : String → Except String (List String)
  /-- The paths that a pattern stands for, in their order. -/
  expand : String → Except String (List String)

/-- The files of a disk. -/
def Disk.files (d : Disk) : FileSystem where
  read path := (d.read path).mapError DiskError.message
  readText path := (d.readText path).mapError DiskError.message
  hasNode := d.hasNode
  hasDirectory := d.hasDirectory
  filesBelow path := .ok (d.filesBelow path)
  expand pattern := (Glob.expand d pattern).mapError Glob.PatternError.message

instance : Coe Disk FileSystem :=
  ⟨Disk.files⟩

/-- Why the names do not give a list of files. -/
inductive InputError where
  | notFound (name : String)
  | noScanner (name : String)
  | unreadable (path reason : String)
  deriving DecidableEq, Repr

/-- The error as it is shown to the user. -/
def InputError.message : InputError → String
  | .notFound name => s!"Can not find file {name}"
  | .noScanner name => s!"No extractor available for file {name}"
  | .unreadable path reason => s!"Can not read {path}: {reason}"

namespace Inputs

/-- The names in a list, one a line. -/
def readList (fs : FileSystem) (path : String) : Except InputError (List String) :=
  match fs.readText path with
  | .error reason => .error (.unreadable path reason)
  | .ok text => .ok (((Text.lines text).map fun l => String.ofList (Text.trim l)).filter (· != ""))

/-- The path of a name: as it is, or below the first directory that has it. -/
def find? (fs : FileSystem) (name : String) (directories : List String) : Option String :=
  if fs.hasNode name then some name
  else if Path.isAbsolute name then none
  else (directories.map (Path.join · name)).find? fs.hasNode

/-- The paths that a name stands for. -/
def named (fs : FileSystem) (directories : List String) (name : String) :
    Except InputError (List String) :=
  if Glob.isPattern name then
    match fs.expand name with
    | .error reason => .error (.unreadable name reason)
    | .ok [] => .error (.notFound name)
    | .ok paths => .ok paths
  else
    match find? fs name directories with
    | none => .error (.notFound name)
    | some path => .ok [path]

/-- The files that a path stands for: all in a directory that there is a scanner for, or itself. -/
def filesAt (fs : FileSystem) (registry : Registry) (name path : String) :
    Except InputError (List String) :=
  if fs.hasDirectory path then
    match fs.filesBelow path with
    | .error reason => .error (.unreadable path reason)
    | .ok files => .ok (files.filter registry.supports)
  else if registry.supports path then .ok [path]
  else .error (.noScanner name)

/-- The list with a path at its end, unless it has it in any spelling. -/
def addPath (paths : List String) (path : String) : List String :=
  if paths.any (Path.same path) then paths else paths ++ [path]

/-- The list with the files that the paths of a name stand for, as far as it does not have them. -/
def addFiles (fs : FileSystem) (registry : Registry) (name : String) (files paths : List String) :
    Except InputError (List String) :=
  paths.foldlM (fun files path => return (← filesAt fs registry name path).foldl addPath files) files

/-- The names that were looked at, and the files they stand for. -/
structure Resolution where
  seen : List String := []
  files : List String := []

/-- Looks at one more name, unless it was looked at before. -/
def Resolution.add (fs : FileSystem) (registry : Registry) (directories : List String)
    (r : Resolution) (name : String) : Except InputError Resolution :=
  if name ∈ r.seen then .ok r
  else do
    let paths ← named fs directories name
    return ⟨r.seen ++ [name], ← addFiles fs registry name r.files paths⟩

/-- The files that names stand for, each once. -/
def resolve (fs : FileSystem) (registry : Registry) (directories names : List String) :
    Except InputError (List String) := do
  return (← names.foldlM (Resolution.add fs registry directories) {}).files

end Inputs

end PotExtract
