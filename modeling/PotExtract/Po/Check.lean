import PotExtract.Disk
import PotExtract.Log
import PotExtract.Po.Lint
import PotExtract.Po.Reader

/-! Checking PO files on a disk. A file that cannot be read as a catalog is passed over with a
warning. -/

namespace PotExtract.Po

/-- Why a file is passed over. -/
inductive CheckFault where
  | unreadable (error : DiskError)
  | unparsable (fault : ReadFault)
  deriving DecidableEq, Repr

/-- The warnings about a file. -/
def CheckFault.warnings (path : String) : CheckFault → List LogLine
  | .unreadable .notText =>
    [⟨.warn, s!"Character encoding problems occurred while parsing {path}"⟩,
      ⟨.warn, "Perhaps this is not a PO file?"⟩]
  | .unreadable error => [⟨.warn, s!"Can not read {path}: {error.message}"⟩]
  | .unparsable fault => [⟨.warn, s!"Can not parse {path}: {fault.message}"⟩]

/-- The problems of a file. -/
def check (d : Disk) (path : String) (host : Host := {}) : Except CheckFault LintReport :=
  match host.answer d (.readFile path) (d.readText path) with
  | .error e => .error (.unreadable e)
  | .ok text =>
    match parseText d text host with
    | .error fault => .error (.unparsable fault)
    | .ok _ => .ok (lint (readEntries text))

end PotExtract.Po
