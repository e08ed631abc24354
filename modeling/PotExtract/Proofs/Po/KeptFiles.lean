import PotExtract.Proofs.Disk.FilePaths
import PotExtract.Proofs.Po.DraftedSave

/-! What a save leaves of the files. A save that writes nothing changes no file at all, and one that
writes changes no other file than its own. -/

namespace PotExtract.Po

open Text

variable {d d' : Disk} {clock : Clock} {c : Catalog} {h : Header} {path : String} {host : Host}

/-! ### The directory of a file -/

/-- A disk on which a save that wrote nothing has left the files of another one alone. The directories
that it has made for its file stay, so a path that goes up from a directory that was missing, and so
led nowhere, may lead to the file that it names. -/
structure KeepsFiles (host : Host) (d d' : Disk) (path : String) : Prop where
  /-- The path names the file that it named, with the same bytes, or none as before. -/
  target : d'.fileAt? (d'.target path) = d.fileAt? (d.target path)
  /-- No file appears, disappears or changes anywhere. -/
  files : ∀ place, d'.fileAt? place = d.fileAt? place
  /-- Nothing changes at all if the file is there, or its directory. -/
  disk : (d.file? path).isSome ∨ d.hasDirectory (directoryOf path) → d' = d
  /-- The path leads to the file that it led to, or to none as before. Or it has led to none and leads
  to the file that it names, which takes a way up and a host that refuses something. -/
  file : d'.file? path = d.file? path ∨
    d.file? path = none ∧ d'.file? path = d.fileAt? (d.target path) ∧
      (d.IsTree → ".." ∈ Path.pieces path ∧ ¬host.IsObliging)

theorem KeepsFiles.refl (host : Host) (d : Disk) (path : String) : KeepsFiles host d d path :=
  ⟨rfl, fun _ => rfl, fun _ => rfl, .inl rfl⟩

end PotExtract.Po
