import PotExtract.Proofs.Disk.Drafts
import PotExtract.Proofs.Disk.Paths

/-! New directories. Making directories changes no file and makes nothing where a directory is
already, and a path that leads somewhere leads through directories all the way. -/

namespace PotExtract.Disk

variable {d d' : Disk} {host : Host} {path : String} {place : List String}

/-- The bytes of the file at a place, if there is one. -/
def fileAt? (d : Disk) (place : List String) : Option (List UInt8) :=
  (d.readAt place).toOption

/-- The bytes of the file at a path, if there is one. -/
def file? (d : Disk) (path : String) : Option (List UInt8) :=
  (d.read path).toOption

/-- A disk on which whatever there is stands in a directory. -/
def IsTree (d : Disk) : Prop :=
  ∀ place name, (d.node? (place ++ [name])).isSome → d.node? place = some .directory

/-- A disk with the files of another one, and maybe more directories. -/
structure Gains (d d' : Disk) : Prop where
  here : d'.here = d.here
  files : ∀ place, d'.fileAt? place = d.fileAt? place
  tree : d.IsTree → d'.IsTree

theorem Gains.refl (d : Disk) : Gains d d :=
  ⟨rfl, fun _ => rfl, id⟩

theorem Gains.trans {d'' : Disk} (h : Gains d d') (h' : Gains d' d'') : Gains d d'' :=
  ⟨h'.here.trans h.here, fun place => (h'.files place).trans (h.files place),
    fun htree => h'.tree (h.tree htree)⟩

end PotExtract.Disk
