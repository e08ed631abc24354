import PotExtract.Disk
import PotExtract.Po.Reader
import PotExtract.Po.Writer

/-! Catalogs on a disk. A catalog is written only where none says the same, and it takes the place
of a file as a whole. -/

namespace PotExtract.Po

open Text

/-- Why a file is not a catalog. -/
inductive LoadError where
  | unreadable (path : String) (error : DiskError)
  | unparsable (path : String) (fault : ReadFault)
  deriving DecidableEq, Repr

/-- The error as it is shown to the user. -/
def LoadError.message : LoadError → String
  | .unreadable path error => s!"Failed to read catalog: {path}: {error.message}"
  | .unparsable path fault => s!"Failed to parse catalog: {path}: {fault.message}"

/-- Why a catalog is not written. -/
inductive SaveError where
  /-- The file in its place has a value without quotes, which is not passed over. -/
  | damaged (path : String)
  | noDirectory (path : String) (error : DiskError)
  | noDraft (directory : String) (error : DiskError)
  | notWritten (draft : String) (error : DiskError)
  | notReadBack (draft : String) (error : DiskError)
  | notReplaced (path : String) (error : DiskError)
  deriving DecidableEq, Repr

/-- The error as it is shown to the user. -/
def SaveError.message : SaveError → String
  | .damaged path => (LoadError.unparsable path .noQuotes).message
  | .noDirectory path error => s!"Failed to create directory: {path}: {error.message}"
  | .noDraft directory error =>
    s!"Failed to create temporary file in {directory}: {error.message}"
  | .notWritten draft error => s!"Failed to write catalog: {draft}: {error.message}"
  | .notReadBack draft error => s!"Failed to read back {draft}: {error.message}"
  | .notReplaced path error => s!"Failed to replace {path}: {error.message}"

/-- What became of the file. -/
inductive SaveOutcome where
  | written
  | unchanged
  deriving DecidableEq, Repr

/-- The catalog in a file. -/
def load (d : Disk) (path : String) (host : Host := {}) : Except LoadError Catalog :=
  match host.answer d (.readFile path) (d.readText path) with
  | .error e => .error (.unreadable path e)
  | .ok text =>
    match parseText d text host with
    | .ok c => .ok c
    | .error fault => .error (.unparsable path fault)

/-- Whether the file at a path says the same as a catalog. -/
def isCurrent (d : Disk) (c : Catalog) (path : String) (host : Host := {}) :
    Except SaveError Bool :=
  if d.hasFile path then
    match load d path host with
    | .ok old => .ok (old.sameMessages c)
    | .error (.unparsable path .noQuotes) => .error (.damaged path)
    | .error _ => .ok false
  else .ok false

/-- The directory of a file. -/
def directoryOf (path : String) : String :=
  match Path.parent? path with
  | none | some "" => "."
  | some directory => directory

/-- Writes a catalog into a draft: first behind a plain header, which is then read back and
decorated. -/
def fillDraft (d : Disk) (draft : Disk.Draft) (clock : Clock) (c : Catalog) (h : Header)
    (host : Host := {}) : Disk × Except SaveError Unit :=
  match d.writeDraft draft (encodeUtf8 (plainText c h clock)) host with
  | (d, .error e) => (d, .error (.notWritten draft.path e))
  | (d, .ok ()) =>
    match d.readDraft draft host with
    | .error e => (d, .error (.notReadBack draft.path e))
    | .ok text =>
      match d.writeDraft draft (encodeUtf8 (decorateHeader h clock text)) host with
      | (d, .error e) => (d, .error (.notWritten draft.path e))
      | (d, .ok ()) => (d, .ok ())

/-- Puts a catalog in the place of the file at a path by way of a draft in its directory, which does
not outlive a failure. -/
def replaceCatalog (d : Disk) (clock : Clock) (c : Catalog) (h : Header) (path : String)
    (host : Host := {}) : Disk × Except SaveError SaveOutcome :=
  match d.createDraft (directoryOf path) host with
  | .error e => (d, .error (.noDraft (directoryOf path) e))
  | .ok (d, draft) =>
    match fillDraft d draft clock c h host with
    | (d, .error e) => (d.remove draft.place, .error e)
    | (d, .ok ()) =>
      match d.moveDraft draft path host with
      | .error e => (d.remove draft.place, .error (.notReplaced path e))
      | .ok d => (d, .ok .written)

/-- Writes a catalog together with the directories above it. -/
def writeCatalog (d : Disk) (clock : Clock) (c : Catalog) (h : Header) (path : String)
    (host : Host := {}) : Disk × Except SaveError SaveOutcome :=
  match d.makeDirectories (directoryOf path) host with
  | (d, .error e) => (d, .error (.noDirectory (directoryOf path) e))
  | (d, .ok ()) => replaceCatalog d clock c h path host

/-- Writes a catalog unless the file says the same already. -/
def save (d : Disk) (clock : Clock) (c : Catalog) (h : Header) (path : String)
    (host : Host := {}) : Disk × Except SaveError SaveOutcome :=
  match isCurrent d c path host with
  | .error e => (d, .error e)
  | .ok true => (d, .ok .unchanged)
  | .ok false => writeCatalog d clock c h path host

end PotExtract.Po
