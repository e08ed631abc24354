import PotExtract.Config
import PotExtract.Inputs
import PotExtract.Log
import PotExtract.Po.Storage

/-! Extraction: all files are scanned, their messages are merged to a catalog, and the catalog is
written. The first problem ends the run before anything is written. -/

namespace PotExtract

/-- What to scan, and what the catalog is to look like. -/
structure Settings where
  inputs : List String := []
  filesFrom : Option String := none
  searchPaths : List String := []
  output : String := "messages.pot"
  location : Bool := true
  linenumbers : Bool := true
  sortOrder : SortOrder := .none
  domain : Option String := none
  keywords : List String := []
  comments : CommentPolicy := .none
  header : Po.Header := {}
  deriving DecidableEq, Repr

/-- The settings of a configuration. -/
def Settings.ofConfig (c : Config) : Settings :=
  let header : Po.Header := {}
  { location := c.location
    linenumbers := c.linenumbers
    sortOrder := c.sortOrder
    domain := c.domain
    keywords := c.keywords
    comments := c.comments
    header :=
      { packageName := c.packageName.getD header.packageName
        packageVersion := c.packageVersion.getD header.packageVersion
        copyrightHolder := c.copyrightHolder
        msgidBugsAddress := c.msgidBugsAddress } }

/-- Why there is no catalog. -/
inductive BuildError where
  | keyword (error : KeywordError)
  | input (error : InputError)
  | noScanner (file : String)
  | unreadable (file reason : String)
  | scan (error : ScanError)
  deriving DecidableEq, Repr

/-- The error as it is shown to the user. -/
def BuildError.message : BuildError → String
  | .keyword e => e.message
  | .input e => e.message
  | .noScanner file => s!"No extractor available for file {file}"
  | .unreadable file reason => s!"Can not read {file}: {reason}"
  | .scan e => e.message

/-- Why a run failed. -/
inductive RunError where
  | build (error : BuildError)
  | save (error : Po.SaveError)
  deriving DecidableEq, Repr

/-- The error as it is shown to the user. -/
def RunError.message : RunError → String
  | .build e => e.message
  | .save e => e.message

/-- How a run ended. -/
inductive Outcome where
  | written (path : String) (entries : Nat)
  | unchanged (path : String)
  | noFiles
  | noMessages
  deriving DecidableEq, Repr

namespace Extraction

/-- The name of a file in messages: its path without a dot and a slash in front. -/
def displayName (path : String) : String :=
  match path.toList with
  | '.' :: '/' :: rest => String.ofList rest
  | _ => path

/-- The messages of a file, and what there is to say about the scan. -/
def scanFile (fs : FileSystem) (registry : Registry) (options : ScanOptions) (path : String) :
    List LogLine × Except BuildError (List Message) :=
  let file := displayName path
  match registry.forFile? file with
  | none => ([], .error (.noScanner file))
  | some scanner =>
    let scanning : LogLine := ⟨.debug, s!"Scanning {file} with {scanner.name}"⟩
    match fs.read path with
    | .error reason => ([scanning], .error (.unreadable file reason))
    | .ok bytes =>
      let report := scanner.scan options file bytes
      let remarks : List LogLine := report.remarks.map fun r => ⟨.debug, r.message⟩
      (scanning :: remarks, report.outcome.mapError .scan)

/-- The catalog with the messages of files. -/
def scanFiles (fs : FileSystem) (registry : Registry) (options : ScanOptions) (c : Catalog) :
    List String → List LogLine × Except BuildError Catalog
  | [] => ([], .ok c)
  | path :: paths =>
    match scanFile fs registry options path with
    | (log, .error e) => (log, .error e)
    | (log, .ok messages) =>
      let (more, outcome) := scanFiles fs registry options (c.mergeAll messages) paths
      (log ++ more, outcome)

/-- The names to scan: those of the list, then those of the command line. -/
def names (fs : FileSystem) (s : Settings) : Except InputError (List String) := do
  match s.filesFrom with
  | some list => return (← Inputs.readList fs list) ++ s.inputs
  | none => return s.inputs

/-- The files to scan. -/
def files (fs : FileSystem) (registry : Registry) (s : Settings) :
    Except InputError (List String) := do
  Inputs.resolve fs registry s.searchPaths (← names fs s)

/-- The catalog of all files, unless there are none. -/
def build (fs : FileSystem) (registry : Registry) (s : Settings) :
    List LogLine × Except BuildError (Option Catalog) :=
  match ScanOptions.make s.domain s.keywords s.comments with
  | .error e => ([], .error (.keyword e))
  | .ok options =>
    match files fs registry s with
    | .error e => ([], .error (.input e))
    | .ok [] => ([], .ok none)
    | .ok paths =>
      let (log, outcome) := scanFiles fs registry options (.empty s.location) paths
      (log, outcome.map fun c => some (c.finalize s.sortOrder s.linenumbers))

/-- What a run leaves: the disk, what there is to say, and how it ended. -/
structure Report where
  disk : Disk
  log : List LogLine
  outcome : Except RunError Outcome

/-- Builds the catalog and writes it. -/
def run (d : Disk) (clock : Po.Clock) (registry : Registry) (s : Settings)
    (fs : FileSystem := d.files) (host : Host := {}) : Report :=
  match build fs registry s with
  | (log, .error e) => ⟨d, log, .error (.build e)⟩
  | (log, .ok none) => ⟨d, log, .ok .noFiles⟩
  | (log, .ok (some c)) =>
    if c.entries.isEmpty then ⟨d, log, .ok .noMessages⟩
    else
      let count := c.entries.length
      match Po.save d clock c s.header s.output host with
      | (d, .error e) => ⟨d, log, .error (.save e)⟩
      | (d, .ok .written) =>
        ⟨d, log ++ [⟨.info, s!"Wrote {count} message(s) to {s.output}"⟩],
          .ok (.written s.output count)⟩
      | (d, .ok .unchanged) =>
        ⟨d, log ++ [⟨.info, s!"Catalog unchanged, not writing {s.output}"⟩],
          .ok (.unchanged s.output)⟩

end Extraction

end PotExtract
