import PotExtract.CommandLine.Arguments
import PotExtract.Extraction

/-! The program that extracts messages into a catalog. Its options go before the configuration. -/

namespace PotExtract.CommandLine.PotCreate

/-- The options. -/
def grammar : Grammar where
  program := "pot-create"
  operand := "[FILE]..."
  options :=
    [{ long := "config", arity := .value, accepts := isPath,
       about := "Path to configuration file" },
      { long := "log-level", arity := .value, accepts := fun v => (LogLevel.ofName? v).isSome,
        about := "Log level (error, warn, info, debug)" },
      { long := "quiet", short := some 'q', about := "Only report errors" },
      { long := "files-from", short := some 'f', arity := .value, accepts := isPath,
        about := "Get list of files to process from FILE" },
      { long := "directory", short := some 'D', arity := .value, repeatable := true,
        accepts := isPath, about := "Add DIRECTORY to the list of paths searched for input files" },
      { long := "output", short := some 'o', arity := .value, accepts := isPath,
        about := "Filename for the generated POT file" },
      { long := "no-location", about := "Do not include location information" },
      { long := "no-linenumbers", about := "Do not include line numbers in location information" },
      { long := "sort-by-file", about := "Order messages by their source location" },
      { long := "sort-by-msgid", about := "Order messages by message id" },
      { long := "domain", short := some 'd', arity := .value, about := "Domain to extract" },
      { long := "keyword", short := some 'k', arity := .value, repeatable := true,
        about := "Additional keyword spec, e.g. tr or ntr:1,2 (repeatable)" },
      { long := "add-comments", short := some 'c', arity := .optionalValue,
        about := "Add comments in front of calls, optionally only those starting with TAG" },
      { long := "copyright-holder", arity := .value, about := "Copyright holder for the texts" },
      { long := "package-name", arity := .value, about := "Package name to use in the POT header" },
      { long := "package-version", arity := .value,
        about := "Package version to use in the POT header" },
      { long := "msgid-bugs-address", arity := .value,
        about := "Email address bugs in message ids should be sent to" }]

/-- The words of a command line, which orders messages in one way. -/
def read (arguments : List String) : Except Stop (List Word) := do
  let words ← grammar.read arguments
  if given words "sort-by-file" && given words "sort-by-msgid" then
    throw (.usage (.conflict "sort-by-file" "sort-by-msgid"))
  return words

/-- The header with what a command line says of the project. -/
def header (words : List Word) (h : Po.Header) : Po.Header where
  packageName := (value? words "package-name").getD h.packageName
  packageVersion := (value? words "package-version").getD h.packageVersion
  copyrightHolder := (value? words "copyright-holder").or h.copyrightHolder
  msgidBugsAddress := (value? words "msgid-bugs-address").or h.msgidBugsAddress

/-- The order that a command line asks for. -/
def sortOrder (words : List Word) (order : SortOrder) : SortOrder :=
  if given words "sort-by-file" then .location
  else if given words "sort-by-msgid" then .msgid
  else order

/-- The settings of a command line, with those of the configuration where it says nothing. -/
def settings (words : List Word) (c : Config) : Settings :=
  let s := Settings.ofConfig c
  { inputs := operands words
    filesFrom := value? words "files-from"
    searchPaths := values words "directory"
    output := (value? words "output").getD s.output
    location := s.location && !given words "no-location"
    linenumbers := s.linenumbers && !given words "no-linenumbers"
    sortOrder := sortOrder words s.sortOrder
    domain := (value? words "domain").or s.domain
    keywords := s.keywords ++ values words "keyword"
    comments :=
      match value? words "add-comments" with
      | some tag => .ofTag (some tag)
      | none => s.comments
    header := header words s.header }

/-- How much a command line asks to be shown. -/
def logLevel (words : List Word) : LogLevel :=
  .resolve (given words "quiet") ((value? words "log-level").bind LogLevel.ofName?)

/-- The registry and the settings for a command line. -/
def prepare (d : Disk) (words : List Word) : Except String (Registry × Settings) :=
  match Config.loadOrDefault d (value? words "config") with
  | .error e => .error e.message
  | .ok c =>
    match c.configure .defaults with
    | .error e => .error e.message
    | .ok r => .ok (r, settings words c)

/-- The paths that a command line names, the default ones included. -/
def pathsNamed (words : List Word) : List String :=
  [(value? words "config").getD Config.defaultFile,
    (value? words "output").getD ({} : Settings).output] ++
    values words "files-from" ++ values words "directory" ++ operands words

/-- The files that a run scans. -/
def filesScanned (d : Disk) (words : List Word) : List String :=
  match prepare d words with
  | .error _ => []
  | .ok (registry, settings) =>
    match Extraction.files d registry settings with
    | .error _ => []
    | .ok paths => paths

/-- The exit code of a run, and the last line it shows. -/
def ending : Except RunError Outcome → Nat × Option String
  | .ok (.written _ _) | .ok (.unchanged _) => (0, none)
  | .ok .noFiles => (1, some "No files scanned, aborting")
  | .ok .noMessages => (2, some "No translatable strings found, aborting")
  | .error (.save (.damaged path)) => (101, some (Po.SaveError.damaged path).message)
  | .error e => (1, some e.message)

/-- Runs the program. -/
def run (d : Disk) (clock : Po.Clock) (arguments : List String) : Result :=
  match read arguments with
  | .error stop => stopped grammar d stop
  | .ok words =>
    let showing (lines : List LogLine) : Console := ({} : Console).putAll (logLevel words) lines
    match prepare d words with
    | .error message => ⟨1, showing [⟨.error, message⟩], d⟩
    | .ok (registry, settings) =>
      let report := Extraction.run d clock registry settings
      let (code, last) := ending report.outcome
      ⟨code, showing (report.log ++ last.toList.map (⟨.error, ·⟩)), report.disk⟩

end PotExtract.CommandLine.PotCreate
