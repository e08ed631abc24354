import PotExtract.Catalog
import PotExtract.Comment
import PotExtract.Disk
import PotExtract.Json5.Reader
import PotExtract.Scanner.Registry

/-! The configuration: settings in a JSON5 file, by name or as a list in their order. -/

namespace PotExtract

/-- The settings of a project. -/
structure Config where
  keywords : List String := []
  comments : CommentPolicy := .none
  domain : Option String := none
  extensions : List (String × String) := []
  defaultEngine : List (String × String) := []
  location : Bool := true
  linenumbers : Bool := true
  sortOrder : SortOrder := .none
  packageName : Option String := none
  packageVersion : Option String := none
  copyrightHolder : Option String := none
  msgidBugsAddress : Option String := none
  deriving DecidableEq, Repr

/-- Why a text is not a configuration. -/
inductive ConfigFault where
  | notJson5
  | notSettings
  | unreadable
  | repeated (setting : String)
  | badValue (setting : String)
  deriving DecidableEq, Repr

/-- The fault as it is shown to the user. -/
def ConfigFault.message : ConfigFault → String
  | .notJson5 => "not a JSON5 text"
  | .notSettings => "not an object of settings"
  | .unreadable => "a value that can not be read"
  | .repeated setting => s!"duplicate field: {setting}"
  | .badValue setting => s!"invalid value for {setting}"

/-- Why there is no configuration. -/
inductive ConfigError where
  | unreadable (path : String) (error : DiskError)
  | unparsable (path : String) (fault : ConfigFault)
  deriving DecidableEq, Repr

/-- The error as it is shown to the user. -/
def ConfigError.message : ConfigError → String
  | .unreadable path error => s!"Failed to read config file: {path}: {error.message}"
  | .unparsable path fault => s!"Failed to parse config file: {path}: {fault.message}"

namespace Config

open Json5 Text

/-! ### Values of settings -/

/-- A text. -/
def asText? : Value → Option String
  | .text raw => raw.text?
  | _ => none

/-- A truth value. -/
def asBool? : Value → Option Bool
  | .bool b => some b
  | _ => none

/-- A value that may be null. -/
def orNull? (read? : Value → Option α) : Value → Option (Option α)
  | .null => some none
  | v => (read? v).map some

/-- A list of texts. -/
def asTexts? : Value → Option (List String)
  | .array items => items.mapM asText?
  | _ => none

/-- The pairs with one more, in the order of the keys and in place of the pair with the same key. -/
def insertPair (pairs : List (String × String)) (pair : String × String) : List (String × String) :=
  sortBy (fun a b => compareStrings a.1 b.1) (pair :: pairs.filter (·.1 != pair.1))

/-- Texts by key, in the order of the keys. The last of several with the same key counts. -/
def asTextMap? : Value → Option (List (String × String))
  | .object members => do
    let pairs ← members.mapM fun (m : RawText × Value) => do
      return (← m.1.text?, ← asText? m.2)
    return pairs.foldl insertPair []
  | _ => none

/-- Which comments are kept: all or none, or those with a tag. -/
def asPolicy? : Value → Option CommentPolicy
  | .null => some .none
  | .bool b => some (if b then .all else .none)
  | .text raw => raw.text?.map fun tag => .ofTag (some tag)
  | _ => none

/-- A choice by its name, which is a text or the first key of an object. The rest of the object is
not looked at. -/
def asChoice? : Value → Option String
  | .text raw => raw.text?
  | .object ((key, _) :: _) => key.text?
  | _ => none

/-- An order by its name. -/
def asSortOrder? (v : Value) : Option SortOrder :=
  match asChoice? v with
  | some "none" => some .none
  | some "msgid" => some .msgid
  | some "location" => some .location
  | _ => none

/-! ### Settings -/

/-- A setting: its name, and how its value changes a configuration. -/
structure Setting where
  name : String
  set? : Config → Value → Option Config

/-- The settings in their order. -/
def settings : List Setting :=
  [⟨"keywords", fun c v => (asTexts? v).map fun x => { c with keywords := x }⟩,
    ⟨"commentTag", fun c v => (asPolicy? v).map fun x => { c with comments := x }⟩,
    ⟨"domain", fun c v => (orNull? asText? v).map fun x => { c with domain := x }⟩,
    ⟨"extensions", fun c v => (asTextMap? v).map fun x => { c with extensions := x }⟩,
    ⟨"defaultEngine", fun c v => (asTextMap? v).map fun x => { c with defaultEngine := x }⟩,
    ⟨"location", fun c v => (asBool? v).map fun x => { c with location := x }⟩,
    ⟨"linenumbers", fun c v => (asBool? v).map fun x => { c with linenumbers := x }⟩,
    ⟨"sortOrder", fun c v => (asSortOrder? v).map fun x => { c with sortOrder := x }⟩,
    ⟨"packageName", fun c v => (orNull? asText? v).map fun x => { c with packageName := x }⟩,
    ⟨"packageVersion", fun c v => (orNull? asText? v).map fun x => { c with packageVersion := x }⟩,
    ⟨"copyrightHolder", fun c v =>
      (orNull? asText? v).map fun x => { c with copyrightHolder := x }⟩,
    ⟨"msgidBugsAddress", fun c v =>
      (orNull? asText? v).map fun x => { c with msgidBugsAddress := x }⟩]

/-- Applies a setting. -/
def apply (c : Config) (s : Setting) (v : Value) : Except ConfigFault Config :=
  match s.set? c v with
  | some c => .ok c
  | none => .error (.badValue s.name)

/-- The setting that a name is the name of. -/
def setting? (name : String) : Option Setting :=
  settings.find? (·.name == name)

/-- Applies the members of an object. Unknown ones are passed over if they can be read, and a known
one comes once. -/
def applyMembers (c : Config) (seen : List String) :
    List (RawText × Value) → Except ConfigFault Config
  | [] => .ok c
  | (key, v) :: members =>
    match key.text? with
    | none => .error .unreadable
    | some name =>
      match setting? name with
      | none => if v.isReadable then applyMembers c seen members else .error .unreadable
      | some s =>
        if name ∈ seen then .error (.repeated name)
        else do applyMembers (← c.apply s v) (name :: seen) members

/-- The configuration in a value. Items of a list behind the last setting are not looked at. -/
def ofValue : Value → Except ConfigFault Config
  | .object members => applyMembers {} [] members
  | .array items => (settings.zip items).foldlM (fun c (s, v) => c.apply s v) {}
  | _ => .error .notSettings

/-- The configuration in a text. -/
def parse (text : List Char) : Except ConfigFault Config :=
  match Json5.read? text with
  | some v => ofValue v
  | none => .error .notJson5

/-! ### Files -/

/-- The file that is looked for in the working directory. -/
def defaultFile : String := "msgscan.json"

/-- The configuration in a file. -/
def load (d : Disk) (path : String) : Except ConfigError Config :=
  match d.readText path with
  | .error e => .error (.unreadable path e)
  | .ok text =>
    match parse text with
    | .ok c => .ok c
    | .error fault => .error (.unparsable path fault)

/-- The configuration in a file, if one is named or the default one is there. -/
def loadOrDefault (d : Disk) (path? : Option String) : Except ConfigError Config :=
  match path? with
  | some path => load d path
  | none => if d.hasNode defaultFile then load d defaultFile else .ok {}

/-- The registry with the extensions and engines of the configuration. -/
def configure (c : Config) (r : Registry) : Except RegistryError Registry := do
  let r ← c.extensions.foldlM (fun r (extension, name) => r.mapExtension extension name) r
  c.defaultEngine.foldlM (fun r (name, engine) => r.setEngine name engine) r

end Config

end PotExtract
