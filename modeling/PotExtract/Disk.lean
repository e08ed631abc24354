import PotExtract.Disk.Path
import PotExtract.Text.Utf8

/-! A disk: directories and files by their names from the root on, and the working directory that
relative paths start at. -/

namespace PotExtract

open Text

/-- Why a path cannot be used. -/
inductive DiskError where
  | noEntry
  | notDirectory
  | isDirectory
  | alreadyThere
  | busy
  | notText
  /-- What the host says for reasons of its own. -/
  | refused (reason : String)
  deriving DecidableEq, Repr

/-- The error as it is shown to the user. -/
def DiskError.message : DiskError → String
  | .noEntry => "No such file or directory (os error 2)"
  | .notDirectory => "Not a directory (os error 20)"
  | .isDirectory => "Is a directory (os error 21)"
  | .alreadyThere => "File exists (os error 17)"
  | .busy => "Device or resource busy (os error 16)"
  | .notText => "stream did not contain valid UTF-8"
  | .refused reason => reason

/-- What stands at a place. -/
inductive DiskNode where
  | file (bytes : List UInt8)
  | directory
  deriving DecidableEq, Repr

/-- The nodes of a disk below its root, each at its place, and the working directory. -/
structure Disk where
  here : List String := []
  nodes : List (List String × DiskNode) := []
  deriving DecidableEq, Repr

namespace Disk

/-- The node at a place. The root is a directory. -/
def node? (d : Disk) (place : List String) : Option DiskNode :=
  if place.isEmpty then some .directory else d.nodes.lookup place

/-- Puts a node at a place. -/
def put (d : Disk) (place : List String) (node : DiskNode) : Disk :=
  { d with nodes := d.nodes.filter (fun n => n.1 != place) ++ [(place, node)] }

/-! ### Looking up paths -/

/-- Goes on from a place by a piece of a path. -/
def step (d : Disk) (place : List String) (piece : String) : Except DiskError (List String) :=
  match d.node? place with
  | none => .error .noEntry
  | some (.file _) => .error .notDirectory
  | some .directory =>
    if piece = "" ∨ piece = "." then .ok place
    else if piece = ".." then .ok place.dropLast
    else if (d.node? (place ++ [piece])).isSome then .ok (place ++ [piece])
    else .error .noEntry

/-- The place at which a path starts. -/
def start (d : Disk) (path : String) : List String :=
  if Path.isAbsolute path then [] else d.here

/-- The place of a path. -/
def place (d : Disk) (path : String) : Except DiskError (List String) :=
  if path = "" then .error .noEntry else (Path.pieces path).foldlM d.step (d.start path)

/-- The node of a path. -/
def nodeAt? (d : Disk) (path : String) : Option DiskNode :=
  match d.place path with
  | .ok place => d.node? place
  | .error _ => none

/-- Whether there is anything at a path. -/
def hasNode (d : Disk) (path : String) : Bool :=
  (d.nodeAt? path).isSome

/-- Whether there is a directory at a path. -/
def hasDirectory (d : Disk) (path : String) : Bool :=
  d.nodeAt? path == some .directory

/-- Whether there is a file at a path. -/
def hasFile (d : Disk) (path : String) : Bool :=
  match d.nodeAt? path with
  | some (.file _) => true
  | _ => false

/-- The bytes of the file at a place. -/
def readAt (d : Disk) (place : List String) : Except DiskError (List UInt8) :=
  match d.node? place with
  | some (.file bytes) => .ok bytes
  | some .directory => .error .isDirectory
  | none => .error .noEntry

/-- The bytes of a file. -/
def read (d : Disk) (path : String) : Except DiskError (List UInt8) := do
  d.readAt (← d.place path)

/-- The text that bytes stand for. -/
def textOf (bytes : List UInt8) : Except DiskError (List Char) :=
  match decodeUtf8 bytes with
  | .ok text => .ok text
  | .error _ => .error .notText

/-- The text of a file. -/
def readText (d : Disk) (path : String) : Except DiskError (List Char) := do
  textOf (← d.read path)

/-- What stands below a place, with the names from there on, in the order of the names: what is in a
directory follows the directory. -/
def below (d : Disk) (place : List String) : List (List String × DiskNode) :=
  let found := d.nodes.filterMap fun (other, node) =>
    match place.isPrefixOf? other with
    | some (name :: names) => some (name :: names, node)
    | _ => none
  sortBy (fun a b => compareLists compareStrings a.1 b.1) found

/-- What stands below a path. -/
def belowPath (d : Disk) (path : String) : List (List String × DiskNode) :=
  match d.place path with
  | .ok place => d.below place
  | .error _ => []

/-- The files below a directory, with their paths from it on. -/
def filesBelow (d : Disk) (path : String) : List String :=
  (d.belowPath path).filterMap fun (names, node) =>
    match node with
    | .file _ => some (Path.join path ("/".intercalate names))
    | .directory => none

/-! ### Hosts -/

/-- Takes what stands at a place away. -/
def remove (d : Disk) (place : List String) : Disk :=
  { d with nodes := d.nodes.filter (fun n => n.1 != place) }

/-- The length of the longest name. -/
def longestName (d : Disk) : Nat :=
  (d.nodes.map fun n => (n.1.getLastD "").length).max?.getD 0

/-- A name that is longer than all there are. -/
def unusedName (d : Disk) : String :=
  String.ofList ('.' :: 't' :: 'm' :: 'p' :: List.replicate d.longestName 'x')

theorem node?_unusedName (d : Disk) (place : List String) :
    d.node? (place ++ [d.unusedName]) = none := by
  have hplace : (place ++ [d.unusedName]).isEmpty = false := by simp
  rw [node?, hplace, if_neg Bool.false_ne_true, List.lookup_eq_none_iff]
  intro n hn
  have hlength : (n.1.getLastD "").length ≤ d.longestName :=
    List.le_max?_getD_of_mem (List.mem_map_of_mem hn)
  have hlonger : d.longestName < d.unusedName.length := by
    simp only [unusedName, String.length_ofList, List.length_cons, List.length_replicate]
    omega
  rw [bne_iff_ne]
  intro heq
  rw [← heq, List.getLastD_concat] at hlength
  exact absurd hlength (Nat.not_le.2 hlonger)

end Disk

/-- What a host is asked to do with a disk. Files are named by their paths. A scratch file stands where
the host keeps such files, and is no part of the disk. -/
inductive Request where
  | readFile (path : String)
  | makeDirectory (path : String)
  | createFile (directory : String)
  | writeFile (path : String)
  | moveFile (old new : String)
  | createScratch
  | writeScratch
  deriving DecidableEq, Repr

/-- What carries out requests. It may refuse any of them, and chooses the names of new files, which
nothing has so far. -/
structure Host where
  refuses : Disk → Request → Option DiskError := fun _ _ => none
  /-- How many bytes a refused request to write leaves in the file. -/
  leaves : Disk → Request → Nat := fun _ _ => 0
  newName : (d : Disk) → (place : List String) → { name // d.node? (place ++ [name]) = none } :=
    fun d place => ⟨d.unusedName, d.node?_unusedName place⟩

/-- The answer to a request, unless it is refused. -/
def Host.answer (host : Host) (d : Disk) (request : Request) (x : Except DiskError α) :
    Except DiskError α :=
  match host.refuses d request with
  | some e => .error e
  | none => x

namespace Disk

/-! ### Changes -/

/-- The place of the directory that the last piece of a path is looked up in, and this piece. The
root is taken for its own dot. -/
def slot (d : Disk) (path : String) : Except DiskError (List String × String) :=
  if path = "" then .error .noEntry
  else
    match (Path.pieces path).reverse.dropWhile (· == "") with
    | [] => .ok ([], ".")
    | last :: before => do
      let place ← before.reverse.foldlM d.step (d.start path)
      return (← d.step place ".", last)

/-- Makes a directory. -/
def makeDirectory (d : Disk) (path : String) (host : Host := {}) : Except DiskError Disk :=
  host.answer d (.makeDirectory path) do
    let (place, last) ← d.slot path
    if last = "." ∨ last = ".." ∨ (d.node? (place ++ [last])).isSome then .error .alreadyThere
    else .ok (d.put (place ++ [last]) .directory)

/-- Makes a directory unless it is there. -/
def ensureDirectory (d : Disk) (path : String) (host : Host := {}) :
    Disk × Except DiskError Unit :=
  match d.makeDirectory path host with
  | .ok made => (made, .ok ())
  | .error e => (d, if d.hasDirectory path then .ok () else .error e)

/-- Makes the first of the paths a directory, and the others too as far as it takes. -/
def ensureAll (d : Disk) (host : Host) : List String → Disk × Except DiskError Unit
  | [] => (d, .ok ())
  | path :: above =>
    match d.ensureDirectory path host with
    | (_, .error .noEntry) =>
      match d.ensureAll host above with
      | (made, .ok ()) => made.ensureDirectory path host
      | failed => failed
    | done => done

/-- Makes a directory and the directories above it. What was made before a failure stays. -/
def makeDirectories (d : Disk) (path : String) (host : Host := {}) :
    Disk × Except DiskError Unit :=
  d.ensureAll host (Path.upward path)

/-- Puts a file in the place of the one at a path, or where there is none. -/
def replaceFile (d : Disk) (path : String) (bytes : List UInt8) : Except DiskError Disk := do
  let (place, last) ← d.slot path
  if last = "." ∨ last = ".." then .error .busy
  else if Path.endsInSlash path then .error .notDirectory
  else if d.node? (place ++ [last]) = some .directory then .error .isDirectory
  else .ok (d.put (place ++ [last]) (.file bytes))

/-! ### Drafts -/

/-- A new file: where it stands, and the path it was made by. -/
structure Draft where
  place : List String
  path : String
  deriving DecidableEq, Repr

/-- A path from the root on. -/
def absolute (d : Disk) (path : String) : String :=
  if Path.isAbsolute path then path else Path.join ("/" ++ "/".intercalate d.here) path

/-- Makes an empty file in a directory. -/
def createDraft (d : Disk) (directory : String) (host : Host := {}) :
    Except DiskError (Disk × Draft) :=
  host.answer d (.createFile directory) do
    let place ← d.step (← d.place directory) "."
    let name := (host.newName d place).1
    return (d.put (place ++ [name]) (.file []),
      { place := place ++ [name], path := Path.join (d.absolute directory) name })

/-- Writes a draft. What was written before a failure stays. -/
def writeDraft (d : Disk) (draft : Draft) (bytes : List UInt8) (host : Host := {}) :
    Disk × Except DiskError Unit :=
  let request := Request.writeFile draft.path
  match host.refuses d request with
  | some e => (d.put draft.place (.file (bytes.take (host.leaves d request))), .error e)
  | none => (d.put draft.place (.file bytes), .ok ())

/-- The text of a draft. -/
def readDraft (d : Disk) (draft : Draft) (host : Host := {}) : Except DiskError (List Char) :=
  host.answer d (.readFile draft.path) do textOf (← d.readAt draft.place)

/-- Moves a draft to a path, in the place of the file there. -/
def moveDraft (d : Disk) (draft : Draft) (path : String) (host : Host := {}) :
    Except DiskError Disk :=
  host.answer d (.moveFile draft.path path) do
    (d.remove draft.place).replaceFile path (← d.readAt draft.place)

end Disk

end PotExtract
