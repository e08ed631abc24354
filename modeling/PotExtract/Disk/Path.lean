import PotExtract.Text.Order

/-! Paths: names between slashes. Two spellings of the same parts are the same path, and a path
keeps the spelling it was given. -/

namespace PotExtract.Path

open Text

/-- A part of a path. -/
inductive Part where
  | root
  | current
  | parent
  | name (name : String)
  deriving DecidableEq, Repr

/-- The place of the kinds of parts in their order. -/
def Part.rank : Part → Nat
  | .root => 0
  | .current => 1
  | .parent => 2
  | .name _ => 3

/-- The order of parts by kind, names by their text. -/
def Part.compare : Part → Part → Ordering
  | .name a, .name b => compareStrings a b
  | a, b => compareNat a.rank b.rank

/-- The part that a piece between slashes is, unless it says nothing. -/
def Part.ofPiece? (piece : String) : Option Part :=
  if piece = "" ∨ piece = "." then none
  else if piece = ".." then some .parent
  else some (.name piece)

/-- The pieces between the slashes of a path. -/
def pieces (path : String) : List String :=
  (path.toList.splitOn '/').map String.ofList

/-- Whether a path starts at the root. -/
def isAbsolute (path : String) : Bool :=
  path.toList.head? = some '/'

/-- Whether a path ends in a slash. -/
def endsInSlash (path : String) : Bool :=
  path.toList.getLast? = some '/'

/-- The parts of a path. A single dot is one only at the start. -/
def parts (path : String) : List Part :=
  let ps := pieces path
  let start :=
    if isAbsolute path then [Part.root] else if ps.head? = some "." then [Part.current] else []
  start ++ ps.filterMap Part.ofPiece?

/-- Whether two paths have the same parts. -/
def same (a b : String) : Bool :=
  parts a == parts b

/-- The order of paths by their parts. -/
def compare (a b : String) : Ordering :=
  compareLists Part.compare (parts a) (parts b)

/-- A path below a directory. An absolute path stays. -/
def join (directory path : String) : String :=
  if isAbsolute path then path
  else if directory = "" ∨ endsInSlash directory then directory ++ path
  else directory ++ "/" ++ path

/-- The list with each of its beginnings, the shortest first. -/
def beginnings : List α → List (List α)
  | [] => [[]]
  | a :: l => [] :: (beginnings l).map (a :: ·)

/-- Whether the last of the pieces of a relative path says something. -/
def endsInPart : List String → Bool
  | [] => false
  | ["."] => true
  | ps => (ps.getLast?.bind Part.ofPiece?).isSome

/-- The path and the directories above it, the innermost first, up to the root or the first part. -/
def upward (path : String) : List String :=
  if isAbsolute path then
    let ps := (pieces path).tail
    let kept := (beginnings ps).filter fun b =>
      b.isEmpty || (b.getLast?.bind Part.ofPiece?).isSome
    kept.reverse.map fun b => "/" ++ "/".intercalate b
  else ((beginnings (pieces path)).filter endsInPart).reverse.map ("/".intercalate ·)

/-- The directory of a path: the working directory is empty, and the root is in none. -/
def parent? (path : String) : Option String :=
  match upward path with
  | [] => none
  | [_] => if isAbsolute path then none else some ""
  | _ :: above :: _ => some above

end PotExtract.Path
