import PotExtract.Disk
import PotExtract.Text.Pieces

/-! Patterns for paths: `?` and `*` stand for one or any number of characters of a name, brackets
for one of several characters, and `**` as a whole name for any number of directories. -/

namespace PotExtract.Glob

open Text

/-- What is wrong with a pattern. -/
inductive Fault where
  | badRange
  | partOfName
  | manyStars
  deriving DecidableEq, Repr

/-- A fault and the number of characters in front of it. -/
structure PatternError where
  position : Nat
  fault : Fault
  deriving DecidableEq, Repr

/-- The error as it is shown to the user. -/
def PatternError.message (e : PatternError) : String :=
  let what :=
    match e.fault with
    | .badRange => "invalid range pattern"
    | .partOfName => "recursive wildcards must form a single path component"
    | .manyStars => "wildcards are either regular `*` or recursive `**`"
  s!"Pattern syntax error near position {e.position}: {what}"

/-- A token of a pattern. A set is a list of ranges. -/
inductive Token where
  | char (c : Char)
  | anyChar
  | anyText
  | directories
  | oneOf (ranges : List (Char × Char))
  | noneOf (ranges : List (Char × Char))
  deriving DecidableEq, Repr

/-- The ranges between brackets. -/
def ranges : List Char → List (Char × Char)
  | [] => []
  | low :: '-' :: high :: s => (low, high) :: ranges s
  | c :: s => (c, c) :: ranges s

/-- The set behind an opening bracket, and the text behind it. The first character of a set does not
close it. -/
def set? : List Char → Option (Token × List Char)
  | '!' :: c :: s => (cut? ']' s).map fun (inside, rest) => (.noneOf (ranges (c :: inside)), rest)
  | ['!'] => none
  | c :: s => (cut? ']' s).map fun (inside, rest) => (.oneOf (ranges (c :: inside)), rest)
  | [] => none

theorem length_set?_lt {s rest : List Char} {t : Token} (h : set? s = some (t, rest)) :
    rest.length < s.length := by
  unfold set? at h
  split at h
  · obtain ⟨⟨a, b⟩, hx, he⟩ := Option.map_eq_some_iff.1 h
    cases he
    have := length_cut?_lt hx
    simp only [List.length_cons]
    omega
  · simp at h
  · obtain ⟨⟨a, b⟩, hx, he⟩ := Option.map_eq_some_iff.1 h
    cases he
    have := length_cut?_lt hx
    simp only [List.length_cons]
    omega
  · simp at h

/-- Whether a name may start behind a character. -/
def mayStart (before : Option Char) : Bool :=
  before.isNone || before == some '/'

/-- The tokens of a pattern from `position` on, where `before` is the character in front. -/
def tokens (position : Nat) (before : Option Char) (s : List Char) :
    Except PatternError (List Token) :=
  match s with
  | [] => .ok []
  | '?' :: rest => (.anyChar :: ·) <$> tokens (position + 1) (some '?') rest
  | '*' :: '*' :: '*' :: _ => .error ⟨position + 2, .manyStars⟩
  | '*' :: '*' :: rest =>
    if !mayStart before then .error ⟨position - 1, .partOfName⟩
    else
      match rest with
      | [] => .ok [.directories]
      | '/' :: rest => (.directories :: ·) <$> tokens (position + 3) (some '/') rest
      | _ => .error ⟨position + 2, .partOfName⟩
  | '*' :: rest => (.anyText :: ·) <$> tokens (position + 1) (some '*') rest
  | '[' :: rest =>
    match h : set? rest with
    | none => .error ⟨position, .badRange⟩
    | some (set, rest') =>
      have := length_set?_lt h
      (set :: ·) <$> tokens (position + 1 + (rest.length - rest'.length)) (some ']') rest'
  | c :: rest => (.char c :: ·) <$> tokens (position + 1) (some c) rest
termination_by s.length

/-- Whether a character is in one of the ranges. -/
def inSet (c : Char) (set : List (Char × Char)) : Bool :=
  set.any fun (low, high) => low ≤ c && c ≤ high

/-- Whether a token stands for a character. -/
def Token.admits (t : Token) (c : Char) : Bool :=
  match t with
  | .char d => c == d
  | .anyChar => true
  | .oneOf set => inSet c set
  | .noneOf set => !inSet c set
  | .anyText | .directories => false

/-- For each place of a list, whether one of the truths from there on holds. -/
def anyFrom (bs : List Bool) : List Bool :=
  bs.foldr (fun b later => (b || later.headD false) :: later) []

/-- For each end of a name, from the whole name to the empty one, whether tokens stand for it. Each
token looks at each character once. -/
def admitsEnds (name : List Char) : List Token → List Bool
  | [] => name.map (fun _ => false) ++ [true]
  | .anyText :: ts => anyFrom (admitsEnds name ts)
  | t :: ts => List.zipWith (fun c b => t.admits c && b) name (admitsEnds name ts).tail ++ [false]

/-- Whether tokens stand for a whole name. -/
def admitsName (ts : List Token) (name : List Char) : Bool :=
  (admitsEnds name ts).headD false

theorem tail_anyFrom (bs : List Bool) : (anyFrom bs).tail = anyFrom bs.tail := by
  cases bs <;> rfl

theorem length_anyFrom (bs : List Bool) : (anyFrom bs).length = bs.length := by
  induction bs with
  | nil => rfl
  | cons b bs ih => simpa [anyFrom] using ih

theorem length_admitsEnds (s : List Char) (ts : List Token) :
    (admitsEnds s ts).length = s.length + 1 := by
  fun_induction admitsEnds s ts with
  | case1 => simp
  | case2 ts ih => simp [length_anyFrom, ih]
  | case3 t ts _ ih => simp [ih]

theorem tail_admitsEnds (c : Char) (s : List Char) (ts : List Token) :
    (admitsEnds (c :: s) ts).tail = admitsEnds s ts := by
  fun_induction admitsEnds s ts with
  | case1 => simp [admitsEnds]
  | case2 ts ih => rw [admitsEnds, tail_anyFrom, ih]
  | case3 t ts ht ih =>
    rw [admitsEnds, ih]
    · cases h : admitsEnds s ts with
      | nil => simpa [h] using length_admitsEnds s ts
      | cons b bs => simp
    · exact ht

/-- The truth for a name stands in front of those for its shorter ends. -/
theorem admitsEnds_cons (c : Char) (s : List Char) (ts : List Token) :
    admitsEnds (c :: s) ts = admitsName ts (c :: s) :: admitsEnds s ts := by
  have ht := tail_admitsEnds c s ts
  unfold admitsName
  cases h : admitsEnds (c :: s) ts with
  | nil => simpa [h] using length_admitsEnds (c :: s) ts
  | cons b bs => simpa [h] using ht

theorem admitsName_nil (s : List Char) : admitsName [] s = s.isEmpty := by
  cases s <;> rfl

/-- A run of any characters ends here or takes one more character. -/
theorem admitsName_anyText (ts : List Token) (c : Char) (s : List Char) :
    admitsName (.anyText :: ts) (c :: s) =
      (admitsName ts (c :: s) || admitsName (.anyText :: ts) s) := by
  rw [admitsName, admitsEnds, admitsEnds_cons]
  rfl

/-- A token for one character takes one. -/
theorem admitsName_cons (t : Token) (ts : List Token) (c : Char) (s : List Char)
    (ht : t ≠ .anyText) :
    admitsName (t :: ts) (c :: s) = (t.admits c && admitsName ts s) := by
  rw [admitsName, admitsEnds, tail_admitsEnds]
  · cases h : admitsEnds s ts with
    | nil => simpa [h] using length_admitsEnds s ts
    | cons b bs => simp [admitsName, h]
  · exact ht

/-! ### Patterns for whole paths -/

/-- A step of a pattern: a name as it is, a pattern for names, or any number of directories. -/
inductive Step where
  | literal (name : String)
  | wild (tokens : List Token)
  | deep
  deriving DecidableEq, Repr

namespace Step

/-- The step of a piece between slashes. -/
def ofPiece (piece : String) : Except PatternError Step := do
  let ts ← tokens 0 none piece.toList
  let isChar : Token → Bool
    | .char _ => true
    | _ => false
  if ts.all isChar then return .literal piece
  else if ts = [.directories] then return .deep
  else return .wild ts

/-- Whether the step stands for a name. -/
def admits (s : Step) (name : String) : Bool :=
  match s with
  | .literal other => name == other
  | .wild ts => admitsName ts name.toList
  | .deep => false

/-- The special names that a step stands for, which only a pattern with a leading dot does. -/
def specials (s : Step) : List String :=
  match s with
  | .wild (.char '.' :: _) => [".", ".."].filter s.admits
  | _ => []

end Step

/-- The steps with neighbouring runs of directories taken together. -/
def collapse : List Step → List Step
  | .deep :: .deep :: rest => collapse (.deep :: rest)
  | s :: rest => s :: collapse rest
  | [] => []

/-- A pattern: where it starts, its steps, and whether only directories are asked for. -/
structure Pattern where
  absolute : Bool
  steps : List Step
  directoriesOnly : Bool
  deriving DecidableEq, Repr

/-- The pieces without an empty one at the end. -/
def withoutLastEmpty (pieces : List String) : List String :=
  if pieces.getLast? = some "" then pieces.dropLast else pieces

/-- Reads a pattern. It must be one as a whole and so must its pieces. -/
def Pattern.parse (pattern : String) : Except PatternError Pattern := do
  let _ ← tokens 0 none pattern.toList
  let absolute := Path.isAbsolute pattern
  let pieces := if absolute then (Path.pieces pattern).tail else Path.pieces pattern
  let steps ← (withoutLastEmpty pieces).mapM Step.ofPiece
  return { absolute, steps := collapse steps, directoriesOnly := Path.endsInSlash pattern }

/-- Whether a name has a character that makes it a pattern. -/
def isPattern (name : String) : Bool :=
  name.toList.any fun c => c == '*' || c == '?' || c == '['

/-- A name in a directory, where the working directory is left out. -/
def within (directory name : String) : String :=
  if Path.same directory "." then name else Path.join directory name

/-- The paths that steps lead to from a path. -/
def paths (d : Disk) (directoriesOnly : Bool) : List Step → String → List String
  | [], path => if directoriesOnly && !d.hasDirectory path then [] else [path]
  | .literal name :: rest, path =>
    let next := within path name
    let found :=
      if name = "." ∨ name = ".." then d.hasDirectory path else d.hasNode next
    if found then paths d directoriesOnly rest next else []
  | .wild ts :: rest, path =>
    if d.hasDirectory path then
      ((d.belowPath path).flatMap fun (names, _) =>
        match names with
        | [name] =>
          if (Step.wild ts).admits name then paths d directoriesOnly rest (within path name) else []
        | _ => []) ++
      (Step.wild ts).specials.flatMap fun name => paths d directoriesOnly rest (Path.join path name)
    else []
  | [.deep], path =>
    if d.hasDirectory path then
      (d.belowPath path).filterMap fun (names, node) =>
        if node = .directory then some (within path ("/".intercalate names)) else none
    else []
  | .deep :: step :: rest, path =>
    if d.hasDirectory path then
      (d.belowPath path).flatMap fun (names, _) =>
        if step.admits (names.getLastD "") then
          paths d directoriesOnly rest (within path ("/".intercalate names))
        else []
    else []

/-- The paths that a pattern stands for, in their order. -/
def expand (d : Disk) (pattern : String) : Except PatternError (List String) := do
  let p ← Pattern.parse pattern
  return sortBy Path.compare (paths d p.directoriesOnly p.steps (if p.absolute then "/" else "."))

end PotExtract.Glob
