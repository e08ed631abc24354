import PotExtract.Text.Blank

/-! Messages: one translatable text with the place where it was found. -/

namespace PotExtract

/-- A line of a file. Lines count from one. -/
structure Location where
  file : String
  line : Nat
  deriving DecidableEq, Repr

/-- The location as `FILE:LINE`. -/
def Location.reference (l : Location) : String :=
  s!"{l.file}:{l.line}"

/-- One translatable text of a source. The domain and context are absent where the source names
none, and the comments are newline separated notes for and by translators. -/
structure Message where
  domain : Option String := none
  context : Option String := none
  id : String
  pluralId : Option String := none
  flags : List String := []
  comment : String := ""
  translatorComment : String := ""
  location : Location
  deriving DecidableEq, Repr

/-- Whether the message stays when only `target` is wanted: a message without a domain always does.
-/
def Message.matchesDomain (m : Message) (target : Option String) : Bool :=
  match target, m.domain with
  | some target, some domain => domain.isEmpty || target == domain
  | _, _ => true

/-- The list with `flag` at its end unless it holds it already. -/
def addFlag (flags : List String) (flag : String) : List String :=
  if flag ∈ flags then flags else flags ++ [flag]

/-- The list with each flag of `new` added in turn. -/
def addFlags (flags new : List String) : List String :=
  new.foldl addFlag flags

/-- The parts that hold anything, one a line. -/
def joinComments (parts : List String) : String :=
  "\n".intercalate (parts.filter fun p => !p.isEmpty)

end PotExtract
