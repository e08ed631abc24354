import PotExtract.Text.Blank
import PotExtract.Text.Pieces

/-! Expressions of templates. Alternatives are separated by pipes, a backslash in front of a pipe
makes it part of the code, and a name with a colon in front of an alternative tells the engine that
evaluates it. -/

namespace PotExtract.Tales

open Text

/-- The engine of code that names none. -/
inductive Engine where
  | python
  | tales
  deriving DecidableEq, Repr

/-- The engine that a user means by a name. -/
def Engine.ofName? (name : String) : Option Engine :=
  if name = "python" then some .python
  else if name = "tales" ∨ name = "path" then some .tales
  else none

/-- The name of an engine. -/
def Engine.name : Engine → String
  | .python => "python"
  | .tales => "tales"

/-- An alternative of an expression. -/
structure Part where
  engine : String
  code : String
  deriving DecidableEq, Repr

/-- A character of the name of an engine. -/
def isEngineChar (c : Char) : Bool :=
  c.isLower || c == '-' || c == '_'

/-- Cuts at the pipes without a backslash in front. -/
def splitPipes (escaped : Bool) : List Char → List (List Char)
  | [] => [[]]
  | c :: s =>
    if c = '|' ∧ !escaped then [] :: splitPipes false s
    else (splitPipes (c == '\\') s).modifyHead (c :: ·)

/-- The name of an engine and the code behind its colon. -/
def enginePrefix? (s : List Char) : Option (List Char × List Char) :=
  match s.takeWhile isEngineChar, s.dropWhile isEngineChar with
  | c :: cs, ':' :: rest => some (c :: cs, trimLeft rest)
  | _, _ => none

/-- Reads one alternative. -/
def Part.parse (default : Engine) (s : List Char) : Part :=
  let s := replacePair '\\' '|' '|' (trim s)
  match enginePrefix? s with
  | some (engine, code) => ⟨String.ofList engine, String.ofList code⟩
  | none => ⟨default.name, String.ofList s⟩

/-- The alternatives of an expression. -/
def split (source : List Char) (default : Engine) : List Part :=
  (splitPipes false source).map (Part.parse default)

/-- The code of the alternatives that the Python engine evaluates. -/
def pythonParts (source : List Char) (default : Engine) : List String :=
  ((split source default).filter fun p => p.engine == Engine.python.name).map Part.code

/-- The text behind a word and white space. -/
def afterWord? (word s : List Char) : Option (List Char) :=
  match after? word s with
  | some (c :: rest) => if isBlank c then some (trimLeft rest) else none
  | _ => none

/-- A content expression without the word that tells how its value is inserted. -/
def stripStructure (s : List Char) : List Char :=
  ((afterWord? "structure".toList (trimLeft s)).or (afterWord? "text".toList (trimLeft s))).getD s

end PotExtract.Tales
