import PotExtract.Text.Blank
import PotExtract.Text.Pieces

/-! Clauses that bind variables: an optional scope, a name or a list of names in parentheses, and an
expression. Clauses are separated by semicolons, and a doubled semicolon stands for one in a clause.
-/

namespace PotExtract.Tales

open Text

/-- How far a binding reaches. -/
inductive DefineScope where
  | inside
  | everywhere
  deriving DecidableEq, Repr

/-- The word for a scope. -/
def DefineScope.word : DefineScope → String
  | .inside => "local"
  | .everywhere => "global"

/-- The binding of variables to an expression. -/
structure Define where
  scope : DefineScope
  names : List String
  expression : String
  deriving DecidableEq, Repr

namespace Define

/-- A character that starts a name. -/
def isNameStart (c : Char) : Bool :=
  c.isAlpha || c == '_'

/-- A character that continues a name. -/
def isNameChar (c : Char) : Bool :=
  c.isAlphanum || c == '_' || c == '-'

/-- A character of a list of names. -/
def isListChar (c : Char) : Bool :=
  isNameChar c || c == ',' || isBlank c

/-- Cuts at single semicolons. -/
def splitClauses : List Char → List (List Char)
  | [] => [[]]
  | ';' :: ';' :: s => (splitClauses s).modifyHead (';' :: ·)
  | c :: s =>
    if c = ';' then [] :: splitClauses s else (splitClauses s).modifyHead (c :: ·)

/-- The names of a list between commas. -/
def splitNames (s : List Char) : List String :=
  (((s.splitOn ',').map trim).filter fun n => !n.isEmpty).map String.ofList

/-- The variables at the head of a text, and the text behind them. -/
def names? : List Char → Option (List String × List Char)
  | [] => none
  | c :: s =>
    if isNameStart c then
      some ([String.ofList (c :: s.takeWhile isNameChar)], s.dropWhile isNameChar)
    else
      match c, s.head?.any isNameStart, s.dropWhile isListChar with
      | '(', true, ')' :: rest => some (splitNames (s.takeWhile isListChar), rest)
      | _, _, _ => none

/-- Reads the variables and the expression of a clause. White space must stand between them. -/
def binding? (scope : DefineScope) (s : List Char) : Option Define :=
  match names? s with
  | some (names, c :: rest) =>
    if isBlank c then some ⟨scope, names, String.ofList (trimLeft rest)⟩ else none
  | _ => none

/-- Reads what follows the word of a scope. -/
def scoped? (scope : DefineScope) (s : List Char) : Option Define :=
  (after? scope.word.toList s).bind fun rest => binding? scope (trimLeft rest)

/-- Reads a clause. The word of a scope is the name of a variable if nothing else can be. -/
def parse? (clause : List Char) : Option Define :=
  let s := trimLeft clause
  ((scoped? .everywhere s).or (scoped? .inside s)).or (binding? .inside s)

/-- Reads clauses in order. The first that cannot be read is the error. -/
def parseClauses : List (List Char) → Except String (List Define)
  | [] => .ok []
  | clause :: rest =>
    if (trim clause).isEmpty then parseClauses rest
    else
      match parse? clause with
      | some define => (parseClauses rest).map (define :: ·)
      | none => .error (String.ofList clause)

/-- Reads all clauses of a text. -/
def parseAll (source : List Char) : Except String (List Define) :=
  parseClauses (splitClauses source)

end Define

end PotExtract.Tales
