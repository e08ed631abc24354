import PotExtract.Text.Pieces

/-! Fields of PO files: a name and a quoted text. A short text of one line stands behind the name,
and any other is cut at its line feeds and wrapped at spaces into quoted lines of its own. -/

namespace PotExtract.Po

/-- A character as it is written between quotes. -/
def escapeChar : Char → List Char
  | '\\' => ['\\', '\\']
  | '"' => ['\\', '"']
  | '\n' => ['\\', 'n']
  | '\r' => ['\\', 'r']
  | '\t' => ['\\', 't']
  | c => [c]

/-- A text as it is written between quotes. -/
def escape (s : List Char) : List Char :=
  s.flatMap escapeChar

/-- The escaped text cut behind each backslash with an `n`. -/
def cutLines : List Char → List (List Char)
  | [] => []
  | '\\' :: 'n' :: s => ['\\', 'n'] :: cutLines s
  | c :: s =>
    match s, cutLines s with
    | [], _ => [[c]]
    | _ :: _, [] => [[c]]
    | _ :: _, line :: lines => (c :: line) :: lines

/-- The text cut behind each space. -/
def cutSpaces : List Char → List (List Char)
  | [] => []
  | c :: s =>
    if c = ' ' then [' '] :: cutSpaces s
    else
      match cutSpaces s with
      | [] => [[c]]
      | word :: words => (c :: word) :: words

/-- The greatest width of a line, quotes aside, that is put together from several words. -/
def wrapWidth : Nat := 77

/-- The words put together to lines, behind the words of `line`. -/
def fill (line : List Char) : List (List Char) → List (List Char)
  | [] => [line]
  | word :: words =>
    if line.length + word.length ≤ wrapWidth then fill (line ++ word) words
    else line :: fill word words

/-- A line of escaped text, wrapped. -/
def wrap (line : List Char) : List (List Char) :=
  match cutSpaces line with
  | [] => []
  | word :: words => fill word words

/-- A text between quotes. -/
def quoted (s : List Char) : List Char :=
  '"' :: (s ++ ['"'])

/-- The greatest length of a name and a text that stand on one line. -/
def inlineWidth : Nat := 78

/-- Whether a text stands on the line of its name. -/
def isInline (name text : List Char) : Bool :=
  Text.lineFeeds text ≤ 1 && name.length + (escape text).length ≤ inlineWidth

/-- The lines of a field. -/
def fieldLines (name text : List Char) : List (List Char) :=
  if isInline name text then [name ++ ' ' :: quoted (escape text)]
  else (name ++ ' ' :: quoted []) :: ((cutLines (escape text)).flatMap wrap).map quoted

end PotExtract.Po
