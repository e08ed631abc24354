/-! The lines of a text. A line ends in a line feed, which may have a carriage return before it, and
a last line without an end counts if it holds anything. -/

namespace PotExtract.Text

/-- A line as it was cut, without the carriage return of its end. -/
def chomp (line : List Char) : List Char :=
  if line.getLast? = some '\r' then line.dropLast else line

/-- The lines without their ends. -/
def lines (s : List Char) : List (List Char) :=
  let pieces := s.splitOn '\n'
  let ended := pieces.dropLast.map chomp
  match pieces.getLast? with
  | none | some [] => ended
  | some last => ended ++ [last]

/-- The lines, each with its end, so that together they are the text. -/
def linesWithEnds (s : List Char) : List (List Char) :=
  let pieces := s.splitOn '\n'
  let ended := pieces.dropLast.map (· ++ ['\n'])
  match pieces.getLast? with
  | none | some [] => ended
  | some last => ended ++ [last]

end PotExtract.Text
