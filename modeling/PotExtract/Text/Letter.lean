import PotExtract.Text.LetterRanges

/-! Character classes of names, numbers and words. ASCII is answered directly and the rest from the
tables of ranges. Names know the characters of Unicode 17, but the digits of a format and the
characters of a word are those of Unicode 16. -/

namespace PotExtract.Text

/-- Membership in an increasing list of ranges. -/
def inRanges (n : Nat) : List (Nat × Nat) → Bool
  | [] => false
  | (low, high) :: rest => low ≤ n && (n ≤ high || inRanges n rest)

/-- A character of a script's alphabet. -/
def isLetter (c : Char) : Bool :=
  c.isAlpha || inRanges c.toNat letterRanges

/-- A letter, or a number of any kind. -/
def isLetterOrNumber (c : Char) : Bool :=
  isLetter c || c.isDigit || inRanges c.toNat digitRanges || inRanges c.toNat otherNumberRanges

/-- Whether Unicode 17 is the first version with a letter, digit, mark or connector. -/
def isLatest (c : Char) : Bool :=
  inRanges c.toNat latestRanges

/-- A decimal digit of any script. -/
def isDecimal (c : Char) : Bool :=
  c.isDigit || (inRanges c.toNat digitRanges && !isLatest c)

/-- A character of a word: letters, decimal digits, marks and connectors such as the underscore. -/
def isWordChar (c : Char) : Bool :=
  ((isLetter c || inRanges c.toNat joinerRanges) && !isLatest c) || isDecimal c || c == '_'

/-- A digit in base sixteen. -/
def isHexDigit (c : Char) : Bool :=
  c.isDigit || ('a' ≤ c && c ≤ 'f') || ('A' ≤ c && c ≤ 'F')

/-- The ASCII capitals in lower case. -/
def lower (s : List Char) : List Char :=
  s.map Char.toLower

end PotExtract.Text
