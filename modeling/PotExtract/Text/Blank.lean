/-! White space: trimming a text, its words, and the text with every run of white space written as
one space. -/

namespace PotExtract.Text

/-- The characters with the White_Space property. -/
def isBlank (c : Char) : Bool :=
  let n := c.toNat
  n == 0x20 || (9 ≤ n && n ≤ 13) || n == 0x85 || n == 0xA0 || n == 0x1680 ||
    (0x2000 ≤ n && n ≤ 0x200A) || n == 0x2028 || n == 0x2029 || n == 0x202F || n == 0x205F ||
    n == 0x3000

/-- The text without white space in front. -/
def trimLeft (s : List Char) : List Char :=
  s.dropWhile isBlank

/-- The text without white space at its end. -/
def trimRight (s : List Char) : List Char :=
  (s.reverse.dropWhile isBlank).reverse

/-- The text without white space at either end. -/
def trim (s : List Char) : List Char :=
  trimRight (trimLeft s)

/-- The parts between white space, without empty ones. -/
def words (s : List Char) : List (List Char) :=
  (s.splitOnP isBlank).filter fun w => !w.isEmpty

/-- The words joined by single spaces. -/
def normalize (s : List Char) : List Char :=
  [' '].intercalate (words s)

end PotExtract.Text

namespace PotExtract

/-- A string without white space at either end. -/
def trimmed (s : String) : String :=
  String.ofList (Text.trim s.toList)

/-- A string with every run of white space written as one space and none at either end. -/
def normalized (s : String) : String :=
  String.ofList (Text.normalize s.toList)

end PotExtract
