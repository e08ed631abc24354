import PotExtract.Text.Pieces

/-! White space and comments between the words of JSON5. -/

namespace PotExtract.Json5

open Text

/-- The characters that end a line. -/
def isLineEnd (c : Char) : Bool :=
  c == '\n' || c == '\r' || c.toNat == 0x2028 || c.toNat == 0x2029

/-- White space: line ends, tabs, the byte order mark, and the space separators of Unicode. -/
def isSpace (c : Char) : Bool :=
  let n := c.toNat
  isLineEnd c || n == 9 || n == 0xB || n == 0xC || n == 0x20 || n == 0xA0 || n == 0x1680 ||
    (0x2000 ≤ n && n ≤ 0x200A) || n == 0x202F || n == 0x205F || n == 0x3000 || n == 0xFEFF

/-- The text behind white space and comments. A comment that is not closed is none. -/
def skip (s : List Char) : List Char :=
  match s with
  | '/' :: '*' :: inside =>
    match h : cutAt? ['*', '/'] inside with
    | some (_, rest) =>
      have := length_cutAt?_le h
      skip rest
    | none => s
  | '/' :: '/' :: inside =>
    have := (List.dropWhile_suffix (p := fun c => !isLineEnd c) (l := inside)).length_le
    skip (inside.dropWhile fun c => !isLineEnd c)
  | c :: rest => if isSpace c then skip rest else s
  | [] => []
termination_by s.length

end PotExtract.Json5
