import PotExtract.Text.Letter
import PotExtract.Text.Numeral
import PotExtract.Text.Pieces

/-! The text that a string literal denotes. Bytes and formatted strings denote none, a raw string
the text between its quotes, and any other that text with its escapes decoded. An escape that names
no character stays as it is written. -/

namespace PotExtract.Python.Literal

open Text

/-- The characters of the escapes of one letter. -/
def simpleEscape? : Char → Option Char
  | '\\' => some '\\'
  | '\'' => some '\''
  | '"' => some '"'
  | 'a' => some '\x07'
  | 'b' => some '\x08'
  | 'f' => some '\x0c'
  | 'n' => some '\n'
  | 'r' => some '\r'
  | 't' => some '\t'
  | 'v' => some '\x0b'
  | _ => none

/-- The number of hexadecimal digits behind `\x`, `\u` and `\U`. -/
def hexWidth? : Char → Option Nat
  | 'x' => some 2
  | 'u' => some 4
  | 'U' => some 8
  | _ => none

/-- A digit in base eight. -/
def isOctal (c : Char) : Bool :=
  '0' ≤ c && c ≤ '7'

/-- The character that `width` hexadecimal digits at the head of the text name. -/
def hexEscape? (width : Nat) (s : List Char) : Option Char :=
  let digits := s.take width
  if digits.length = width ∧ digits.all isHexDigit then charOfCode? (valueOf 16 digits) else none

/-- Takes a backslash escape apart: what it denotes, and the text behind it. -/
def escape : List Char → List Char × List Char
  | [] => (['\\'], [])
  | '\r' :: '\n' :: s => ([], s)
  | c :: s =>
    if c = '\n' ∨ c = '\r' then ([], s)
    else if isOctal c then
      let digits := c :: (s.take 2).takeWhile isOctal
      ([Char.ofNat (valueOf 8 digits)], (c :: s).drop digits.length)
    else
      match simpleEscape? c, hexWidth? c with
      | some d, _ => ([d], s)
      | none, some width =>
        match hexEscape? width s with
        | some d => ([d], s.drop width)
        | none => (['\\', c], s)
      | none, none => (['\\', c], s)

theorem length_escape_le (s : List Char) : (escape s).2.length ≤ s.length := by
  unfold escape
  split
  · exact Nat.le_refl _
  · simp only [List.length_cons]
    omega
  · split
    · exact Nat.le_succ _
    · split
      · simp only [List.length_drop]
        omega
      · split
        · exact Nat.le_succ _
        · split
          · simp only [List.length_drop, List.length_cons]
            omega
          · exact Nat.le_succ _
        · exact Nat.le_succ _

/-- Decodes the escapes of a text. -/
def unescape : List Char → List Char
  | [] => []
  | c :: s =>
    if c = '\\' then
      have := length_escape_le s
      (escape s).1 ++ unescape (escape s).2
    else c :: unescape s
  termination_by s => s.length

/-- A quote of either kind. -/
def isQuote (c : Char) : Bool :=
  c == '"' || c == '\''

/-- The number of characters of a quote at the head of a literal without its prefix. -/
def quoteLength (s : List Char) : Nat :=
  if s.take 3 = ['"', '"', '"'] ∨ s.take 3 = ['\'', '\'', '\''] then 3 else 1

/-- The text between the quotes of a literal without its prefix. The closing quote is as long as the
opening one, in bytes. -/
def inner? (quoted : List Char) : Option (List Char) :=
  let quote := quoteLength quoted
  if byteLength quoted < 2 * quote then none
  else takeBytes? (byteLength quoted - 2 * quote) (quoted.drop quote)

/-- The text of a literal, if it has one. -/
def decode (literal : List Char) : Option (List Char) :=
  let lead := lower (literal.takeWhile (!isQuote ·))
  if 'f' ∈ lead ∨ 'b' ∈ lead then none
  else
    (inner? (literal.dropWhile (!isQuote ·))).map fun inner =>
      if 'r' ∈ lead then inner else unescape inner

/-- The text of a literal, if it has one. -/
def decode? (literal : String) : Option String :=
  (decode literal.toList).map String.ofList

end PotExtract.Python.Literal
