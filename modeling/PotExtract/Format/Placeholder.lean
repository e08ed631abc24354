import PotExtract.Text.Letter
import PotExtract.Message

/-! Placeholders of `str.format`: a field name or number, attributes and subscripts, a conversion
and a format specification, all of which may be missing, between braces. -/

namespace PotExtract.Format

open Text

/-- Takes a field name or number, if there is one. -/
def dropField (s : List Char) : List Char :=
  match s with
  | c :: _ =>
    if c.isAlpha || c == '_' then s.dropWhile fun c => c.isAlphanum || c == '_'
    else s.dropWhile isDecimal
  | [] => []

/-- Takes the name of an attribute. -/
def dropAttribute? : List Char → Option (List Char)
  | c :: s =>
    if c.isAlpha || c == '_' then some (s.dropWhile fun c => c.isAlphanum || c == '_') else none
  | [] => none

/-- Takes a subscript up to its closing bracket. Braces and brackets are not allowed inside. -/
def dropSubscript? (s : List Char) : Option (List Char) :=
  match s.dropWhile fun c => !(c == ']' || c == '{' || c == '}') with
  | ']' :: rest => some rest
  | _ => none

theorem length_dropAttribute?_le {s rest : List Char} (h : dropAttribute? s = some rest) :
    rest.length ≤ s.length := by
  cases s with
  | nil => simp [dropAttribute?] at h
  | cons c s =>
    simp only [dropAttribute?] at h
    split at h
    · cases h
      exact Nat.le_succ_of_le (List.dropWhile_suffix _).length_le
    · simp at h

theorem length_dropSubscript?_le {s rest : List Char} (h : dropSubscript? s = some rest) :
    rest.length ≤ s.length := by
  unfold dropSubscript? at h
  split at h
  · next heq =>
    cases h
    have := (List.dropWhile_suffix
      (fun c => !(c == ']' || c == '{' || c == '}')) (l := s)).length_le
    rw [heq] at this
    simp only [List.length_cons] at this
    omega
  · simp at h

/-- Takes attributes and subscripts as long as they are well formed. -/
def dropAccessors (s : List Char) : List Char :=
  match s with
  | '.' :: rest =>
    match h : dropAttribute? rest with
    | some tail =>
      have := length_dropAttribute?_le h
      dropAccessors tail
    | none => s
  | '[' :: rest =>
    match h : dropSubscript? rest with
    | some tail =>
      have := length_dropSubscript?_le h
      dropAccessors tail
    | none => s
  | _ => s
  termination_by s.length

/-- Takes a conversion, if there is one. -/
def dropConversion : List Char → List Char
  | '!' :: c :: s => if c ∈ ['r', 's', 'a'] then s else '!' :: c :: s
  | s => s

/-- Takes a format specification, if there is one. -/
def dropSpecification : List Char → List Char
  | ':' :: s => s.dropWhile fun c => !(c == '{' || c == '}')
  | s => s

/-- Whether a placeholder follows an opening brace. -/
def isPlaceholder (s : List Char) : Bool :=
  (dropSpecification (dropConversion (dropAccessors (dropField s)))).head? = some '}'

/-- Whether a placeholder stands anywhere in the text. -/
def hasPlaceholder : List Char → Bool
  | [] => false
  | c :: s => (c == '{' && isPlaceholder s) || hasPlaceholder s

/-- Adds the flag of a format with placeholders unless the flags settle the matter. -/
def checkPlaceholders (text : String) (flags : List String) : List String :=
  if "python-format" ∈ flags ∨ "no-python-format" ∈ flags then flags
  else if hasPlaceholder text.toList then addFlag flags "python-format" else flags

end PotExtract.Format
