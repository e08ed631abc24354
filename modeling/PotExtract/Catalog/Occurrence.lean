import PotExtract.Text.Numeral
import PotExtract.Text.Order
import PotExtract.Text.Pieces

/-! Occurrences: the places of a message in the sources. -/

namespace PotExtract

/-- A file, and a line of it unless lines are left out. -/
structure Occurrence where
  file : String
  line : Option Nat
  deriving DecidableEq, Repr

namespace Occurrence

open Text

/-- The occurrence as `FILE:LINE`, or as the name of the file alone. -/
def reference (o : Occurrence) : String :=
  match o.line with
  | some line => s!"{o.file}:{line}"
  | none => o.file

/-- Reads a reference. Without a number behind its last colon, or without anything in front of that
colon, it is the name of a file. -/
def ofReference (reference : String) : Occurrence :=
  match cutLast? ':' reference.toList with
  | some (c :: file, digits) =>
    match readNat? digits with
    | some line => ⟨String.ofList (c :: file), some line⟩
    | none => ⟨reference, none⟩
  | _ => ⟨reference, none⟩

/-- The order of occurrences by file, then by line. -/
def compare (a b : Occurrence) : Ordering :=
  (compareStrings a.file b.file).then (compareOptions compareNat a.line b.line)

end Occurrence

end PotExtract
