/-! Remarks of a scanner on what it passes over. They are only shown to a user who asks for them. -/

namespace PotExtract

/-- What a scanner passes over. -/
inductive Oversight where
  | emptyId (function : String)
  | argumentCount (function : String) (given expected : Nat)
  | strayEndTag (name : String)
  deriving DecidableEq, Repr

/-- Something passed over, with its place. -/
structure Remark where
  file : String
  line : Nat
  oversight : Oversight
  deriving DecidableEq, Repr

/-- The remark as it is shown to the user. -/
def Remark.message (r : Remark) : String :=
  let what :=
    match r.oversight with
    | .emptyId function => s!"ignoring {function}() call with an empty message id"
    | .argumentCount function given expected =>
      s!"{function}() called with {given} arguments, expected {expected}"
    | .strayEndTag name => s!"ignoring unmatched end tag </{name}>"
  s!"{r.file}[{r.line}]: {what}"

end PotExtract
