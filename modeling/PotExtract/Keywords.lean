import PotExtract.Keyword

/-! The set of active keywords. Specifications extend it one after the other, a later keyword
replaces an earlier one of the same function, and a blank specification starts over without any. -/

namespace PotExtract

/-- The active keywords, one for each function name. -/
structure Keywords where
  toList : List Keyword
  deriving DecidableEq, Repr

namespace Keywords

/-- No keywords. -/
def empty : Keywords := ⟨[]⟩

/-- Adds a keyword in place of the one with its name. -/
def insert (ks : Keywords) (k : Keyword) : Keywords :=
  ⟨ks.toList.filter (fun other => other.function != k.function) ++ [k]⟩

/-- The functions of the gettext family. -/
def defaults : Keywords :=
  ⟨[{ function := "gettext" },
    { function := "ugettext" },
    { function := "dgettext", msgid := 2, domain := some 1 },
    { function := "ldgettext", msgid := 2, domain := some 1 },
    { function := "ngettext", plural := some 2 },
    { function := "lngettext", plural := some 2 },
    { function := "ungettext", plural := some 2 },
    { function := "dngettext", msgid := 2, plural := some 3, domain := some 1 },
    { function := "ldngettext", msgid := 2, plural := some 3, domain := some 1 },
    { function := "pgettext", msgid := 2, context := some 1 },
    { function := "npgettext", msgid := 2, plural := some 3, context := some 1 }]⟩

/-- The keyword of a function. -/
def get? (ks : Keywords) (function : String) : Option Keyword :=
  ks.toList.find? fun k => k.function == function

/-- Whether a function has a keyword. -/
def contains (ks : Keywords) (function : String) : Bool :=
  (ks.get? function).isSome

/-- Applies one specification. A blank one removes all keywords. -/
def registerOne (ks : Keywords) (spec : String) : Except KeywordError Keywords :=
  if (Text.trim spec.toList).isEmpty then .ok empty
  else (Keyword.parse spec).map ks.insert

/-- Applies specifications in order up to the first that is refused. The keywords of those before it
stay. -/
def register (ks : Keywords) : List String → Keywords × Option KeywordError
  | [] => (ks, none)
  | spec :: specs =>
    match ks.registerOne spec with
    | .ok ks => ks.register specs
    | .error e => (ks, some e)

end Keywords

end PotExtract
