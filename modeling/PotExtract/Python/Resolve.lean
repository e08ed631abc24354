import PotExtract.Keyword
import PotExtract.Python.Call

/-! The fields of a message in the arguments of a call: by the positions of its keyword, or, for the
underscore, by the places and names that function has. -/

namespace PotExtract.Python

/-- What a call says of its message. -/
structure Resolved where
  domain : Option String := none
  context : Option String
  id : String
  pluralId : Option String := none
  comment : String
  deriving DecidableEq, Repr

/-- What comes of a call: no message, since its arguments do not have the right number or places, or
the fields of one. -/
inductive Resolution where
  | wrongCount (given expected : Nat)
  | noMessage
  | fields (resolved : Resolved)
  deriving DecidableEq, Repr

/-- The text at a position, which must be one of the arguments. -/
def textAt (arguments : List Value) (what : String) (position : Nat) : Except Fault String :=
  match arguments[position - 1]? with
  | some (.text s) => .ok s
  | _ => .error (.notText what)

/-- The text at a position that may be missing. -/
def optionalTextAt (arguments : List Value) (what : String) :
    Option Nat → Except Fault (Option String)
  | none => .ok none
  | some position => some <$> textAt arguments what position

/-- The positions that a keyword uses. -/
def positions (k : Keyword) : List Nat :=
  k.domain.toList ++ [k.msgid] ++ k.plural.toList ++ k.context.toList

/-- The fields that a keyword finds in the values given by position. -/
def fieldsOf (k : Keyword) (arguments : List Value) : Except Fault Resolved := do
  let domain ← optionalTextAt arguments "Domain" k.domain
  let id ← textAt arguments "Message" k.msgid
  let pluralId ← optionalTextAt arguments "Plural message" k.plural
  let context ← optionalTextAt arguments "Context" k.context
  return { domain, context, id, pluralId, comment := k.comment }

/-- Resolves a call by its keyword. -/
def resolveKeyword (k : Keyword) (c : Call) : Except Fault Resolution :=
  let arguments := c.positional
  match k.required.filter (· != arguments.length) with
  | some expected => .ok (.wrongCount arguments.length expected)
  | none =>
    if (positions k).any (arguments.length < ·) then .ok .noMessage
    else (fieldsOf k arguments).map .fields

/-- Resolves a call of the underscore: the message id, a mapping and the default text by position,
and the id, the default text and the context by name. -/
def resolveUnderscore (c : Call) : Resolution :=
  let arguments := c.positional
  let placed (i : Nat) : Option String := (arguments[i]?).bind Value.text?
  match (c.named? "msgid").or (placed 0) with
  | none => .noMessage
  | some id =>
    let default := ((c.named? "default").or (placed 2)).getD ""
    .fields {
      context := c.named? "context"
      id := id
      comment := if default.isEmpty then "" else s!"Default: {default}" }

end PotExtract.Python
