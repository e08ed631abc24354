import PotExtract.Json5.Value

/-! Reading a JSON5 text, of which only the form is looked at. Each call of a reader uses up one
unit of fuel, and a text needs at most two for each of its characters. -/

namespace PotExtract.Json5

open Text

/-- The key of a member: a quoted text or a name. -/
def key? (s : List Char) : Option (RawText × List Char) :=
  (quoted? s).or (name? s)

/-- A value that holds no others. -/
def atom? (s : List Char) : Option (Value × List Char) :=
  ((after? "null".toList s).map (.null, ·)).or <|
    ((after? "true".toList s).map (.bool true, ·)).or <|
    ((after? "false".toList s).map (.bool false, ·)).or <|
    ((quoted? s).map fun (raw, rest) => (.text raw, rest)).or <|
    (number? s).map fun (n, rest) => (.number n, rest)

mutual

/-- A value at the start of a text, and what stands behind it. -/
def value? (fuel : Nat) (s : List Char) : Option (Value × List Char) :=
  match fuel with
  | 0 => none
  | fuel + 1 =>
    match s with
    | '[' :: rest => (items? fuel (skip rest)).map fun (items, rest) => (.array items, rest)
    | '\x7b' :: rest =>
      (members? fuel (skip rest)).map fun (members, rest) => (.object members, rest)
    | _ => atom? s

/-- The items up to a closing bracket. -/
def items? (fuel : Nat) (s : List Char) : Option (List Value × List Char) :=
  match fuel with
  | 0 => none
  | fuel + 1 =>
    match s with
    | ']' :: rest => some ([], rest)
    | _ => do
      let (item, rest) ← value? fuel s
      match skip rest with
      | ',' :: rest =>
        let (items, rest) ← items? fuel (skip rest)
        return (item :: items, rest)
      | ']' :: rest => return ([item], rest)
      | _ => none

/-- The members up to a closing brace. -/
def members? (fuel : Nat) (s : List Char) : Option (List (RawText × Value) × List Char) :=
  match fuel with
  | 0 => none
  | fuel + 1 =>
    match s with
    | '\x7d' :: rest => some ([], rest)
    | _ => do
      let (key, rest) ← key? s
      let rest ← after? [':'] (skip rest)
      let (value, rest) ← value? fuel (skip rest)
      let member := (key, value)
      match skip rest with
      | ',' :: rest =>
        let (members, rest) ← members? fuel (skip rest)
        return (member :: members, rest)
      | '\x7d' :: rest => return ([member], rest)
      | _ => none

end

/-- The value that a whole text is. -/
def read? (s : List Char) : Option Value :=
  match value? (2 * s.length + 2) (skip s) with
  | some (value, rest) => if skip rest = [] then some value else none
  | none => none

end PotExtract.Json5
