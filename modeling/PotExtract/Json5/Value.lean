import PotExtract.Json5.Number
import PotExtract.Json5.Text

/-! Values of JSON5. -/

namespace PotExtract.Json5

/-- A value as it is written, with the members of an object in their order. -/
inductive Value where
  | null
  | bool (b : Bool)
  | number (n : Number)
  | text (raw : RawText)
  | array (items : List Value)
  | object (members : List (RawText × Value))
  deriving Repr

mutual

/-- Whether all texts, names and numbers of a value can be read. -/
def Value.isReadable : Value → Bool
  | .null | .bool _ => true
  | .number n => n.isReadable
  | .text raw => raw.text?.isSome
  | .array items => areReadable items
  | .object members => membersAreReadable members

/-- Whether all items can be read. -/
def areReadable : List Value → Bool
  | [] => true
  | item :: items => item.isReadable && areReadable items

/-- Whether all members can be read. -/
def membersAreReadable : List (RawText × Value) → Bool
  | [] => true
  | (key, value) :: members =>
    key.text?.isSome && value.isReadable && membersAreReadable members

end

end PotExtract.Json5
