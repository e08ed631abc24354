/-! Orders: texts by the code points of their characters, lists item by item with a shorter list
before its extensions, and absent values before present ones. -/

namespace PotExtract.Text

/-- The order of numbers. -/
def compareNat (a b : Nat) : Ordering :=
  if a < b then .lt else if a = b then .eq else .gt

/-- The order of lists by an order of their items. -/
def compareLists (cmp : α → α → Ordering) : List α → List α → Ordering
  | [], [] => .eq
  | [], _ :: _ => .lt
  | _ :: _, [] => .gt
  | a :: as, b :: bs => (cmp a b).then (compareLists cmp as bs)

/-- The order of values that may be absent by an order of the values. -/
def compareOptions (cmp : α → α → Ordering) : Option α → Option α → Ordering
  | none, none => .eq
  | none, some _ => .lt
  | some _, none => .gt
  | some a, some b => cmp a b

/-- The order of characters by code point. -/
def compareChars (a b : Char) : Ordering :=
  compareNat a.toNat b.toNat

/-- The order of strings by the code points of their characters. -/
def compareStrings (a b : String) : Ordering :=
  compareLists compareChars a.toList b.toList

/-- A list in an order, with items that are equal in it as they were. -/
def sortBy (cmp : α → α → Ordering) (l : List α) : List α :=
  l.mergeSort fun a b => (cmp a b).isLE

end PotExtract.Text
