/-! Digits and the numbers that they write. An unsigned number below a limit is written in base ten
or sixteen with an optional plus sign; its digits are read from the left, and the first fault found
is the one reported. -/

namespace PotExtract.Text

/-- Why a text is not a number below the limit. -/
inductive NumeralError where
  | empty
  | badDigit
  | tooLarge
  deriving DecidableEq, Repr

/-- The value of a digit in base ten or sixteen. -/
def digitValue? (base : Nat) (c : Char) : Option Nat :=
  let value? :=
    if '0' ≤ c ∧ c ≤ '9' then some (c.toNat - '0'.toNat)
    else if 'a' ≤ c ∧ c ≤ 'z' then some (c.toNat - 'a'.toNat + 10)
    else if 'A' ≤ c ∧ c ≤ 'Z' then some (c.toNat - 'A'.toNat + 10)
    else none
  value?.filter (· < base)

/-- The number that digits write, all of them digits in the base. -/
def valueOf (base : Nat) (digits : List Char) : Nat :=
  digits.foldl (fun n d => n * base + (digitValue? base d).getD 0) 0

/-- Reads on from the value of the digits so far. -/
def readDigits (base limit : Nat) : (value : Nat) → List Char → Except NumeralError Nat
  | value, [] => .ok value
  | value, c :: s =>
    match digitValue? base c with
    | none => .error .badDigit
    | some d =>
      if value * base + d < limit then readDigits base limit (value * base + d) s
      else .error .tooLarge

/-- The number that the whole text writes. -/
def readNumeral (base limit : Nat) : List Char → Except NumeralError Nat
  | [] => .error .empty
  | ['+'] => .error .badDigit
  | '+' :: s => readDigits base limit 0 s
  | s => readDigits base limit 0 s

/-- The first number that does not fit in 32 bits. -/
def limit32 : Nat := 0x100000000

/-- The first number that does not fit in 64 bits. -/
def limit64 : Nat := 0x10000000000000000

/-- A decimal number of 64 bits. -/
def readNat? (s : List Char) : Option Nat :=
  (readNumeral 10 limit64 s).toOption

/-- The character with a code, unless the code is out of range or a surrogate. -/
def charOfCode? (n : Nat) : Option Char :=
  if n.isValidChar then some (Char.ofNat n) else none

end PotExtract.Text
