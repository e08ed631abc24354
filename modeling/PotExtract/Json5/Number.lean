import PotExtract.Text.Letter
import PotExtract.Text.Numeral
import PotExtract.Text.Pieces

/-! Numbers of JSON5. Not all that is written as a number can be read: whole numbers have 64 bits,
numbers in base sixteen have 32 and no sign, and all others have to be finite in double
precision. -/

namespace PotExtract.Json5

open Text

/-- The sign in front of a number. -/
inductive Sign where
  | plus
  | minus
  deriving DecidableEq, Repr

/-- A number without its sign. A fraction is `n` times that power of ten. -/
inductive Magnitude where
  | hexadecimal (n : Nat)
  | whole (n : Nat)
  | fraction (n : Nat) (power : Int)
  | infinity
  | nan
  deriving DecidableEq, Repr

/-- A number as it is written. -/
structure Number where
  sign : Option Sign
  magnitude : Magnitude
  deriving DecidableEq, Repr

/-! ### Numbers that can be read -/

/-- The least number that double precision takes for infinity. It lies half a step above the largest
finite one. -/
def infiniteFrom : Nat := 0x3FFFFFFFFFFFFF <<< 970

/-- Whether `n` times a power of ten is finite in double precision. Only where the number has as
many digits as the least infinite one, 309, are the two compared. -/
def isFinite (n : Nat) (power : Int) : Bool :=
  let width := (Nat.toDigits 10 n).length + power
  n == 0 || width < 309 ||
    (width == 309 &&
      n * Nat.pow 10 power.toNat < infiniteFrom * Nat.pow 10 (-power).toNat)

/-- Whether a number can be read. -/
def Number.isReadable : Number → Bool
  | ⟨sign, .hexadecimal n⟩ => sign.isNone && n < limit32
  | ⟨some .minus, .whole n⟩ => n ≤ limit64 / 2
  | ⟨_, .whole n⟩ => n < limit64 / 2
  | ⟨_, .fraction n power⟩ => isFinite n power
  | ⟨sign, .infinity⟩ | ⟨sign, .nan⟩ => sign != some .plus

/-! ### Reading -/

/-- The decimal digits in front, and the text behind them. -/
def digits (s : List Char) : List Char × List Char :=
  (s.takeWhile Char.isDigit, s.dropWhile Char.isDigit)

/-- The whole part of a number. Only zero itself starts with a zero. -/
def whole? : List Char → Option (List Char × List Char)
  | '0' :: s => some (['0'], s)
  | s =>
    match digits s with
    | ([], _) => none
    | found => some found

/-- A sign that may be left out. -/
def sign? : List Char → Option Sign × List Char
  | '+' :: s => (some .plus, s)
  | '-' :: s => (some .minus, s)
  | s => (none, s)

/-- The power of ten behind a number, which may be left out. -/
def power? (s : List Char) : Option Int × List Char :=
  match s with
  | e :: rest =>
    if e = 'e' ∨ e = 'E' then
      let (mark, rest) := sign? rest
      match digits rest with
      | ([], _) => (none, s)
      | (ds, rest) =>
        let n := Int.ofNat (valueOf 10 ds)
        (some (if mark = some .minus then -n else n), rest)
    else (none, s)
  | [] => (none, [])

/-- The number with the whole part `ds`, of which `s` is the text behind the point. -/
def fraction (ds s : List Char) : Magnitude × List Char :=
  let (places, rest) := digits s
  let (power, rest) := power? rest
  (.fraction (valueOf 10 (ds ++ places)) (power.getD 0 - Int.ofNat places.length), rest)

/-- A decimal number without a sign. The point stands behind a digit or in front of one. -/
def decimal? (s : List Char) : Option (Magnitude × List Char) :=
  match whole? s with
  | some (ds, '.' :: rest) => some (fraction ds rest)
  | some (ds, rest) =>
    match power? rest with
    | (some power, rest) => some (.fraction (valueOf 10 ds) power, rest)
    | (none, rest) => some (.whole (valueOf 10 ds), rest)
  | none =>
    match s with
    | '.' :: rest => if (digits rest).1.isEmpty then none else some (fraction [] rest)
    | _ => none

/-- A number in base sixteen without a sign. -/
def hexadecimal? (s : List Char) : Option (Magnitude × List Char) :=
  match s with
  | '0' :: x :: rest =>
    if x = 'x' ∨ x = 'X' then
      match rest.takeWhile isHexDigit with
      | [] => none
      | ds => some (.hexadecimal (valueOf 16 ds), rest.dropWhile isHexDigit)
    else none
  | _ => none

/-- A number, and the text behind it. -/
def number? (s : List Char) : Option (Number × List Char) :=
  let (sign, rest) := sign? s
  let unsigned :=
    (hexadecimal? rest).or <| (decimal? rest).or <|
      ((after? "Infinity".toList rest).map (.infinity, ·)).or <|
        (after? "NaN".toList rest).map (.nan, ·)
  unsigned.map fun (magnitude, rest) => (⟨sign, magnitude⟩, rest)

end PotExtract.Json5
