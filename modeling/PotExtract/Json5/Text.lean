import PotExtract.Json5.NameRanges
import PotExtract.Json5.Space
import PotExtract.Text.Letter
import PotExtract.Text.Numeral

/-! Texts and names of JSON5. They are kept as they are written, since half of a character is a
fault only where the text is looked at. -/

namespace PotExtract.Json5

open Text

/-- A character of a text, or half of one that is written by number. -/
inductive TextUnit where
  | char (c : Char)
  | code (n : Nat)
  deriving DecidableEq, Repr

/-- The value of digits in base sixteen. -/
def hexValue? (ds : List Char) : Option Nat :=
  ds.foldlM (fun n c => (digitValue? 16 c).map (n * 16 + ·)) 0

/-- The character of two halves that are written by number. The high one is moved up by ten bits,
and the low one, with the first code of a character of two halves added, is laid over it. -/
def joinHalves (high low : Nat) : Char :=
  Char.ofNat ((high - 0xD800) <<< 10 ||| (low - 0xDC00 + 0x10000))

/-- The text of units. Two halves in a row are one character, and half a character is none. -/
def joinUnits? : List TextUnit → Option (List Char)
  | [] => some []
  | .char c :: units => (joinUnits? units).map (c :: ·)
  | .code high :: .code low :: units =>
    if 0xD800 ≤ high ∧ high < 0xDC00 then
      if 0xDC00 ≤ low ∧ low < 0xE000 then (joinUnits? units).map (joinHalves high low :: ·)
      else none
    else do return (← charOfCode? high) :: (← joinUnits? (.code low :: units))
  | .code n :: units => do return (← charOfCode? n) :: (← joinUnits? units)

/-- A text or a name as it is written. -/
structure RawText where
  units : List TextUnit
  deriving DecidableEq, Repr

/-- The text, unless half of a character stands alone in it. -/
def RawText.text? (raw : RawText) : Option String :=
  (joinUnits? raw.units).map String.ofList

/-! ### Quoted texts -/

/-- The character that a backslash and another character stand for. -/
def escaped? (c : Char) : Option Char :=
  match c with
  | 'b' => some '\x08'
  | 'f' => some '\x0c'
  | 'n' => some '\n'
  | 'r' => some '\r'
  | 't' => some '\t'
  | 'v' => some '\x0b'
  | '0' => some '\x00'
  | 'x' | 'u' => none
  | c => if c.isDigit then none else some c

/-- The units up to a closing quote, and the text behind it. -/
def textUnits? (quote : Char) : List Char → Option (List TextUnit × List Char)
  | [] => none
  | '\\' :: '\r' :: '\n' :: s => textUnits? quote s
  | '\\' :: 'x' :: a :: b :: s => do
    let n ← hexValue? [a, b]
    let (units, rest) ← textUnits? quote s
    return (.char (Char.ofNat n) :: units, rest)
  | '\\' :: 'u' :: a :: b :: c :: d :: s => do
    let n ← hexValue? [a, b, c, d]
    let (units, rest) ← textUnits? quote s
    return (.code n :: units, rest)
  | '\\' :: c :: s =>
    if isLineEnd c then textUnits? quote s
    else do
      let e ← escaped? c
      let (units, rest) ← textUnits? quote s
      return (.char e :: units, rest)
  | c :: s =>
    if c = quote then some ([], s)
    else if c = '\\' ∨ isLineEnd c then none
    else do
      let (units, rest) ← textUnits? quote s
      return (.char c :: units, rest)

/-- A quoted text, and what stands behind it. -/
def quoted? : List Char → Option (RawText × List Char)
  | [] => none
  | quote :: s =>
    if quote = '"' ∨ quote = '\'' then
      (textUnits? quote s).map fun (units, rest) => (⟨units⟩, rest)
    else none

/-! ### Names -/

/-- Whether a name may start with a character. -/
def isNameStart (c : Char) : Bool :=
  c.isAlpha || c == '$' || c == '_' || inRanges c.toNat startRanges

/-- Whether a name may go on with a character. -/
def isNamePart (c : Char) : Bool :=
  isNameStart c || c.isDigit || c == '^' || c.toNat == 0x60 || inRanges c.toNat partRanges

/-- The units of a name, which starts with a character of `first`, and what stands behind it. -/
def nameUnits (first : Char → Bool) : List Char → List TextUnit × List Char
  | [] => ([], [])
  | '\\' :: 'u' :: a :: b :: c :: d :: s =>
    match hexValue? [a, b, c, d] with
    | some n => let (units, rest) := nameUnits isNamePart s; (.code n :: units, rest)
    | none => ([], '\\' :: 'u' :: a :: b :: c :: d :: s)
  | c :: s =>
    if first c then let (units, rest) := nameUnits isNamePart s; (.char c :: units, rest)
    else ([], c :: s)

/-- A name without quotes, and what stands behind it. -/
def name? (s : List Char) : Option (RawText × List Char) :=
  match nameUnits isNameStart s with
  | ([], _) => none
  | (units, rest) => some (⟨units⟩, rest)

end PotExtract.Json5
