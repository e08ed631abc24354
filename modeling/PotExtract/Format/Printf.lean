import PotExtract.Text.Letter
import PotExtract.Message

/-! Conversions of `printf`: a percent sign, an argument number, flags, a width, a precision, a
length modifier and a letter, of which only the sign and the letter must be there. A text is a
format when all its percent signs start conversions and one of them takes an argument. -/

namespace PotExtract.Format

open Text

/-- A width or precision: digits, or a star for an argument. -/
inductive Amount where
  | digits (ds : List Char)
  | star
  deriving DecidableEq, Repr

/-- The parts of a conversion as they are written. -/
structure Conversion where
  argument : Option (List Char)
  flags : List Char
  width : Option Amount
  precision : Option Amount
  modifier : List Char
  letter : Char
  deriving DecidableEq, Repr

/-- The characters allowed as flags. -/
def isFlag (c : Char) : Bool :=
  c ∈ ['-', '+', ' ', '0', '#', '\'']

/-- The letters that end a conversion, with the percent sign that stands for itself. -/
def isConversionLetter (c : Char) : Bool :=
  c ∈ "diuoxXfFeEgGaAcspn%".toList

/-- Whether the conversion is the two signs that print one. -/
def Conversion.isPercent (c : Conversion) : Bool :=
  c == ⟨none, [], none, none, [], '%'⟩

/-- Takes an argument number with its dollar sign, if there is one. -/
def takeArgument (s : List Char) : Option (List Char) × List Char :=
  match s.takeWhile isDecimal, s.dropWhile isDecimal with
  | d :: ds, '$' :: rest => (some (d :: ds), rest)
  | _, _ => (none, s)

/-- Takes a width, if there is one. -/
def takeAmount (s : List Char) : Option Amount × List Char :=
  match s with
  | '*' :: rest => (some .star, rest)
  | _ =>
    if s.takeWhile isDecimal = [] then (none, s)
    else (some (.digits (s.takeWhile isDecimal)), s.dropWhile isDecimal)

/-- Takes a precision with its point, if there is one. -/
def takePrecision (s : List Char) : Option Amount × List Char :=
  match s with
  | '.' :: rest =>
    match takeAmount rest with
    | (some amount, rest) => (some amount, rest)
    | (none, _) => (none, s)
  | _ => (none, s)

/-- Takes a length modifier, if there is one. -/
def takeModifier : List Char → List Char × List Char
  | 'h' :: 'h' :: s => (['h', 'h'], s)
  | 'l' :: 'l' :: s => (['l', 'l'], s)
  | c :: s => if c ∈ ['h', 'l', 'L', 'q', 'j', 'z', 't'] then ([c], s) else ([], c :: s)
  | [] => ([], [])

/-- Takes the letter of a conversion. -/
def takeLetter : List Char → Option (Char × List Char)
  | c :: s => if isConversionLetter c then some (c, s) else none
  | [] => none

/-- Reads the conversion after a percent sign. -/
def conversion? (s : List Char) : Option (Conversion × List Char) :=
  let argument := takeArgument s
  let width := takeAmount (argument.2.dropWhile isFlag)
  let precision := takePrecision width.2
  let modifier := takeModifier precision.2
  (takeLetter modifier.2).map fun (letter, rest) =>
    (⟨argument.1, argument.2.takeWhile isFlag, width.1, precision.1, modifier.1, letter⟩, rest)

theorem takeArgument_suffix (s : List Char) : (takeArgument s).2 <:+ s := by
  unfold takeArgument
  split
  · next h => exact (List.suffix_cons _ _).trans (h ▸ List.dropWhile_suffix _)
  · exact List.suffix_refl _

theorem takeAmount_suffix (s : List Char) : (takeAmount s).2 <:+ s := by
  unfold takeAmount
  split
  · exact List.suffix_cons _ _
  · split
    · exact List.suffix_refl _
    · exact List.dropWhile_suffix _

theorem takePrecision_suffix (s : List Char) : (takePrecision s).2 <:+ s := by
  unfold takePrecision
  split
  · next rest =>
    split
    · next h =>
      have := takeAmount_suffix rest
      rw [h] at this
      exact this.trans (List.suffix_cons _ _)
    · exact List.suffix_refl _
  · exact List.suffix_refl _

theorem takeModifier_suffix (s : List Char) : (takeModifier s).2 <:+ s := by
  unfold takeModifier
  split
  · exact List.suffix_append ['h', 'h'] _
  · exact List.suffix_append ['l', 'l'] _
  · split
    · exact List.suffix_cons _ _
    · exact List.suffix_refl _
  · exact List.suffix_refl _

/-- A conversion takes at least its letter. -/
theorem length_conversion?_lt {s rest : List Char} {c : Conversion}
    (h : conversion? s = some (c, rest)) : rest.length < s.length := by
  simp only [conversion?, Option.map_eq_some_iff, Prod.mk.injEq, Prod.exists] at h
  obtain ⟨letter, tail, hl, -, rfl⟩ := h
  have hm := (takeModifier_suffix (takePrecision (takeAmount
    ((takeArgument s).2.dropWhile isFlag)).2).2).trans <| (takePrecision_suffix _).trans <|
    (takeAmount_suffix _).trans <| (List.dropWhile_suffix isFlag).trans (takeArgument_suffix s)
  revert hl hm
  generalize (takeModifier _).2 = t
  intro hl hm
  have := hm.length_le
  cases t with
  | nil => simp [takeLetter] at hl
  | cons d t =>
    simp only [takeLetter] at hl
    split at hl
    · cases hl
      simp only [List.length_cons] at this
      omega
    · simp at hl

/-- The conversions of a text, or nothing if one of its percent signs starts none. -/
def conversions? : List Char → Option (List Conversion)
  | [] => some []
  | c :: s =>
    if c = '%' then
      match h : conversion? s with
      | some (conversion, rest) =>
        have := length_conversion?_lt h
        (conversions? rest).map (conversion :: ·)
      | none => none
    else conversions? s
  termination_by s => s.length

/-- Whether the text is a format that takes arguments. -/
def isPrintf (s : List Char) : Bool :=
  match conversions? s with
  | some conversions => conversions.any fun c => !c.isPercent
  | none => false

/-- Adds the flag of a format unless the flags settle the matter. -/
def checkPrintf (text : String) (flags : List String) : List String :=
  if "c-format" ∈ flags ∨ "no-c-format" ∈ flags then flags
  else if isPrintf text.toList then addFlag flags "c-format" else flags

end PotExtract.Format
