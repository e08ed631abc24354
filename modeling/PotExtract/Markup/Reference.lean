import PotExtract.Text.Numeral
import PotExtract.Text.Pieces

/-! References in the attributes of XML. Unlike entities of templates they must be well formed and
known, and character references must be numbers of characters that XML allows. -/

namespace PotExtract.Markup

open Text

/-- What is wrong with a reference. Places are in bytes. -/
inductive ReferenceFault where
  | noSemicolon (start stop : Nat)
  | unknownName (start stop : Nat) (name : String)
  | signedNumber
  | badNumber (fault : NumeralError)
  | nullCharacter
  | noCharacter (code : Nat)
  deriving DecidableEq, Repr

/-- Names the fault of a number. -/
def numeralMessage : NumeralError → String
  | .empty => "cannot parse integer from empty string"
  | .badDigit => "invalid digit found in string"
  | .tooLarge => "number too large to fit in target type"

/-- The fault as it is shown to the user. -/
def ReferenceFault.message : ReferenceFault → String
  | .noSemicolon start stop =>
    s!"Error while escaping character at range {start}..{stop}: Cannot find ';' after '&'"
  | .unknownName start stop name => s!"at {start}..{stop}: unrecognized entity `{name}`"
  | .signedNumber => "invalid character reference: unexpected number sign"
  | .badNumber fault => "invalid character reference: " ++ numeralMessage fault
  | .nullCharacter => "invalid character reference: 0x0 character is not permitted in XML"
  | .noCharacter code => s!"invalid character reference: `{code}` is not a valid codepoint"

/-- Reads a number of 32 bits without a sign. -/
def referenceNumber (base : Nat) (digits : List Char) : Except ReferenceFault Nat :=
  match digits with
  | '+' :: _ | '-' :: _ => .error .signedNumber
  | _ => (readNumeral base limit32 digits).mapError .badNumber

/-- The character with a code that XML allows. -/
def allowedChar (code : Nat) : Except ReferenceFault Char :=
  if code = 0 then .error .nullCharacter
  else
    match charOfCode? code with
    | some c => .ok c
    | none => .error (.noCharacter code)

/-- The characters with names. -/
def predefined? (name : List Char) : Option Char :=
  if name = "lt".toList then some '<'
  else if name = "gt".toList then some '>'
  else if name = "amp".toList then some '&'
  else if name = "apos".toList then some '\''
  else if name = "quot".toList then some '"'
  else none

/-- The character of a reference that starts at byte `start`. -/
def referenceChar (start : Nat) (reference : List Char) : Except ReferenceFault Char :=
  match reference with
  | '#' :: 'x' :: digits => referenceNumber 16 digits >>= allowedChar
  | '#' :: digits => referenceNumber 10 digits >>= allowedChar
  | _ =>
    match predefined? reference with
    | some c => .ok c
    | none => .error (.unknownName start (start + byteLength reference) (String.ofList reference))

/-- Cuts at the semicolon that ends a reference. No ampersand may come before it. -/
def cutReference? (s : List Char) : Option (List Char × List Char) :=
  (cut? ';' s).filter fun (reference, _) => !reference.contains '&'

/-- Replaces the references in the end `s` of a value of `size` bytes. -/
def unescapeFrom (size : Nat) (s : List Char) : Except ReferenceFault (List Char) :=
  match s with
  | [] => .ok []
  | c :: rest =>
    if c = '&' then
      let place := size - byteLength (c :: rest)
      match h : cutReference? rest with
      | none => .error (.noSemicolon place size)
      | some (reference, tail) =>
        have : tail.length < rest.length := length_cut?_lt (Option.eq_some_of_filter_eq_some h)
        match referenceChar (place + 1) reference with
        | .error e => .error e
        | .ok d => (unescapeFrom size tail).map (d :: ·)
    else (unescapeFrom size rest).map (c :: ·)
  termination_by s.length

/-- The value with its references replaced. -/
def unescape (value : List Char) : Except ReferenceFault (List Char) :=
  unescapeFrom (byteLength value) value

end PotExtract.Markup
