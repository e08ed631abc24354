import PotExtract.Text.Blank
import PotExtract.Text.Pieces
import PotExtract.Text.Numeral

/-! Keywords: the functions whose calls carry translatable text, and which arguments carry what. A
keyword is written as its name, a colon and parameters between commas: a number for the message id,
a second one for the plural, `2c` for the context, `1d` for the domain, `3t` for the number of
arguments a call must have, and a quoted comment for translators. -/

namespace PotExtract

/-- The layout of the arguments of one function that marks text. Positions count from one. -/
structure Keyword where
  function : String
  msgid : Nat := 1
  plural : Option Nat := none
  domain : Option Nat := none
  context : Option Nat := none
  required : Option Nat := none
  comment : String := ""
  deriving DecidableEq, Repr

/-- What is wrong with a keyword specification. -/
inductive KeywordFault where
  | emptyName
  | invalidNumber (param : String)
  | unknownSuffix (suffix : Char) (param : String)
  | zeroPosition
  | tooManyMessageArguments
  deriving DecidableEq, Repr

/-- A refused specification and its fault. -/
structure KeywordError where
  spec : String
  fault : KeywordFault
  deriving DecidableEq, Repr

/-- The error as it is shown to the user. -/
def KeywordError.message (e : KeywordError) : String :=
  match e.fault with
  | .emptyName => s!"keyword spec '{e.spec}' has an empty function name"
  | .invalidNumber param => s!"keyword spec '{e.spec}': invalid argument number '{param}'"
  | .unknownSuffix suffix param =>
    s!"keyword spec '{e.spec}': unknown parameter suffix '{suffix}' in '{param}'"
  | .zeroPosition => s!"keyword spec '{e.spec}': argument positions start at 1"
  | .tooManyMessageArguments => s!"keyword spec '{e.spec}': too many message arguments"

namespace Keyword

open Text

/-- One parameter of a specification. -/
inductive Param where
  | message (position : Nat)
  | context (position : Nat)
  | domain (position : Nat)
  | required (count : Nat)
  | comment (text : String)
  deriving DecidableEq, Repr

/-- The text between the quotes of a quoted parameter. -/
def quotedText? (param : List Char) : Option (List Char) :=
  match param with
  | '"' :: rest => if rest.getLast? = some '"' then some rest.dropLast else none
  | _ => none

/-- The digits of a parameter and the letter after them. -/
def splitSuffix (param : List Char) : List Char × Option Char :=
  match param.getLast? with
  | some c => if c.isAlpha then (param.dropLast, some c) else (param, none)
  | none => (param, none)

/-- A position, which counts from one. -/
def position (make : Nat → Param) (value : Nat) : Except KeywordFault Param :=
  if value = 0 then .error .zeroPosition else .ok (make value)

/-- Reads a parameter that holds no white space at its ends. -/
def Param.parse (param : List Char) : Except KeywordFault Param :=
  match quotedText? param with
  | some text => .ok (.comment (String.ofList text))
  | none =>
    let (digits, suffix) := splitSuffix param
    match readNat? (trim digits) with
    | none => .error (.invalidNumber (String.ofList param))
    | some value =>
      match suffix with
      | some 't' => .ok (.required value)
      | some 'c' => position .context value
      | some 'd' => position .domain value
      | some other => .error (.unknownSuffix other (String.ofList param))
      | none => position .message value

/-- Cuts at the commas outside of quotes. -/
def splitParams (quoted : Bool) : List Char → List (List Char)
  | [] => [[]]
  | c :: s =>
    if c = ',' && !quoted then [] :: splitParams quoted s
    else (splitParams (if c = '"' then !quoted else quoted) s).modifyHead (c :: ·)

/-- The keyword with one more parameter, message positions aside. -/
def apply (k : Keyword) : Param → Keyword
  | .message _ => k
  | .context position => { k with context := some position }
  | .domain position => { k with domain := some position }
  | .required count => { k with required := some count }
  | .comment text => { k with comment := text }

/-- The position of a message parameter. -/
def Param.message? : Param → Option Nat
  | .message position => some position
  | _ => none

/-- The keyword with the given positions of the message id and the plural. -/
def withMessages (k : Keyword) : List Nat → Except KeywordFault Keyword
  | [] => .ok k
  | [msgid] => .ok { k with msgid := msgid }
  | [msgid, plural] => .ok { k with msgid := msgid, plural := some plural }
  | _ => .error .tooManyMessageArguments

/-- Reads the parameters of the function `name`. -/
def parseParams (name params : List Char) : Except KeywordFault Keyword := do
  let texts := ((splitParams false params).map trim).filter fun p => !p.isEmpty
  let params ← texts.mapM Param.parse
  let keyword := params.foldl apply { function := String.ofList name }
  keyword.withMessages (params.filterMap Param.message?)

/-- Reads a specification up to its fault. -/
def parseSpec (spec : List Char) : Except KeywordFault Keyword :=
  match cut? ':' spec with
  | none =>
    let name := trim spec
    if name.isEmpty then .error .emptyName else .ok { function := String.ofList name }
  | some (function, params) =>
    let name := trim function
    if name.isEmpty then .error .emptyName else parseParams name params

/-- Reads a specification such as `dngettext:1d,2,3`. -/
def parse (spec : String) : Except KeywordError Keyword :=
  (parseSpec spec.toList).mapError fun fault => ⟨spec, fault⟩

end Keyword

end PotExtract
