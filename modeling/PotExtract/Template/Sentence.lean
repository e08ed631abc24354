import PotExtract.Template.Frame
import PotExtract.Message

/-! The text of a translated element, which is read piece by piece: the text directly inside of it,
with placeholders for the elements inside of it. An element that has a name is referred to by that
name, and any other is dynamic. -/

namespace PotExtract.Template

open Text Markup

/-- The placeholder of an element called `name`. -/
def placeholder (name : String) : String :=
  "$\x7b" ++ name ++ "\x7d"

/-- What an element stands for in the sentence around it. The frame is the one around it. -/
def elementText (f : Frame) (tag : Tag) : String :=
  match (f.enter tag).filledMark? tag "name" with
  | some name => placeholder name
  | none => "<dynamic element>"

/-- The text without interpolations, each of which ends at its first closing brace. -/
def withoutInterpolations : List Char → List Char
  | '$' :: '{' :: s =>
    match h : cut? '}' s with
    | some (_, rest) =>
      have := length_cut?_lt h
      withoutInterpolations rest
    | none => '$' :: withoutInterpolations ('{' :: s)
  | c :: s => c :: withoutInterpolations s
  | [] => []
  termination_by s => s.length

/-- Whether a text holds nothing but interpolations and white space. -/
def isDynamic (text : String) : Bool :=
  (trim (withoutInterpolations text.toList)).isEmpty

/-- A translated element: what is read of its text, and what its message has to say about others. -/
structure Sentence where
  scope : Scope
  /-- The given id of the message. -/
  msgid : Option String
  pieces : List String := []
  /-- The sentence that it is directly part of. -/
  parent : Option Nat
  /-- The sentences of the named elements directly inside of it. -/
  named : List (String × Nat) := []
  line : Nat

namespace Sentence

/-- The text that has been read so far. -/
def text (s : Sentence) : String :=
  String.ofList (normalize (s.pieces.flatMap String.toList))

/-- Whether there is nothing to translate. -/
def isIgnorable (s : Sentence) : Bool :=
  s.msgid.isNone && isDynamic s.text

/-- The id of the message and the text it stands for by default: the given id, or the text itself.
-/
def idAndDefault (s : Sentence) : String × String :=
  match s.msgid with
  | some msgid => (msgid, s.text)
  | none => (s.text, "")

end Sentence

end PotExtract.Template
