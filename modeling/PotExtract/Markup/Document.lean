import PotExtract.Markup.Tree

/-! Documents, which may start with a byte order mark. The mark is no part of the markup, and places
are counted from behind it, but the text and the line at a place are looked up in the whole
document. Behind a mark they are therefore those of a place three bytes earlier. -/

namespace PotExtract.Markup

open Text

/-- Why a document is not understood: its markup, an attribute, a reference, or its end tags. -/
inductive Fault where
  | piece (fault : PieceFault)
  | attribute (fault : AttributeFault)
  deriving DecidableEq, Repr

/-- The fault as it is shown to the user. -/
def Fault.message : Fault → String
  | .piece fault => fault.message
  | .attribute fault => fault.message

/-- A fault and its line. -/
structure Failure where
  fault : Fault
  line : Nat
  deriving DecidableEq, Repr

/-- The character that may mark the start of a document. -/
def byteOrderMark : Char := '\ufeff'

/-- The event with its text and line looked up in `source`. -/
def Event.lookUp (source : List Char) (e : Event) : Event :=
  let written := (dropBytes? e.offset source).bind (takeBytes? (byteLength e.written))
  { e with written := written.getD [], line := 1 + lineFeedsBefore e.offset source }

/-- The events of a document. -/
def documentEvents (source : List Char) : Events :=
  match source with
  | [] => events []
  | c :: rest =>
    if c = byteOrderMark then
      let read := events rest
      { events := read.events.map (Event.lookUp source)
        failure := read.failure.map fun f =>
          { f with line := 1 + lineFeedsBefore f.offset source } }
    else events source

/-- The changes to the tree by events up to an attribute that is not understood. -/
def growths : List Event → List Growth × Option Failure
  | [] => ([], none)
  | e :: rest =>
    match e.growth with
    | .error fault => ([], some ⟨.attribute fault, e.line⟩)
    | .ok change =>
      let (changes, failure) := growths rest
      (change :: changes, failure)

/-- The tree of a document, or why there is none. -/
structure TreeReport where
  strayEnds : List (String × Nat)
  outcome : Except Failure (List Node)

/-- Reads a template as a tree, and lists the end tags that match no element on the way. -/
def readTree (source : List Char) : TreeReport :=
  let read := documentEvents source
  let (changes, failure) := growths read.events
  let strays := strayEnds {} changes
  match failure.or (read.failure.map fun f => ⟨.piece f.fault, f.line⟩) with
  | some failure => ⟨strays, .error failure⟩
  | none => ⟨strays, .ok (forest changes)⟩

end PotExtract.Markup
