import PotExtract.Text.Lines
import PotExtract.Catalog

/-! Records: the messages of a PO file. A record is known by its key; of several with the same key
the last one counts, in the place of the first. -/

namespace PotExtract.Po

open Text

/-- A message of a PO file. An empty context is none, but an empty plural is a plural. -/
structure Record where
  context : String
  id : String
  pluralId : Option String
  flags : List String := []
  source : String := ""
  comment : String := ""
  deriving DecidableEq, Repr

namespace Record

/-- The text that a record is known by: context, id and plural, put together with control
characters. An id that holds such a character may be taken for two of them. -/
def key (r : Record) : String :=
  (if r.context.isEmpty then "" else r.context ++ "\x04") ++ r.id ++
    match r.pluralId with
    | none => ""
    | some plural => "\x00" ++ plural

/-- Whether two records have the same key. -/
def sameKey (a b : Record) : Bool :=
  a.key == b.key

/-- The record of an entry. -/
def ofEntry (e : Entry) : Record where
  context := e.context.getD ""
  id := e.id
  pluralId := e.pluralId
  flags := addFlags [] e.flags
  source := " ".intercalate (e.occurrences.map Occurrence.reference)
  comment := e.comment

/-- The text, unless it is empty. -/
def nonempty? (s : String) : Option String :=
  if s.isEmpty then none else some s

/-- The entry of a record. -/
def toEntry (r : Record) : Entry where
  id := r.id
  context := nonempty? r.context
  pluralId := r.pluralId.bind nonempty?
  flags := r.flags
  occurrences := (words r.source.toList).map fun w => Occurrence.ofReference (String.ofList w)
  comments := ((lines r.comment.toList).filter fun l => !l.isEmpty).map String.ofList

end Record

/-- Puts a record in the place of the one with its key, or at the end. -/
def putRecord (records : List Record) (r : Record) : List Record :=
  if records.any r.sameKey then records.map fun old => if r.sameKey old then r else old
  else records ++ [r]

/-- The records of a catalog. -/
def recordsOf (c : Catalog) : List Record :=
  (c.entries.map Record.ofEntry).foldl putRecord []

/-- The catalog of records. -/
def catalogOf (records : List Record) : Catalog :=
  .ofEntries (records.map Record.toEntry)

end PotExtract.Po
