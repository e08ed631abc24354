import PotExtract.Catalog.Entry

/-! Catalogs: the entries of a program, one for each id and context, in the order in which they were
found first or in the order that is asked for. -/

namespace PotExtract

/-- The orders of a finished catalog: as found, by id, or by places. -/
inductive SortOrder where
  | none
  | msgid
  | location
  deriving DecidableEq, Repr

/-- Entries with different keys, and the index of their keys. Places of messages are recorded if
`locations`. -/
structure Catalog where
  entries : List Entry := []
  index : Index := .ofKeys (entries.map Entry.key)
  locations : Bool := false
  deriving DecidableEq, Repr

namespace Catalog

open Text

/-- A catalog without entries. -/
def empty (locations : Bool) : Catalog :=
  { locations }

/-- The place of the entry with a key. -/
def index? (c : Catalog) (key : EntryKey) : Option Nat :=
  c.index.get? key

/-- The entry with an id and a context. -/
def get? (c : Catalog) (id : String) (context : Option String) : Option Entry :=
  (c.index? ⟨id, context⟩).bind fun i => c.entries[i]?

/-- The catalog with one more entry behind the others. -/
def append (c : Catalog) (e : Entry) : Catalog :=
  { c with entries := c.entries ++ [e], index := c.index.insert e.key c.entries.length }

/-- Adds an entry unless there is one with its key. -/
def addNew (c : Catalog) (e : Entry) : Catalog :=
  if (c.index? e.key).isSome then c else c.append e

/-- The catalog of entries, the first of each key. -/
def ofEntries (entries : List Entry) : Catalog :=
  entries.foldl addNew (empty true)

/-- Adds a message to the entry with its id and context, or as a new entry. -/
def merge (c : Catalog) (m : Message) : Catalog :=
  match c.index? ⟨m.id, m.context⟩ with
  | some i => { c with entries := c.entries.modify i fun e => e.absorb c.locations m }
  | none =>
    let e : Entry := { id := m.id, context := m.context }
    c.append (e.absorb c.locations m)

/-- Adds messages in order. -/
def mergeAll (c : Catalog) (messages : List Message) : Catalog :=
  messages.foldl merge c

/-- The entries in an order. By places, the occurrences of each entry are sorted first. -/
def sortEntries (order : SortOrder) (entries : List Entry) : List Entry :=
  match order with
  | .none => entries
  | .msgid => sortBy (fun a b => a.key.compare b.key) entries
  | .location =>
    let sorted := entries.map fun e =>
      { e with occurrences := sortBy Occurrence.compare e.occurrences }
    sortBy (fun a b => compareLists Occurrence.compare a.occurrences b.occurrences) sorted

/-- The catalog in an order, with lines in its occurrences or without. -/
def finalize (c : Catalog) (order : SortOrder) (lines : Bool) : Catalog :=
  let sorted := sortEntries order c.entries
  let finished :=
    if lines then sorted
    else sorted.map fun e => { e with occurrences := Entry.filesOf e.occurrences }
  { c with entries := finished, index := .ofKeys (finished.map Entry.key) }

/-- The entries that are not obsolete. -/
def live (c : Catalog) : List Entry :=
  c.entries.filter fun e => !e.obsolete

/-- The entries that are not obsolete, by key. -/
def liveByKey (c : Catalog) : List Entry :=
  sortBy (fun a b => a.key.compare b.key) c.live

/-- Whether two catalogs say the same, obsolete entries aside. -/
def sameMessages (a b : Catalog) : Bool :=
  a.liveByKey.length == b.liveByKey.length &&
    (a.liveByKey.zip b.liveByKey).all fun (e, o) => e.agrees o

end Catalog

end PotExtract
