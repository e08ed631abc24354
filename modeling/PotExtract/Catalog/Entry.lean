import PotExtract.Message
import PotExtract.Catalog.Occurrence

/-! Entries of a catalog: all messages with the same id and context taken together. An index gives
the places of their keys in a list. -/

namespace PotExtract

/-- What tells the entries of a catalog apart. -/
structure EntryKey where
  id : String
  context : Option String
  deriving DecidableEq, Repr

/-- The order of keys by id, then by context. -/
def EntryKey.compare (a b : EntryKey) : Ordering :=
  (Text.compareStrings a.id b.id).then (Text.compareOptions Text.compareStrings a.context b.context)

/-- An entry of a catalog. -/
structure Entry where
  id : String
  context : Option String := none
  pluralId : Option String := none
  flags : List String := []
  occurrences : List Occurrence := []
  comments : List String := []
  translatorComments : List String := []
  obsolete : Bool := false
  deriving DecidableEq, Repr

namespace Entry

/-- The key of the entry. -/
def key (e : Entry) : EntryKey :=
  ⟨e.id, e.context⟩

/-- The comments, one a line. -/
def comment (e : Entry) : String :=
  "\n".intercalate e.comments

/-- The comments of translators, one a line. -/
def translatorComment (e : Entry) : String :=
  "\n".intercalate e.translatorComments

/-- The list with a comment at its end, unless it is empty or there already up to white space. -/
def addComment (comments : List String) (comment : String) : List String :=
  if comment.isEmpty ∨ normalized comment ∈ comments.map normalized then comments
  else comments ++ [comment]

/-- The list with an occurrence at its end, unless it is there already. -/
def addOccurrence (occurrences : List Occurrence) (o : Occurrence) : List Occurrence :=
  if o ∈ occurrences then occurrences else occurrences ++ [o]

/-- The entry with one more message. Its place is kept if `locations`. -/
def absorb (e : Entry) (locations : Bool) (m : Message) : Entry :=
  { e with
    pluralId := e.pluralId.or m.pluralId
    occurrences :=
      if locations then addOccurrence e.occurrences ⟨m.location.file, some m.location.line⟩
      else e.occurrences
    flags := addFlags e.flags m.flags
    comments := addComment e.comments m.comment
    translatorComments := addComment e.translatorComments m.translatorComment }

/-- The occurrences without lines, each file once. -/
def filesOf (occurrences : List Occurrence) : List Occurrence :=
  (occurrences.map fun o => (⟨o.file, none⟩ : Occurrence)).foldl addOccurrence []

/-- Whether two entries say the same: places, the order of flags, and white space in comments do not
matter. -/
def agrees (a b : Entry) : Bool :=
  a.key == b.key && a.pluralId == b.pluralId &&
    Text.sortBy Text.compareStrings a.flags == Text.sortBy Text.compareStrings b.flags &&
    normalized a.comment == normalized b.comment &&
    normalized a.translatorComment == normalized b.translatorComment

end Entry

/-! ### Indexes -/

/-- Keys with their places. -/
structure Index where
  places : List (EntryKey × Nat) := []
  deriving DecidableEq, Repr

namespace Index

/-- The place of a key. -/
def get? (index : Index) (key : EntryKey) : Option Nat :=
  index.places.lookup key

/-- Gives a key a place instead of the one it had. -/
def insert (index : Index) (key : EntryKey) (i : Nat) : Index :=
  ⟨index.places.filter (fun p => p.1 != key) ++ [(key, i)]⟩

/-- The index of a list of keys. A key that stands twice has its last place. -/
def ofKeys (keys : List EntryKey) : Index :=
  keys.zipIdx.foldl (fun index (key, i) => index.insert key i) {}

end Index

end PotExtract
