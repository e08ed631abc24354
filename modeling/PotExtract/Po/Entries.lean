import PotExtract.Text.Blank
import PotExtract.Text.Lines
import PotExtract.Text.Pieces

/-! Reading PO files line by line: all entries in the order of the file, the same key any number of
times, and the header with the place where it ends. -/

namespace PotExtract.Po

open Text

/-- What tells the entries of a PO file apart. -/
structure PoKey where
  context : Option String
  msgid : String
  deriving DecidableEq, Repr

/-- The key as it is shown to the user. -/
def PoKey.shown (k : PoKey) : String :=
  match k.context with
  | some context => s!"[{context}] {k.msgid}"
  | none => k.msgid

/-- An entry with its translated text, which is the first one if there are several. -/
structure PoEntry where
  key : PoKey
  msgstr : String
  deriving DecidableEq, Repr

/-- The field that a quoted line continues. -/
inductive PoField where
  | context
  | id
  | pluralId
  | msgstr
  | otherForm
  deriving DecidableEq, Repr

/-- The character that a backslash and another character stand for. -/
def unescapeChar : Char → Char
  | 'n' => '\n'
  | 't' => '\t'
  | 'r' => '\r'
  | c => c

/-- The text that an escaped one stands for. A backslash at the end stays. -/
def unescape : List Char → List Char
  | [] => []
  | ['\\'] => ['\\']
  | '\\' :: c :: s => unescapeChar c :: unescape s
  | c :: s => c :: unescape s

/-- The text of a quoted value, which is empty unless there are two quotes. -/
def unquote (value : List Char) : List Char :=
  match trim value with
  | '"' :: rest => if rest.getLast? = some '"' then unescape rest.dropLast else []
  | _ => []

/-- The field that the name in front of a value means. -/
def fieldNamed? (name : List Char) : Option PoField :=
  if name = "msgctxt".toList then some .context
  else if name = "msgid".toList then some .id
  else if name = "msgid_plural".toList then some .pluralId
  else if name = "msgstr".toList ∨ name = "msgstr[0]".toList then some .msgstr
  else if "msgstr[".toList.isPrefixOf name then some .otherForm
  else none

/-- An entry that is being read. -/
structure Draft where
  context : Option (List Char) := none
  msgid : Option (List Char) := none
  msgstr : List Char := []
  deriving DecidableEq, Repr

namespace Draft

/-- Adds text to a field. -/
def append (d : Draft) (field : PoField) (text : List Char) : Draft :=
  match field with
  | .context => { d with context := some (d.context.getD [] ++ text) }
  | .id => { d with msgid := some (d.msgid.getD [] ++ text) }
  | .msgstr => { d with msgstr := d.msgstr ++ text }
  | .pluralId | .otherForm => d

/-- The entry, unless it has no id or is the header. -/
def entry? (d : Draft) : Option PoEntry :=
  match d.context, d.msgid with
  | _, none => none
  | none, some [] => none
  | context, some msgid =>
    some ⟨⟨context.map String.ofList, String.ofList msgid⟩, String.ofList d.msgstr⟩

end Draft

/-- The entries read so far, the one that is being read, and its last field. -/
structure EntryReader where
  entries : List PoEntry := []
  draft : Draft := {}
  field : Option PoField := none
  deriving DecidableEq, Repr

namespace EntryReader

/-- Ends the entry that is being read. -/
def finish (r : EntryReader) : EntryReader :=
  { r with entries := r.entries ++ r.draft.entry?.toList, draft := {} }

/-- Whether a field starts another entry: a context does, and so does an id unless a context stands
right in front of it. -/
def startsEntry (r : EntryReader) (field : PoField) : Bool :=
  (field == .context || (field == .id && r.field != some .context)) && r.draft.msgid.isSome

/-- Takes a field with its value. -/
def takeField (r : EntryReader) (field : PoField) (value : List Char) : EntryReader :=
  let r := if r.startsEntry field then r.finish else r
  { r with draft := r.draft.append field (unquote value), field := some field }

/-- Cuts a line at its first white space. -/
def cutWord (line : List Char) : List Char × List Char :=
  (line.takeWhile (!isBlank ·), (line.dropWhile (!isBlank ·)).drop 1)

/-- Takes a line without white space at its ends. -/
def takeLine (r : EntryReader) (line : List Char) : EntryReader :=
  match line with
  | [] => { r.finish with field := none }
  | '#' :: _ => r
  | '"' :: _ =>
    match r.field with
    | some field => { r with draft := r.draft.append field (unquote line) }
    | none => r
  | _ =>
    let (name, value) := cutWord line
    match fieldNamed? name with
    | some field => r.takeField field value
    | none => r

end EntryReader

/-- The entries of a PO file in order, without the header and obsolete entries. -/
def readEntries (text : List Char) : List PoEntry :=
  (((lines text).map trim).foldl EntryReader.takeLine {}).finish.entries

/-! ### The header -/

/-- The fields of a header, the number of bytes up to its end, and the text behind it. -/
structure HeaderCut where
  fields : List (String × String)
  stop : Nat
  rest : List Char
  deriving DecidableEq, Repr

/-- The value of the first field with a name. -/
def HeaderCut.get? (h : HeaderCut) (name : String) : Option String :=
  h.fields.lookup name

/-- The name and the value in a line of a header. -/
def headerField? (line : List Char) : Option (String × String) :=
  (cut? ':' line).map fun (name, value) => (String.ofList (trim name), String.ofList (trim value))

/-- Whether a line continues a field. -/
def isContinuation (line : List Char) : Bool :=
  (trim line).head? = some '"'

/-- Whether a line may stand in front of the header. -/
def isPreamble (line : List Char) : Bool :=
  match trim line with
  | [] => true
  | c :: _ => c == '#'

/-- The value of a translated text on a line. -/
def msgstrOn? (line : List Char) : Option (List Char) :=
  (after? "msgstr ".toList (trim line)).map unquote

/-- Reads the header of a PO file: comments and blank lines, an empty id, and a text. -/
def readHeader? (text : List Char) : Option HeaderCut :=
  let all := linesWithEnds text
  match all.dropWhile isPreamble with
  | [] => none
  | idLine :: later =>
    if trim idLine != "msgid \"\"".toList then none
    else if (later.takeWhile isContinuation).any fun line => !(unquote line).isEmpty then none
    else
      match later.dropWhile isContinuation with
      | [] => none
      | line :: rest =>
        (msgstrOn? line).map fun value =>
          let msgstr := value ++ (rest.takeWhile isContinuation).flatMap unquote
          let behind := (rest.dropWhile isContinuation).flatten
          { fields := (lines msgstr).filterMap headerField?
            stop := byteLength text - byteLength behind
            rest := behind }

end PotExtract.Po
