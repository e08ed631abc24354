import PotExtract.Disk
import PotExtract.Po.Entries
import PotExtract.Po.Record

/-! Reading the catalog in a PO file. Behind the header, each record is a run of lines that ends at
an empty line. The quotes of a value are not looked at: its first and its last byte are dropped,
whatever they are. -/

namespace PotExtract.Po

open Text

/-- Why the text is not a catalog. -/
inductive ReadFault where
  /-- The text does not start with a header. -/
  | noHeader
  /-- The first and the last byte of a value are not characters, or they are the same one. -/
  | noQuotes
  /-- A backslash stands in front of a character that it cannot be put to. -/
  | badEscape (c : Char)
  /-- There is no scratch file to read the text from. -/
  | noScratch (error : DiskError)
  | scratchNotWritten (error : DiskError)
  deriving DecidableEq, Repr

/-- The fault as it is shown to the user. -/
def ReadFault.message : ReadFault → String
  | .noHeader => "No header entry found"
  | .noQuotes => "PO parse error: value without quotes"
  | .badEscape c => s!"PO parse error: invalid unescape sequence {c}"
  | .noScratch error => s!"Failed to create temporary file: {error.message}"
  | .scratchNotWritten error => s!"Failed to write temporary file: {error.message}"

/-- A field of a record: a note in front of it, or a text of the message. The form of a plural is
numbered by its digit. -/
inductive RecordField where
  | comment
  | source
  | flags
  | context
  | id
  | pluralId
  | msgstr
  | form (digit : Char)
  deriving DecidableEq, Repr

/-- A record as it stands in the file, with its fields still escaped. It is open once a line has
given it anything. -/
structure RawRecord where
  isOpen : Bool := false
  comment : List Char := []
  source : List Char := []
  flags : List Char := []
  context : List Char := []
  id : List Char := []
  pluralId : List Char := []
  msgstr : List Char := []
  forms : List (Char × List Char) := []
  deriving DecidableEq, Repr

/-- The text with a line at its end. -/
def addLine (s line : List Char) : List Char :=
  if s.isEmpty ∨ s.getLast? = some '\n' then s ++ line else s ++ '\n' :: line

/-- The value without its quotes, which are one byte each. -/
def withoutQuotes? (value : List Char) : Option (List Char) :=
  match value with
  | first :: rest =>
    match rest.getLast? with
    | some last =>
      if first.utf8Size = 1 ∧ last.utf8Size = 1 then some rest.dropLast else none
    | none => none
  | [] => none

/-- Changes the form with a digit, which is empty at first. -/
def modifyForm (digit : Char) (f : List Char → List Char) :
    List (Char × List Char) → List (Char × List Char)
  | [] => [(digit, f [])]
  | (d, form) :: forms =>
    if d = digit then (d, f form) :: forms else (d, form) :: modifyForm digit f forms

namespace RawRecord

/-- Changes a field, which opens the record. -/
def modify (r : RawRecord) (field : RecordField) (f : List Char → List Char) : RawRecord :=
  let r := { r with isOpen := true }
  match field with
  | .comment => { r with comment := f r.comment }
  | .source => { r with source := f r.source }
  | .flags => { r with flags := f r.flags }
  | .context => { r with context := f r.context }
  | .id => { r with id := f r.id }
  | .pluralId => { r with pluralId := f r.pluralId }
  | .msgstr => { r with msgstr := f r.msgstr }
  | .form digit => { r with forms := modifyForm digit f r.forms }

/-- Adds text to a field. -/
def append (r : RawRecord) (field : RecordField) (text : List Char) : RawRecord :=
  r.modify field (· ++ text)

/-- Adds a line to a note. -/
def annotate (r : RawRecord) (field : RecordField) (line : List Char) : RawRecord :=
  r.modify field (addLine · line)

end RawRecord

/-- The field that the text behind a `#` gives a line to, and the line. -/
def noteLine? : List Char → Option (RecordField × List Char)
  | '.' :: ' ' :: line => some (.comment, line)
  | ':' :: ' ' :: line => some (.source, line)
  | ',' :: ' ' :: line => some (.flags, line)
  | _ => none

/-- The field that a line names, and its value. -/
def fieldLine? (line : List Char) : Option (RecordField × List Char) :=
  match cut? ' ' line with
  | none => none
  | some (name, value) =>
    if name = "msgctxt".toList then some (.context, value)
    else if name = "msgid".toList then some (.id, value)
    else if name = "msgid_plural".toList then some (.pluralId, value)
    else if name = "msgstr".toList then some (.msgstr, value)
    else
      match after? "msgstr[".toList name with
      | some [digit, ']'] => if digit.isDigit then some (.form digit, value) else none
      | _ => none

/-! ### Unescaping -/

/-- The character that a backslash and another character stand for. -/
def escapedChar? : Char → Option Char
  | '\\' => some '\\'
  | '"' => some '"'
  | 'n' => some '\n'
  | 'r' => some '\r'
  | 't' => some '\t'
  | _ => none

/-- The text that an escaped one stands for. A backslash at the end stays. -/
def unescapeStrict : List Char → Except ReadFault (List Char)
  | [] => .ok []
  | ['\\'] => .ok ['\\']
  | '\\' :: c :: s =>
    match escapedChar? c with
    | some d => (d :: ·) <$> unescapeStrict s
    | none => .error (.badEscape c)
  | c :: s => (c :: ·) <$> unescapeStrict s

/-- The forms in the order of their digits. -/
def sortForms (forms : List (Char × List Char)) : List (Char × List Char) :=
  sortBy (fun a b => compareChars a.1 b.1) forms

/-- The flags between commas. -/
def splitFlags (flags : List Char) : List String :=
  (((flags.filter (· != '\n')).splitOn ',').map fun f => String.ofList (trim f)).filter
    fun f => !f.isEmpty

namespace RawRecord

/-- The translated texts that are unescaped in front of the other fields: the forms of a plural. -/
def msgstrForms (r : RawRecord) : List (List Char) :=
  if r.pluralId.isEmpty then [] else (sortForms r.forms).map (·.2)

/-- The translated text that is unescaped behind the other fields: that of a message without a
plural. -/
def singleMsgstr (r : RawRecord) : List Char :=
  if r.pluralId.isEmpty then r.msgstr else []

/-- The record without escapes. The first field with a bad escape is the fault. -/
def unescaped (r : RawRecord) : Except ReadFault Record := do
  let _ ← r.msgstrForms.mapM unescapeStrict
  let context ← unescapeStrict r.context
  let id ← unescapeStrict r.id
  let pluralId ← unescapeStrict r.pluralId
  let _ ← unescapeStrict r.singleMsgstr
  return {
    context := String.ofList context
    id := String.ofList id
    pluralId := if pluralId.isEmpty then none else some (String.ofList pluralId)
    flags := splitFlags r.flags
    source := String.ofList r.source
    comment := String.ofList r.comment }

end RawRecord

/-! ### Lines -/

/-- The records read so far, the one that is being read, and the field that a quoted line
continues, which may be one of the record before. -/
structure RecordReader where
  records : List Record := []
  raw : RawRecord := {}
  field : RecordField := .msgstr
  deriving DecidableEq, Repr

namespace RecordReader

/-- Ends the record that is being read. -/
def finish (r : RecordReader) : Except ReadFault RecordReader :=
  if r.raw.isOpen then do
    let record ← r.raw.unescaped
    return { r with records := putRecord r.records record, raw := {} }
  else .ok r

/-- Takes a value for a field. -/
def takeValue (r : RecordReader) (field : RecordField) (value : List Char) :
    Except ReadFault RecordReader :=
  match withoutQuotes? value with
  | some text => .ok { r with raw := r.raw.append field text, field }
  | none => .error .noQuotes

/-- Takes what stands behind the `#` of a line. -/
def takeNote (r : RecordReader) (note : List Char) : RecordReader :=
  match noteLine? note with
  | some (field, line) => { r with raw := r.raw.annotate field line, field }
  | none => r

/-- Takes a line. -/
def takeLine (r : RecordReader) (line : List Char) : Except ReadFault RecordReader :=
  match line with
  | [] => r.finish
  | '#' :: note => .ok (r.takeNote note)
  | '"' :: _ => r.takeValue r.field line
  | _ =>
    match fieldLine? line with
    | some (field, value) => r.takeValue field value
    | none => .ok r

end RecordReader

/-- The records in the lines behind the header. -/
def readRecords (ls : List (List Char)) : Except ReadFault (List Record) := do
  let r ← ls.foldlM RecordReader.takeLine {}
  return (← r.finish).records

/-- The catalog in a PO file. -/
def readCatalog (text : List Char) : Except ReadFault Catalog :=
  match readHeader? text with
  | none => .error .noHeader
  | some header => catalogOf <$> readRecords (lines header.rest)

/-- The catalog in a text that has a header. What is behind it is put into a scratch file of the host
and read from there. -/
def parseText (d : Disk) (text : List Char) (host : Host := {}) : Except ReadFault Catalog := do
  if (readHeader? text).isNone then throw .noHeader
  (host.answer d .createScratch (.ok ())).mapError .noScratch
  (host.answer d .writeScratch (.ok ())).mapError .scratchNotWritten
  readCatalog text

end PotExtract.Po
