import PotExtract.Po.Header
import PotExtract.Po.Record
import PotExtract.Text.Lines

/-! Writing catalogs. The entries are written behind a plain header, which is then decorated with
what a template needs: a title, the copyright, the mark of a header that is not filled in, the
address for reports, the program, and a placeholder for the plural forms. -/

namespace PotExtract.Po

open Text

/-- The lines of a note, each behind its mark. -/
def noteLines (mark note : String) : List (List Char) :=
  if note.isEmpty then [] else (note.toList.splitOn '\n').map (mark.toList ++ ·)

/-- The lines in front of the fields of a record: comments, places and flags. -/
def annotationLines (r : Record) : List (List Char) :=
  noteLines "#. " r.comment ++ noteLines "#: " r.source ++
  (if r.flags.isEmpty then [] else ["#, ".toList ++ (", ".intercalate r.flags).toList])

/-- The lines of the fields of a record, which is not translated. -/
def fieldsOf (r : Record) : List (List Char) :=
  (if r.context.isEmpty then [] else fieldLines "msgctxt".toList r.context.toList) ++
  fieldLines "msgid".toList r.id.toList ++
  match r.pluralId with
  | none => fieldLines "msgstr".toList []
  | some plural =>
    fieldLines "msgid_plural".toList plural.toList ++ fieldLines "msgstr[0]".toList [] ++
      fieldLines "msgstr[1]".toList []

/-- The lines of the header entry. -/
def headerLines (h : Header) (clock : Clock) : List (List Char) :=
  fieldLines "msgid".toList [] ++ fieldLines "msgstr".toList (headerText h clock).toList

/-- The lines of a catalog, with an empty one behind every entry. -/
def plainLines (c : Catalog) (h : Header) (clock : Clock) : List (List Char) :=
  [[]] ++ headerLines h clock ++ [[]] ++
    (recordsOf c).flatMap fun r => annotationLines r ++ fieldsOf r ++ [[]]

/-- Lines with their ends. -/
def unlines (ls : List (List Char)) : List Char :=
  ls.flatMap (· ++ ['\n'])

/-- A catalog behind a plain header. -/
def plainText (c : Catalog) (h : Header) (clock : Clock) : List Char :=
  unlines (plainLines c h clock)

/-! ### The header of a template -/

/-- The comments in front of the header. -/
def titleLines (h : Header) (clock : Clock) : List (List Char) :=
  ["# Translations template for ".toList ++ h.packageName.toList ++ ['.']] ++
  (h.copyrightHolder.map fun holder =>
    "# Copyright (C) ".toList ++ clock.year.toList ++ [' '] ++ holder.toList).toList ++
  [['#']]

/-- Whether a line starts with a quoted field of the header. -/
def startsField (name : String) (line : List Char) : Bool :=
  (('"' :: name.toList) ++ [':']).isPrefixOf line

/-- A line of the header with the name and the value of a field as they are. -/
def rawField (name value : String) : List Char :=
  '"' :: (name ++ ": " ++ value).toList ++ ['\\', 'n', '"', '\n']

/-- Whether a line is the id of a header. -/
def isHeaderStart (line : List Char) : Bool :=
  trimRight line == "msgid \"\"".toList

/-- The lines that take the place of a line. `marked` tells whether the header is marked,
`addressed` whether the project was named. -/
def decorateLine (h : Header) (marked addressed : Bool) (line : List Char) : List Char :=
  (if !marked && isHeaderStart line then "#, fuzzy\n".toList else []) ++
  if startsField "Plural-Forms" line then
    rawField "Plural-Forms" "nplurals=INTEGER; plural=EXPRESSION;"
  else
    line ++
    (if !addressed && startsField "Project-Id-Version" line then
      (h.msgidBugsAddress.map (rawField "Report-Msgid-Bugs-To")).getD []
    else []) ++
    (if startsField "Content-Transfer-Encoding" line then rawField "Generated-By" generator
    else [])

/-- Decorates lines in order. -/
def decorateLines (h : Header) : (marked addressed : Bool) → List (List Char) → List Char
  | _, _, [] => []
  | marked, addressed, line :: rest =>
    decorateLine h marked addressed line ++
      decorateLines h (marked || isHeaderStart line)
        (addressed || startsField "Project-Id-Version" line) rest

/-- The text of a template with its header decorated. -/
def decorateHeader (h : Header) (clock : Clock) (text : List Char) : List Char :=
  unlines (titleLines h clock) ++ decorateLines h false false (linesWithEnds text)

/-- The text of a template. -/
def templateText (c : Catalog) (h : Header) (clock : Clock) : List Char :=
  decorateHeader h clock (plainText c h clock)

end PotExtract.Po
