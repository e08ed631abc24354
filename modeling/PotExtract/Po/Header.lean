import PotExtract.Po.Field

/-! The header of a catalog: what is known of the project, and the fields that every catalog starts
with. -/

namespace PotExtract.Po

/-- What a catalog says of its project. -/
structure Header where
  packageName : String := "PACKAGE"
  packageVersion : String := "1.0"
  copyrightHolder : Option String := none
  msgidBugsAddress : Option String := none
  deriving DecidableEq, Repr

/-- The time at which a catalog is written, to the minute and with its time zone, and the year. -/
structure Clock where
  stamp : String
  year : String
  deriving DecidableEq, Repr

/-- The program that writes catalogs, with its version. -/
def generator : String := "msgscan 0.5.2"

/-- The fields of the header with their values. -/
def headerFields (h : Header) (clock : Clock) : List (String × String) :=
  [("Project-Id-Version", h.packageName ++ " " ++ h.packageVersion),
    ("POT-Creation-Date", clock.stamp),
    ("PO-Revision-Date", "YEAR-MO-DA HO:MI+ZONE"),
    ("Last-Translator", "FULL NAME <EMAIL@ADDRESS>"),
    ("Language-Team", "LANGUAGE <LL@li.org>"),
    ("MIME-Version", "1.0"),
    ("Content-Type", "text/plain; charset=UTF-8"),
    ("Content-Transfer-Encoding", "8bit"),
    ("Language", ""),
    ("Plural-Forms", "nplurals=1; plural=0;")]

/-- The text of the header entry. -/
def headerText (h : Header) (clock : Clock) : String :=
  String.join ((headerFields h clock).map fun (name, value) => name ++ ": " ++ value ++ "\n")

end PotExtract.Po
