import PotExtract.Template.Scan
import PotExtract.Zcml

/-! Scanners: what they are called, which files they read by default, and how they scan the bytes of
a file. -/

namespace PotExtract

/-- The kinds of sources. A template has an engine for expressions that name none. -/
inductive SourceKind where
  | python
  | template (engine : Tales.Engine)
  | zcml
  deriving DecidableEq, Repr

/-- A scanner with the name that users configure it by, and the extensions it reads by default. -/
structure Scanner where
  name : String
  extensions : List String
  kind : SourceKind
  deriving DecidableEq, Repr

namespace Scanner

/-- The scanner of Python modules. -/
def python : Scanner := ⟨"python", [".py"], .python⟩

/-- The scanner of Chameleon templates, whose expressions are Python. -/
def chameleon : Scanner := ⟨"chameleon", [".pt"], .template .python⟩

/-- The scanner of Zope page templates, whose expressions are paths. -/
def zope : Scanner := ⟨"zope", [".zpt", ".cpt"], .template .tales⟩

/-- The scanner of Zope configuration. -/
def zcml : Scanner := ⟨"zcml", [".zcml"], .zcml⟩

/-- All scanners. -/
def all : List Scanner := [python, chameleon, zope, zcml]

/-- The scanner with another default engine, if it has expressions. -/
def withEngine? (s : Scanner) (engine : Tales.Engine) : Option Scanner :=
  match s.kind with
  | .template _ => some { s with kind := .template engine }
  | _ => none

/-- The messages of a Python module. -/
def scanPython (options : ScanOptions) (file : String) (source : List Char) : ScanReport :=
  match Python.scanWithRemarks ⟨options, file, 0⟩ (String.ofList source) with
  | (remarks, .ok messages) => ⟨remarks, .ok messages⟩
  | (remarks, .error e) => ⟨remarks, .error (.parse file e.line (.python e.fault))⟩

/-- The messages of a text. -/
def scanText (s : Scanner) (options : ScanOptions) (file : String) (source : List Char) :
    ScanReport :=
  match s.kind with
  | .python => scanPython options file source
  | .template engine => Template.scan ⟨options, file, engine⟩ source
  | .zcml => Zcml.scan options file source

/-- The text of a file without the mark that may stand in front of it. -/
def withoutMark (source : List Char) : List Char :=
  match source with
  | c :: rest => if c = Markup.byteOrderMark then rest else source
  | [] => []

/-- The messages of a file. -/
def scan (s : Scanner) (options : ScanOptions) (file : String) (bytes : List UInt8) : ScanReport :=
  match Text.decodeUtf8 bytes with
  | .ok source => s.scanText options file (withoutMark source)
  | .error fault => { outcome := .error (.encoding file fault) }

end Scanner

end PotExtract
