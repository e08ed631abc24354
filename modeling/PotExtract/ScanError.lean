import PotExtract.Remark
import PotExtract.Message
import PotExtract.Text.Utf8
import PotExtract.Python.Call
import PotExtract.Markup.Document
import PotExtract.Markup.Reference

/-! Why a file cannot be scanned, and what a scan reports. -/

namespace PotExtract

/-- What is not understood on a line. -/
inductive ScanFault where
  | python (fault : Python.Fault)
  | markup (fault : Markup.Fault)
  | reference (fault : Markup.ReferenceFault)
  | badDefine (clause : String)
  | badRepeat (value : String)
  | unopenedEnd (name : String)
  | otherEnd (expected found : String)
  | endInElement
  deriving DecidableEq, Repr

/-- The fault as it is shown to the user. -/
def ScanFault.message : ScanFault → String
  | .python fault => fault.message
  | .markup fault => fault.message
  | .reference fault => fault.message
  | .badDefine clause => s!"Invalid define syntax: {clause}"
  | .badRepeat value => s!"tal:repeat must define exactly one variable: {value}"
  | .unopenedEnd name => s!"ill-formed document: close tag `</{name}>` does not match any open tag"
  | .otherEnd expected found =>
    s!"ill-formed document: expected `</{expected}>`, but `</{found}>` was found"
  | .endInElement => "unexpected end of file inside an element"

/-- The problem that ends the scan of a file. -/
inductive ScanError where
  | parse (file : String) (line : Nat) (fault : ScanFault)
  | expression (file : String) (line : Nat) (fragment : String)
  | encoding (file : String) (fault : Text.Utf8Error)
  deriving DecidableEq, Repr

/-- The error as it is shown to the user. -/
def ScanError.message : ScanError → String
  | .parse file line fault => s!"Aborting due to parse error in {file}[{line}]: {fault.message}"
  | .expression file line fragment =>
    s!"Aborting due to Python syntax error in {file}[{line}]: {fragment}"
  | .encoding file fault => s!"Aborting due to parse error in {file}: {fault.message}"

/-- The messages of a scan or the problem that ended it, and the remarks made on the way. -/
structure ScanReport where
  remarks : List Remark := []
  outcome : Except ScanError (List Message)

end PotExtract
