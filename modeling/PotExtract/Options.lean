import PotExtract.Keywords
import PotExtract.Comment

/-! What every scanner is told: the domain that is wanted, the keywords and the comments to keep. -/

namespace PotExtract

/-- The settings of a scan. Without a domain the messages of all domains are wanted. -/
structure ScanOptions where
  domain : Option String := none
  keywords : Keywords := .defaults
  comments : CommentPolicy := .none
  deriving DecidableEq, Repr

/-- The settings with the default keywords extended by specifications. -/
def ScanOptions.make (domain : Option String) (specs : List String) (comments : CommentPolicy) :
    Except KeywordError ScanOptions :=
  match Keywords.defaults.register specs with
  | (keywords, none) => .ok ⟨domain, keywords, comments⟩
  | (_, some e) => .error e

end PotExtract
