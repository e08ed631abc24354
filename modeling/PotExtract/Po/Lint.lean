import PotExtract.Po.Entries

/-! Problems of PO files: texts that are translated more than once, and texts that
several are translated to. -/

namespace PotExtract.Po

/-- The problems of a file: repeated keys with their counts, and shared texts with the keys of
the entries that are translated to them. -/
structure LintReport where
  repeated : List (PoKey × Nat)
  shared : List (String × List PoKey)
  deriving DecidableEq, Repr

/-- Adds an item to the group of a key, which comes last if it is new. -/
def addToGroup [DecidableEq κ] (key : κ) (a : α) : List (κ × List α) → List (κ × List α)
  | [] => [(key, [a])]
  | (other, group) :: rest =>
    if other = key then (other, group ++ [a]) :: rest else (other, group) :: addToGroup key a rest

/-- Items in groups of equal keys, in the order in which the keys come first. -/
def groupBy [DecidableEq κ] (key : α → κ) (items : List α) : List (κ × List α) :=
  items.foldl (fun groups a => addToGroup (key a) a groups) []

/-- The problems of entries. -/
def lint (entries : List PoEntry) : LintReport where
  repeated := ((groupBy PoEntry.key entries).filter fun (_, group) => 1 < group.length).map
    fun (key, group) => (key, group.length)
  shared :=
    ((groupBy PoEntry.msgstr (entries.filter fun e => !e.msgstr.isEmpty)).filter
      fun (_, group) => 1 < group.length).map fun (msgstr, group) => (msgstr, group.map (·.key))

namespace LintReport

/-- Whether there are no problems. -/
def isClean (r : LintReport) : Bool :=
  r.repeated.isEmpty && r.shared.isEmpty

/-- A number padded to eight columns. -/
def padded (n : Nat) : String :=
  let digits := toString n
  digits ++ String.ofList (List.replicate (8 - digits.length) ' ')

/-- The report on a repeated key. -/
def renderRepeated (leader : String) (key : PoKey) (count : Nat) : String :=
  s!"{leader}Message repeated {count} times:\n     {key.shown}\n\n"

/-- The keys that share a text, numbered from `n`. -/
def renderKeys : (n : Nat) → List PoKey → String
  | _, [] => ""
  | n, key :: keys => padded n ++ key.shown ++ "\n" ++ renderKeys (n + 1) keys

/-- The report on a shared text. -/
def renderShared (leader msgstr : String) (keys : List PoKey) : String :=
  s!"{leader}Translation:\n        {msgstr}\nUsed for {keys.length} canonical texts:\n" ++
    renderKeys 1 keys ++ "\n"

/-- The report as it is shown to the user. The leader stands in front of each heading. -/
def render (r : LintReport) (leader : String) : String :=
  String.join (r.repeated.map fun (key, count) => renderRepeated leader key count) ++
    String.join (r.shared.map fun (msgstr, keys) => renderShared leader msgstr keys)

end LintReport

end PotExtract.Po
