import PotExtract.CommandLine.Arguments
import PotExtract.Po.Check

/-! The program that checks PO files. -/

namespace PotExtract.CommandLine.PoLint

/-- The options. -/
def grammar : Grammar where
  program := "polint"
  operand := "<PO-FILE>..."
  options :=
    [{ long := "quiet", short := some 'q',
       about := "Do not warn about files that can not be parsed" }]
  acceptsOperand := isPath

/-- The words of a command line, which names a file. -/
def read (arguments : List String) : Except Stop (List Word) := do
  let words ← grammar.read arguments
  if (operands words).isEmpty then throw (.usage (.missingOperand "<PO-FILE>..."))
  return words

/-- Checks files in order. A value without quotes ends the run. -/
def checkAll (d : Disk) (level : LogLevel) (showPath : Bool) (console : Console) :
    List String → Nat × Console
  | [] => (0, console)
  | path :: paths =>
    match Po.check d path with
    | .ok report =>
      let leader := if showPath then s!"[{path}] " else ""
      checkAll d level showPath { console with out := console.out ++ report.render leader } paths
    | .error (.unparsable .noQuotes) =>
      (101, console.put level ⟨.error, s!"{path}: {Po.ReadFault.noQuotes.message}"⟩)
    | .error fault => checkAll d level showPath (console.putAll level (fault.warnings path)) paths

/-- Runs the program. -/
def run (d : Disk) (arguments : List String) : Result :=
  match read arguments with
  | .error stop => stopped grammar d stop
  | .ok words =>
    let paths := operands words
    let level := LogLevel.resolve (given words "quiet") none
    let (code, console) := checkAll d level (1 < paths.length) {} paths
    ⟨code, console, d⟩

end PotExtract.CommandLine.PoLint
