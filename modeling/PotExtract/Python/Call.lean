import PotExtract.Python.Token
import PotExtract.Python.Literal

/-! Collecting the arguments of a call. Text comes from string literals only, adjacent ones being
one argument, and whatever else an argument holds makes its value dynamic. Nested brackets are
passed over up to the closing bracket of their own kind. -/

namespace PotExtract.Python

/-- The value of an argument as far as the source shows it. -/
inductive Value where
  | text (s : String)
  | number (written : String)
  | dynamic
  deriving DecidableEq, Repr

/-- The text of a value that has one. -/
def Value.text? : Value → Option String
  | .text s => some s
  | _ => none

/-- The value of adjacent strings. -/
def Value.append : Value → Value → Value
  | .text s, .text t => .text (s ++ t)
  | _, _ => .dynamic

/-- The value of a string literal. -/
def Value.ofLiteral (literal : String) : Value :=
  match Literal.decode? literal with
  | some s => .text s
  | none => .dynamic

/-- An argument, with its name if it is given by name. -/
structure Argument where
  name : Option String
  value : Value
  deriving DecidableEq, Repr

/-- Why the source of a call is not understood. -/
inductive Fault where
  | lexical (fault : LexFault)
  | unexpectedComma
  | unexpectedToken (text : String)
  | unexpectedNumber (text : String)
  | unexpectedDedent
  | unexpectedEnd
  | notText (argument : String)
  deriving DecidableEq, Repr

/-- The fault as it is shown to the user. -/
def Fault.message : Fault → String
  | .lexical fault => fault.message
  | .unexpectedComma => "Unexpected ,"
  | .unexpectedToken text => s!"Unexpected token: {text}"
  | .unexpectedNumber text => s!"Unexpected number: {text}"
  | .unexpectedDedent => "Unexpected dedent"
  | .unexpectedEnd => "Unexpected end of file"
  | .notText argument => s!"{argument} argument must be a string"

/-- A fault and its line. -/
structure ScanFailure where
  fault : Fault
  line : Nat
  deriving DecidableEq, Repr

/-- What the tokens of an open call are read as: parts of its arguments, what follows a name, or the
inside of nested brackets. -/
inductive CallPhase where
  | arguments
  | afterName (name : String) (line : Nat)
  | nested (opener closer : String) (depth : Nat)
  deriving DecidableEq, Repr

/-- A call whose closing parenthesis is not reached yet. `pendingName` is a name with an equals sign
whose value is to come. -/
structure Call where
  function : String
  line : Nat
  arguments : List Argument := []
  pendingName : Option String := none
  inArgument : Bool := false
  inString : Bool := false
  phase : CallPhase := .arguments
  deriving DecidableEq, Repr

/-- A call that goes on, or is closed. -/
inductive CallStep where
  | more (call : Call)
  | closed (call : Call)
  deriving DecidableEq, Repr

namespace Call

/-- Adds an argument, under the name that waits for a value. -/
def addArgument (c : Call) (value : Value) : Call :=
  { c with arguments := c.arguments ++ [⟨c.pendingName, value⟩], pendingName := none }

/-- Adds a string literal: to the argument before it if that is a string, else as a new argument. -/
def addString (c : Call) (literal : String) : Call :=
  let value := Value.ofLiteral literal
  match c.inString, c.arguments.getLast? with
  | true, some last =>
    { c with
      arguments := c.arguments.dropLast ++ [{ last with value := last.value.append value }] }
  | _, _ => { c.addArgument value with inArgument := true, inString := true }

/-- The bracket that closes another. -/
def closerOf (opener : String) : String :=
  if opener = "(" then ")" else if opener = "[" then "]" else "\x7d"

/-- Begins nested brackets. -/
def enter (c : Call) (opener : String) : Call :=
  { c with phase := .nested opener (closerOf opener) 1 }

/-- Takes an operator between the parts of the arguments. -/
def takeOperator (c : Call) (op : String) : Except Fault CallStep :=
  let c := { c with inString := false }
  if op = ")" then .ok (.closed c)
  else if op = "," then
    if c.inArgument then .ok (.more { c with inArgument := false }) else .error .unexpectedComma
  else if op = "(" ∨ op = "[" ∨ op = "\x7b" then
    .ok (.more ({ c with inArgument := true }.enter op))
  else if op = "." then .ok (.more c)
  else .error (.unexpectedToken op)

/-- Takes a token as a part of the arguments. -/
def takePart (c : Call) (t : Token) : Except Fault CallStep :=
  match t.kind with
  | .operator => c.takeOperator t.text
  | .string => .ok (.more (c.addString t.text))
  | .number =>
    if c.inArgument then .error (.unexpectedNumber t.text)
    else
      .ok (.more { c.addArgument (.number t.text) with inArgument := true, inString := false })
  | .name =>
    .ok (.more { c with inArgument := true, inString := false, phase := .afterName t.text t.line })
  | _ => .error (.unexpectedToken t.text)

/-- Takes a token inside of nested brackets. Only brackets of the same kind count. -/
def takeNested (c : Call) (opener closer : String) (depth : Nat) (t : Token) : Except Fault Call :=
  if t.kind = .dedent then .error .unexpectedDedent
  else if t.isOperator opener then .ok { c with phase := .nested opener closer (depth + 1) }
  else if t.isOperator closer then
    if depth ≤ 1 then .ok ({ c with phase := .arguments }.addArgument .dynamic)
    else .ok { c with phase := .nested opener closer (depth - 1) }
  else .ok c

/-- The call when something else follows a name: it is a value of its own unless a dot follows. -/
def endName (c : Call) (t : Token) : Call :=
  let c := { c with phase := .arguments }
  if t.isOperator "." then c else c.addArgument .dynamic

/-- Takes the next token that is neither layout nor a comment. -/
def take (c : Call) (t : Token) : Except ScanFailure CallStep :=
  let located (line : Nat) (r : Except Fault CallStep) := r.mapError (⟨·, line⟩)
  match c.phase with
  | .nested opener closer depth =>
    located t.line ((c.takeNested opener closer depth t).map .more)
  | .arguments => located t.line (c.takePart t)
  | .afterName name line =>
    if t.isOperator "(" || t.isOperator "[" then .ok (.more (c.enter t.text))
    else if t.isOperator "=" then
      match c.pendingName with
      | some _ => .error ⟨.unexpectedToken name, line⟩
      | none => .ok (.more { c with pendingName := some name, phase := .arguments })
    else located t.line ((c.endName t).takePart t)

/-- The values of the arguments that are given by position. -/
def positional (c : Call) : List Value :=
  (c.arguments.filter fun a => a.name.isNone).map Argument.value

/-- The text of the last argument given by `name`. -/
def named? (c : Call) (name : String) : Option String :=
  (c.arguments.reverse.find? fun a => a.name == some name).bind fun a => a.value.text?

end Call

end PotExtract.Python
