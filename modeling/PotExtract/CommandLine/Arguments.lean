import PotExtract.Disk
import PotExtract.Log

/-! Arguments of a command line: options by a long or a short name, some with a value, and operands.
Behind two dashes everything is an operand. A program is run with them and gives a result. -/

namespace PotExtract.CommandLine

/-- Whether an option has a value. An optional one is empty where it is left out. -/
inductive Arity where
  | flag
  | value
  | optionalValue
  deriving DecidableEq, Repr

/-- A named option. One that is not repeatable comes at most once, and a value has to be accepted.
-/
structure Switch where
  long : String
  short : Option Char := none
  arity : Arity := .flag
  repeatable : Bool := false
  accepts : String → Bool := fun _ => true
  about : String

/-- The options of a program, and which operands it takes. -/
structure Grammar where
  program : String
  operand : String
  options : List Switch
  acceptsOperand : String → Bool := fun _ => true

/-- What is wrong with a command line. -/
inductive UsageError where
  | unknownOption (argument : String)
  | missingValue (option : String)
  | unexpectedValue (option : String)
  | badValue (name value : String)
  | repeated (option : String)
  | conflict (option other : String)
  | missingOperand (name : String)
  deriving DecidableEq, Repr

/-- The error as it is shown to the user. -/
def UsageError.message : UsageError → String
  | .unknownOption argument => s!"error: unexpected argument '{argument}' found"
  | .missingValue option => s!"error: a value is required for '--{option}' but none was supplied"
  | .unexpectedValue option => s!"error: unexpected value for '--{option}' found"
  | .badValue name value => s!"error: invalid value '{value}' for '{name}'"
  | .repeated option => s!"error: the argument '--{option}' cannot be used multiple times"
  | .conflict option other =>
    s!"error: the argument '--{option}' cannot be used with '--{other}'"
  | .missingOperand name =>
    s!"error: the following required arguments were not provided: {name}"

/-- Why the arguments are not read to their end. -/
inductive Stop where
  | help
  | version
  | usage (error : UsageError)
  deriving DecidableEq, Repr

/-- A word of a command line: an option by its long name, or an operand. -/
inductive Word where
  | option (long value : String)
  | operand (text : String)
  deriving DecidableEq, Repr

/-- The options that every program has. -/
def standardOptions : List Switch :=
  [{ long := "help", short := some 'h', about := "Print help" },
    { long := "version", short := some 'V', about := "Print version" }]

namespace Grammar

/-- All options of a program. -/
def allOptions (g : Grammar) : List Switch :=
  g.options ++ standardOptions

/-- The option with a long name. -/
def long? (g : Grammar) (name : String) : Option Switch :=
  g.allOptions.find? (·.long == name)

/-- The option with a short name. -/
def short? (g : Grammar) (c : Char) : Option Switch :=
  g.allOptions.find? (·.short == some c)

end Grammar

/-- Whether an argument is an option and not a value. -/
def looksLikeOption (argument : String) : Bool :=
  match argument.toList with
  | '-' :: _ :: _ => true
  | _ => false

/-- The words read so far, and the option that waits for its value. -/
structure Reading where
  words : List Word := []
  waiting : Option Switch := none

namespace Reading

/-- Whether an option was read. -/
def has (r : Reading) (long : String) : Bool :=
  r.words.any fun w =>
    match w with
    | .option other _ => other == long
    | .operand _ => false

/-- Takes an option with its value. -/
def take (r : Reading) (o : Switch) (value : String) : Except Stop Reading :=
  if o.long = "help" then .error .help
  else if o.long = "version" then .error .version
  else if r.has o.long && !o.repeatable then .error (.usage (.repeated o.long))
  else if !o.accepts value then .error (.usage (.badValue ("--" ++ o.long) value))
  else .ok { words := r.words ++ [.option o.long value], waiting := none }

/-- Takes an operand. -/
def takeOperand (g : Grammar) (r : Reading) (text : String) : Except Stop Reading :=
  if g.acceptsOperand text then .ok { r with words := r.words ++ [.operand text] }
  else .error (.usage (.badValue g.operand text))

/-- Takes a long name, with the value that is attached to it. -/
def takeLong (g : Grammar) (r : Reading) (body : List Char) : Except Stop Reading :=
  let name := String.ofList (body.takeWhile (· != '='))
  match g.long? name, body.dropWhile (· != '=') with
  | none, _ => .error (.usage (.unknownOption ("--" ++ String.ofList body)))
  | some o, [] => if o.arity = .flag then r.take o "" else .ok { r with waiting := some o }
  | some o, _ :: value =>
    if o.arity = .flag then .error (.usage (.unexpectedValue o.long))
    else r.take o (String.ofList value)

/-- Takes short names behind one dash. What stands behind the name of an option with a value is its
value. -/
def takeShort (g : Grammar) (r : Reading) : List Char → Except Stop Reading
  | [] => .ok r
  | c :: rest =>
    match g.short? c with
    | none => .error (.usage (.unknownOption ("-" ++ c.toString)))
    | some o =>
      if o.arity = .flag then do takeShort g (← r.take o "") rest
      else
        match rest with
        | [] => .ok { r with waiting := some o }
        | '=' :: value => r.take o (String.ofList value)
        | value => r.take o (String.ofList value)

/-- Ends the wait for a value that does not come. -/
def settle (r : Reading) : Except Stop Reading :=
  match r.waiting with
  | none => .ok r
  | some o =>
    if o.arity = .optionalValue then r.take o "" else .error (.usage (.missingValue o.long))

/-- Takes an argument that is no value. -/
def takeArgument (g : Grammar) (r : Reading) (argument : String) : Except Stop Reading :=
  match argument.toList with
  | '-' :: '-' :: body => r.takeLong g body
  | '-' :: c :: rest => r.takeShort g (c :: rest)
  | _ => r.takeOperand g argument

/-- Reads arguments. -/
def readAll (g : Grammar) (r : Reading) : List String → Except Stop Reading
  | [] => r.settle
  | argument :: rest =>
    if argument = "--" then do
      rest.foldlM (takeOperand g) (← r.settle)
    else if looksLikeOption argument then do
      readAll g (← (← r.settle).takeArgument g argument) rest
    else
      match r.waiting with
      | some o => do readAll g (← r.take o argument) rest
      | none => do readAll g (← r.takeArgument g argument) rest

end Reading

/-- The words of a command line. -/
def Grammar.read (g : Grammar) (arguments : List String) : Except Stop (List Word) := do
  return (← Reading.readAll g {} arguments).words

/-! ### Words -/

/-- The operands. -/
def operands (words : List Word) : List String :=
  words.filterMap fun w =>
    match w with
    | .operand text => some text
    | .option _ _ => none

/-- The values of an option. -/
def values (words : List Word) (long : String) : List String :=
  words.filterMap fun w =>
    match w with
    | .option other value => if other = long then some value else none
    | .operand _ => none

/-- The value of an option that comes at most once. -/
def value? (words : List Word) (long : String) : Option String :=
  (values words long).head?

/-- Whether an option is given. -/
def given (words : List Word) (long : String) : Bool :=
  (value? words long).isSome

/-! ### Help -/

/-- An option with what it is for. -/
def Switch.help (o : Switch) : String :=
  let short :=
    match o.short with
    | some c => s!"-{c}, "
    | none => "    "
  s!"  {short}--{o.long}  {o.about}\n"

/-- The help of a program. -/
def Grammar.help (g : Grammar) : String :=
  s!"Usage: {g.program} [OPTIONS] {g.operand}\n\nOptions:\n" ++
    String.join (g.allOptions.map Switch.help)

/-! ### Results -/

/-- The version of the programs. -/
def version : String := "0.5.2"

/-- The result of running a program: its exit code, what it shows, and the disk it leaves. -/
structure Result where
  code : Nat
  console : Console
  disk : Disk

/-- The result of a command line that asks for no run. -/
def stopped (g : Grammar) (d : Disk) : Stop → Result
  | .help => ⟨0, { out := g.help }, d⟩
  | .version => ⟨0, { out := s!"{g.program} {version}\n" }, d⟩
  | .usage e => ⟨2, { err := e.message ++ "\n\nFor more information, try '--help'.\n" }, d⟩

/-- Whether a value can be a path. -/
def isPath (value : String) : Bool :=
  value != ""

end PotExtract.CommandLine
