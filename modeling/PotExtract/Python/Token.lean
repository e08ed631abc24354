/-! Tokens of Python source: names, numbers, strings, operators, comments, line ends and changes of
indentation. -/

namespace PotExtract.Python

/-- The kinds of tokens. A newline ends a statement, a line break does not. A stray token is a
character, or the start of an unclosed string, that begins no other token. -/
inductive TokenKind where
  | name
  | number
  | string
  | operator
  | comment
  | newline
  | lineBreak
  | indent
  | dedent
  | stray
  | endMarker
  deriving DecidableEq, Repr

/-- A token with the line on which it starts. -/
structure Token where
  kind : TokenKind
  text : String
  line : Nat
  deriving DecidableEq, Repr

namespace Token

/-- Whether the token is the operator `op`. -/
def isOperator (t : Token) (op : String) : Bool :=
  t.kind == .operator && t.text == op

/-- Whether the token only lays out the text: line ends and changes of indentation. -/
def isLayout (t : Token) : Bool :=
  match t.kind with
  | .newline | .lineBreak | .indent | .dedent => true
  | _ => false

/-- The token that ends a text. -/
def endMarker (line : Nat) : Token :=
  ⟨.endMarker, "", line⟩

end Token

/-- Why a text has no tokens beyond some point. -/
inductive LexFault where
  | openString
  | openBracket
  | badDedent
  deriving DecidableEq, Repr

/-- The fault as it is shown to the user. -/
def LexFault.message : LexFault → String
  | .openString => "EOF in multi-line string"
  | .openBracket => "EOF in multi-line statement"
  | .badDedent => "unindent does not match any outer indentation level"

/-- A fault and its line. -/
structure LexError where
  fault : LexFault
  line : Nat
  deriving DecidableEq, Repr

/-- The error with its line in front. -/
def LexError.message (e : LexError) : String :=
  s!"line {e.line}: {e.fault.message}"

/-- The tokens of a text in order. They end with the line of the end marker, or with the error that
stopped the reading. -/
structure Lexed where
  tokens : List Token
  ending : Except LexError Nat

end PotExtract.Python
