import PotExtract.Text.Blank
import PotExtract.Python.Lexer

/-! Telling expressions from other text by their tokens. The tokens must be read to the end,
brackets must match, there must be no statement and no assignment outside of brackets, and no two
operands may stand side by side except strings. The tokens are taken in order, and the reading ends
with the first one that no expression goes on with. -/

namespace PotExtract.Python

/-- The words that only begin statements. -/
def statementWords : List String :=
  ["def", "class", "import", "return", "pass", "del", "global", "nonlocal", "while", "with", "try",
    "except", "finally", "raise", "assert", "break", "continue", "elif", "yield"]

/-- The words that stand between the operands of an expression. -/
def expressionWords : List String :=
  ["if", "else", "for", "in", "not", "and", "or", "is", "lambda", "await", "from", "as", "async"]

/-- The operators that no expression starts with. -/
def neverFirst : List String :=
  [")", "]", "\x7d", ",", "/", "//", "%", "=", "==", "!=", "<", ">", "<=", ">=", "|", "&", "^",
    "<<", ">>", ".", ":", ";", "+=", "-=", "*=", "/=", "->", ":=", "@"]

/-- The operators that no expression ends with. -/
def neverLast : List String :=
  ["+", "-", "*", "/", "//", "%", "**", "=", "==", "!=", "<", ">", "<=", ">=", "|", "&", "^", "~",
    "<<", ">>", ".", "(", "[", "\x7b", ":", ";", "@", "->", ":="]

namespace Token

/-- Whether the token is a value on its own. -/
def isOperand (t : Token) : Bool :=
  match t.kind with
  | .name => !(expressionWords.contains t.text || statementWords.contains t.text)
  | .number | .string => true
  | _ => false

/-- Whether the token closes a bracket. -/
def isCloser (t : Token) : Bool :=
  t.isOperator ")" || t.isOperator "]" || t.isOperator "\x7d"

/-- Whether the token may stand first. -/
def mayBeFirst (t : Token) : Bool :=
  !(t.kind == .operator && neverFirst.contains t.text)

/-- Whether the token may stand last. -/
def mayBeLast (t : Token) : Bool :=
  !(t.kind == .operator && neverLast.contains t.text) &&
    !(t.kind == .name && expressionWords.contains t.text)

/-- Whether `t` may follow `s` directly. -/
def mayPrecede (s t : Token) : Bool :=
  !((s.isOperand || s.isCloser) && t.isOperand) || (s.kind == .string && t.kind == .string)

/-- Whether the token tells that the text is no expression. -/
def isForeign (t : Token) : Bool :=
  match t.kind with
  | .stray | .indent | .dedent => true
  | _ => false

/-- Whether the token counts in an expression: not comments and line ends. -/
def counts (t : Token) : Bool :=
  match t.kind with
  | .comment | .newline | .lineBreak => false
  | _ => true

end Token

/-- What the tokens read so far tell of those to come: the brackets to be closed, innermost first, and
the last token that counts. -/
structure Beginning where
  closers : List String := []
  last : Option Token := none
  deriving DecidableEq, Repr

namespace Beginning

/-- Whether a token may stand behind the last one. -/
def mayGoOn (b : Beginning) (t : Token) : Bool :=
  match b.last with
  | none => t.mayBeFirst
  | some s => s.mayPrecede t

/-- The brackets to be closed behind a token, unless it closes another one, or starts a statement or
an assignment outside of brackets. -/
def closersBehind? (closers : List String) (t : Token) : Option (List String) :=
  if t.isOperator "(" then some (")" :: closers)
  else if t.isOperator "[" then some ("]" :: closers)
  else if t.isOperator "\x7b" then some ("\x7d" :: closers)
  else if t.isCloser then
    match closers with
    | closer :: closers => if t.text = closer then some closers else none
    | [] => none
  else if closers.isEmpty && (t.isOperator "=" || t.isOperator ";" ||
      (t.kind == .name && statementWords.contains t.text)) then none
  else some closers

/-- The beginning with one more token, unless no expression begins so. -/
def take? (b : Beginning) (t : Token) : Option Beginning :=
  if t.isForeign then none
  else if !t.counts then some b
  else if b.mayGoOn t then
    (closersBehind? b.closers t).map fun closers => { closers, last := some t }
  else none

/-- Whether the beginning is a whole expression. -/
def isWhole (b : Beginning) : Bool :=
  b.closers.isEmpty && b.last.any Token.mayBeLast

end Beginning

/-- Whether tokens are those of an expression. -/
def areExpression (tokens : List Token) : Bool :=
  (tokens.foldlM Beginning.take? {}).any Beginning.isWhole

/-- Whether a text is an expression. -/
def isExpression (code : String) : Bool :=
  (Cursor.foldTokens? Beginning.take? {} { rest := Text.trim code.toList }).any Beginning.isWhole

/-- An expression is read to the end, and its tokens are those of one. -/
theorem isExpression_eq (code : String) :
    isExpression code =
      ((tokenize (trimmed code)).ending.isOk && areExpression (tokenize (trimmed code)).tokens) := by
  unfold isExpression areExpression tokenize trimmed
  rw [Cursor.foldTokens?_eq, String.toList_ofList]
  split <;> simp_all

/-- Whether a call of the underscore starts in the text, and a closing parenthesis follows. The
underscore must stand at the start of a word, `atBoundary` telling whether the text does. -/
def hasCallFrom (atBoundary : Bool) : List Char → Bool
  | '_' :: '(' :: s => (atBoundary && s.contains ')') || hasCallFrom false ('(' :: s)
  | c :: s => hasCallFrom (!Text.isWordChar c) s
  | [] => false

/-- Whether a text may call the underscore. -/
def mayCallUnderscore (code : String) : Bool :=
  hasCallFrom true code.toList

end PotExtract.Python
