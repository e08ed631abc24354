import PotExtract.Options
import PotExtract.Remark
import PotExtract.Comment.Collector
import PotExtract.Format.Printf
import PotExtract.Format.Placeholder
import PotExtract.Python.Lexer
import PotExtract.Python.Resolve

/-! Scanning Python source for messages. The scan steps through the tokens, collects the calls of
keywords and of the underscore, and turns each call into a message once it is closed. -/

namespace PotExtract.Python

/-- The function that is a keyword without being registered. -/
def underscore : String := "_"

/-- What a scan needs to know: its settings, the file, and the number of lines in front of the
source. -/
structure ScanContext where
  options : ScanOptions
  file : String
  offset : Nat
  deriving DecidableEq, Repr

/-- What the tokens are looked at for: the name of a function, the parenthesis behind one, or the
arguments of a call. -/
inductive ScanMode where
  | outside
  | named (function : String) (line : Nat)
  | inCall (call : Call)
  deriving DecidableEq, Repr

/-- The state of a scan. `lastLine` is the line of the call that gave the last message, counted
within the source. -/
structure ScanState where
  mode : ScanMode := .outside
  inDefinition : Bool := false
  comments : CommentCollector
  messages : List Message := []
  lastLine : Option Nat := none
  remarks : List Remark := []
  deriving DecidableEq, Repr

namespace ScanState

/-- The state at the start of a source. -/
def start (ctx : ScanContext) : ScanState :=
  { comments := { policy := ctx.options.comments } }

/-- A message with a note added to it. -/
def annotate (note : Note) (m : Message) : Message :=
  { m with
    comment := joinComments [m.comment, note.text]
    flags := addFlags m.flags note.flags }

/-- Takes a comment. -/
def takeComment (s : ScanState) (t : Token) : ScanState :=
  match s.comments.collect t.text t.line s.lastLine with
  | (comments, some (.previous note)) =>
    { s with
      comments := comments
      messages := s.messages.modify (s.messages.length - 1) (annotate note) }
  | (comments, _) => { s with comments := comments }

/-- The message of a call on `line`, the comment above it included. -/
def messageOf (ctx : ScanContext) (comments : CommentCollector) (line : Nat) (r : Resolved) :
    Message :=
  let note := (comments.forCall line).getD ⟨line, "", []⟩
  { domain := r.domain
    context := r.context
    id := r.id
    pluralId := r.pluralId
    flags := Format.checkPlaceholders r.id (Format.checkPrintf r.id (addFlags [] note.flags))
    comment := joinComments [r.comment, note.text]
    location := ⟨ctx.file, ctx.offset + line⟩ }

/-- Adds a remark on the call that starts on `line`. -/
def remark (s : ScanState) (ctx : ScanContext) (line : Nat) (oversight : Oversight) : ScanState :=
  { s with remarks := s.remarks ++ [⟨ctx.file, ctx.offset + line, oversight⟩] }

/-- Adds the message of a call, if it has an id and its domain is wanted. -/
def emit (s : ScanState) (ctx : ScanContext) (c : Call) (r : Resolved) : ScanState :=
  if r.id.isEmpty then s.remark ctx c.line (.emptyId c.function)
  else
    let message := messageOf ctx s.comments c.line r
    if message.matchesDomain ctx.options.domain then
      { s with messages := s.messages ++ [message], lastLine := some c.line }
    else s

/-- Resolves a closed call by its keyword, or as the underscore. -/
def resolve (ctx : ScanContext) (c : Call) : Except Fault Resolution :=
  match ctx.options.keywords.get? c.function with
  | some keyword => resolveKeyword keyword c
  | none => .ok (resolveUnderscore c)

/-- Takes a call that is closed. -/
def close (s : ScanState) (ctx : ScanContext) (c : Call) : Except ScanFailure ScanState :=
  match resolve ctx c with
  | .error fault => .error ⟨fault, c.line⟩
  | .ok (.wrongCount given expected) =>
    .ok (s.remark ctx c.line (.argumentCount c.function given expected))
  | .ok .noMessage => .ok s
  | .ok (.fields r) => .ok (s.emit ctx c r)

/-- Takes a token of an open call. -/
def takeInCall (s : ScanState) (ctx : ScanContext) (c : Call) (t : Token) :
    Except ScanFailure ScanState := do
  match ← c.take t with
  | .more c => return { s with mode := .inCall c }
  | .closed c => ({ s with mode := .outside } : ScanState).close ctx c

/-- Whether a token names a function whose calls are collected. -/
def startsCall (s : ScanState) (ctx : ScanContext) (t : Token) : Bool :=
  t.kind == .name && !s.inDefinition &&
    (ctx.options.keywords.contains t.text || t.text == underscore)

/-- Takes a token that is neither layout nor a comment. -/
def takeSignificant (s : ScanState) (ctx : ScanContext) (t : Token) :
    Except ScanFailure ScanState :=
  let s := { s with inDefinition := t.text == "def" || t.text == "class" }
  match s.mode with
  | .outside => .ok s
  | .named function line =>
    .ok { s with mode := if t.isOperator "(" then .inCall { function, line } else .outside }
  | .inCall c => s.takeInCall ctx c t

/-- The state once a name is not followed by anything that belongs to it. -/
def settleName (s : ScanState) (t : Token) : ScanState :=
  match s.mode with
  | .inCall c =>
    match c.phase with
    | .afterName _ _ => { s with mode := .inCall (c.endName t) }
    | _ => s
  | _ => s

/-- Whether the scan is inside of brackets nested in a call. -/
def isNested (s : ScanState) : Bool :=
  match s.mode with
  | .inCall c =>
    match c.phase with
    | .nested _ _ _ => true
    | _ => false
  | _ => false

/-- Takes the next token. -/
def take (s : ScanState) (ctx : ScanContext) (t : Token) : Except ScanFailure ScanState :=
  if s.isNested then s.takeSignificant ctx t
  else if t.kind = .comment then .ok ((s.settleName t).takeComment t)
  else if t.isLayout then .ok s
  else if s.mode = .outside ∧ s.startsCall ctx t then
    .ok { s with mode := .named t.text t.line, inDefinition := false }
  else s.takeSignificant ctx t

/-- Takes tokens in order, up to the first that is not understood. -/
def takeAll (ctx : ScanContext) : ScanState → List Token → ScanState × Option ScanFailure
  | s, [] => (s, none)
  | s, t :: ts =>
    match s.take ctx t with
    | .ok s => takeAll ctx s ts
    | .error e => (s, some e)

/-- What the end of the source on `line` means for a call that is still open. -/
def failureAtEnd (s : ScanState) (line : Nat) : Option ScanFailure :=
  match s.mode with
  | .inCall c => some ⟨.unexpectedEnd, if s.isNested then line else c.line⟩
  | _ => none

end ScanState

/-- The state in which a scan of `source` ends, and the failure that ended it, if any. -/
def scanTokens (ctx : ScanContext) (source : Lexed) : ScanState × Option ScanFailure :=
  match ScanState.takeAll ctx (.start ctx) source.tokens with
  | (s, some e) => (s, some e)
  | (s, none) =>
    match source.ending with
    | .ok line => (s, s.failureAtEnd line)
    | .error e => (s, some ⟨.lexical e.fault, e.line⟩)

/-- The messages of a source, or the failure with its line, and the remarks made on the way. The
lines count from the start of the file. -/
def scanWithRemarks (ctx : ScanContext) (source : String) :
    List Remark × Except ScanFailure (List Message) :=
  match scanTokens ctx (tokenize source) with
  | (s, none) => (s.remarks, .ok s.messages)
  | (s, some e) => (s.remarks, .error { e with line := ctx.offset + e.line })

/-- The messages of a source, or the failure with its line. -/
def scan (ctx : ScanContext) (source : String) : Except ScanFailure (List Message) :=
  (scanWithRemarks ctx source).2

end PotExtract.Python
