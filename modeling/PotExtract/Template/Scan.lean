import PotExtract.ScanError
import PotExtract.Markup.Entity
import PotExtract.Python.Scan
import PotExtract.Tales.Define
import PotExtract.Tales.Interpolation
import PotExtract.Template.Sentence

/-! Scanning templates for messages. Translated elements and attributes give messages of their own.
Expressions in attributes and in text give code, which is scanned as Python where it calls the
underscore. The tree is walked over once, and the texts of translated elements are read on the way:
the message of an element is made when the walk leaves it. -/

namespace PotExtract.Template

open Text Markup

/-- What a scan of a template needs to know: its settings, the file, and the engine of expressions
that name none. -/
structure ScanContext where
  options : ScanOptions
  file : String
  engine : Tales.Engine

/-! ### Attributes -/

/-- One entry of the list of translated attributes: a name, which an id may follow. -/
def attributeEntry? (entry : List Char) : Option (String × Option String) :=
  match words entry with
  | [name] => some (String.ofList name, none)
  | [name, msgid] => some (String.ofList name, some (String.ofList msgid))
  | _ => none

/-- The attribute that an entry means: the first with that name behind its prefix. -/
def attributeNamed? (tag : Tag) (name : String) : Option Attribute :=
  tag.attributes.find? fun a => (QualifiedName.ofString a.name).localName == name

/-- The message of an entry of the list of translated attributes. -/
def entryMessage? (ctx : ScanContext) (scope : Scope) (tag : Tag) (entry : List Char) :
    Option Message := do
  let (name, msgid) ← attributeEntry? entry
  let a ← attributeNamed? tag name
  let id := msgid.getD a.value
  guard !id.isEmpty
  return {
    domain := scope.domain
    context := scope.context
    id := id
    comment := if msgid.isSome then s!"Default: {a.value}" else ""
    location := ⟨ctx.file, a.line⟩ }

/-- The messages of translated attributes. Under a wanted domain the scope must have that domain. -/
def attributeMessages (ctx : ScanContext) (f : Frame) (tag : Tag) : List Message :=
  match f.mark? tag "attributes" with
  | none => []
  | some entries =>
    if ctx.options.domain.isSome && f.scope.domain != ctx.options.domain then []
    else (entries.toList.splitOn ';').filterMap (entryMessage? ctx f.scope tag)

/-- Code that must be an expression. -/
def checked (ctx : ScanContext) (line : Nat) (code : String) : Except ScanError String :=
  if Python.isExpression code then .ok code else .error (.expression ctx.file line code)

/-- Code put between parentheses. -/
def parenthesized (code : String) : String :=
  "(" ++ code ++ ")"

/-- The bindings of an attribute. -/
def bindings (ctx : ScanContext) (line : Nat) (value : List Char) :
    Except ScanError (List Tales.Define) :=
  (Tales.Define.parseAll value).mapError fun clause => .parse ctx.file line (.badDefine clause)

/-- The Python code of an expression, each part in parentheses. -/
def wrappedParts (ctx : ScanContext) (expression : List Char) : List String :=
  (Tales.pythonParts expression ctx.engine).map parenthesized

/-- The code in an attribute whose value is `value` once its entities are decoded. -/
def attributeCode (ctx : ScanContext) (a : ResolvedAttribute) (value : List Char) :
    Except ScanError (List String) :=
  if a.namespaceName = some talNamespace then
    if a.localName = "content" ∨ a.localName = "replace" then
      (wrappedParts ctx (Tales.stripStructure value)).mapM (checked ctx a.line)
    else if a.localName = "define" then do
      let defines ← bindings ctx a.line value
      let parts := defines.map fun d => wrappedParts ctx d.expression.toList
      parts.flatten.mapM (checked ctx a.line)
    else if a.localName = "repeat" then do
      match ← bindings ctx a.line value with
      | [define] =>
        (Tales.pythonParts define.expression.toList ctx.engine).mapM (checked ctx a.line)
      | _ => .error (.parse ctx.file a.line (.badRepeat (String.ofList value)))
    else .ok []
  else
    match Tales.interpolations ctx.engine value with
    | .ok found => .ok (found.map (·.code))
    | .error fragment => .error (.expression ctx.file a.line fragment)

/-- Scans the code on a line. -/
def scanCode (ctx : ScanContext) (code : String) (line : Nat) :
    List Remark × Except ScanError (List Message) :=
  if Python.mayCallUnderscore code then
    match Python.scanWithRemarks ⟨ctx.options, ctx.file, line - 1⟩ code with
    | (remarks, .ok messages) => (remarks, .ok messages)
    | (remarks, .error e) => (remarks, .error (.parse ctx.file e.line (.python e.fault)))
  else ([], .ok [])

/-! ### The walk -/

/-- The state of a walk over a tree. The stacks have an item for each open element, the innermost
first, and one for what is around them all. -/
structure Walk where
  namespaces : List (List (String × String)) := [({} : Frame).namespaces]
  scopes : List Scope := [{}]
  /-- The sentences of the open elements that are translated. -/
  translate : List (Option Nat) := [none]
  /-- All sentences that have been begun. They are told apart by their places in this list. -/
  sentences : List Sentence := []
  messages : List Message := []
  remarks : List Remark := []

namespace Walk

/-- What is in force. -/
def frame (w : Walk) : Frame :=
  { namespaces := w.namespaces.headD [], scope := w.scopes.headD {} }

/-- The sentence that is read: that of the innermost open element, if it is translated. -/
def current? (w : Walk) : Option Nat :=
  w.translate.head?.join

/-- Adds a piece of text to the sentence that is read. -/
def read (w : Walk) (piece : String) : Walk :=
  match w.current? with
  | none => w
  | some i =>
    { w with sentences := w.sentences.modify i fun s => { s with pieces := s.pieces ++ [piece] } }

/-- Begins the sentence of a translated element. The sentence that is read refers to it if the
element has a name. -/
def beginSentence (w : Walk) (inner : Frame) (tag : Tag) (msgid : String) : Walk :=
  let own : Sentence := {
    scope := inner.scope
    msgid := if (trimmed msgid).isEmpty then none else some (trimmed msgid)
    parent := w.current?
    line := tag.line }
  let sentences := w.sentences ++ [own]
  match w.current?, inner.filledMark? tag "name" with
  | some i, some name =>
    { w with sentences := sentences.modify i fun s =>
        { s with named := s.named ++ [(name, w.sentences.length)] } }
  | _, _ => { w with sentences := sentences }

/-- Begins the sentence of an element if it is translated. -/
def openSentence (w : Walk) (inner : Frame) (tag : Tag) : Option Nat × Walk :=
  match inner.mark? tag "translate" with
  | none => (none, w)
  | some msgid => (some w.sentences.length, w.beginSentence inner tag msgid)

/-- The text of a sentence as far as it has been read. -/
def text (w : Walk) (i : Nat) : String :=
  (w.sentences[i]?.map Sentence.text).getD ""

/-- The notes on the message of a sentence: the comment in force, the default text, the named
elements in it and the sentence it is part of. -/
def comment (w : Walk) (s : Sentence) : String :=
  let default := s.idAndDefault.2
  joinComments (s.scope.comment.toList ++
    (if default.isEmpty then [] else [s!"Default: {default}"]) ++
    s.named.map (fun (name, i) => s!"Canonical text for {placeholder name} is: \"{w.text i}\"") ++
    (s.parent.map fun i => s!"Used in sentence: \"{w.text i}\"").toList)

/-- The message of a sentence, unless there is nothing to translate, no domain, or another domain
than the wanted one. -/
def message? (w : Walk) (ctx : ScanContext) (s : Sentence) : Option Message :=
  if s.isIgnorable then none
  else
    match s.scope.domain with
    | none => none
    | some domain =>
      let (id, _) := s.idAndDefault
      if ctx.options.domain.any (· != domain) || id.isEmpty then none
      else some {
        domain := some domain
        context := s.scope.context
        id := id
        comment := w.comment s
        location := ⟨ctx.file, s.line⟩ }

/-- Ends a sentence. -/
def finish (w : Walk) (ctx : ScanContext) (i : Nat) : Walk :=
  { w with messages := w.messages ++ (w.sentences[i]?.bind (w.message? ctx)).toList }

end Walk

/-- A part of a walk. It changes the state, and ends the walk if it fails. -/
abbrev Visit :=
  EStateM ScanError Walk

/-- Scans the code on a line. -/
def visitCode (ctx : ScanContext) (code : String) (line : Nat) : Visit Unit := do
  let (remarks, outcome) := scanCode ctx code line
  modify fun w => { w with remarks := w.remarks ++ remarks }
  match outcome with
  | .ok messages => modify fun w => { w with messages := w.messages ++ messages }
  | .error e => throw e

/-- Scans the code in an attribute. -/
def visitAttribute (ctx : ScanContext) (a : ResolvedAttribute) : Visit Unit :=
  match attributeCode ctx a (decodeEntities a.value.toList) with
  | .ok codes => codes.forM fun code => visitCode ctx code a.line
  | .error e => throw e

/-- Scans text and reads it into the sentence around it. Code in text is Python unless it names
another engine. -/
def visitText (ctx : ScanContext) (text : String) (line : Nat) : Visit Unit := do
  let decoded := decodeEntities text.toList
  match Tales.interpolations .python decoded with
  | .ok found =>
    found.forM fun i => visitCode ctx i.code (line + lineFeedsBefore i.offset decoded)
    modify fun w => w.read text
  | .error fragment => throw (.expression ctx.file line fragment)

/-- Goes into an element. The result is its sentence. -/
def enterElement (ctx : ScanContext) (tag : Tag) : Visit (Option Nat) := do
  let outer := (← get).frame
  let inner := outer.enter tag
  modify fun w => { w with namespaces := inner.namespaces :: w.namespaces }
  modify fun w => w.read (elementText outer tag)
  let own ← modifyGet fun w => w.openSentence inner tag
  modify fun w => { w with messages := w.messages ++ attributeMessages ctx inner tag }
  (inner.resolve tag).forM (visitAttribute ctx)
  modify fun w => { w with scopes := inner.scope :: w.scopes, translate := own :: w.translate }
  return own

/-- Goes out of an element and ends its sentence. -/
def leaveElement (ctx : ScanContext) (own : Option Nat) : Visit Unit := do
  modify fun w =>
    { w with
      translate := w.translate.tail, scopes := w.scopes.tail, namespaces := w.namespaces.tail }
  match own with
  | none => return
  | some i => modify fun w => w.finish ctx i

mutual

/-- Goes over a node. -/
def visitNode (ctx : ScanContext) : Node → Visit Unit
  | .element tag children => do
    let own ← enterElement ctx tag
    visitNodes ctx children
    leaveElement ctx own
  | .text text line => visitText ctx text line
  | _ => return

/-- Goes over nodes in a row. -/
def visitNodes (ctx : ScanContext) : List Node → Visit Unit
  | [] => return
  | node :: rest => do
    visitNode ctx node
    visitNodes ctx rest

end

/-! ### Scanning -/

/-- The messages of a tree. -/
def scanNodes (ctx : ScanContext) (nodes : List Node) : ScanReport :=
  match (visitNodes ctx nodes).run {} with
  | .ok _ w => ⟨w.remarks, .ok w.messages⟩
  | .error e w => ⟨w.remarks, .error e⟩

/-- The messages of a template. -/
def scan (ctx : ScanContext) (source : List Char) : ScanReport :=
  let read := readTree source
  let strays := read.strayEnds.map fun (name, line) => ⟨ctx.file, line, .strayEndTag name⟩
  match read.outcome with
  | .error failure =>
    ⟨strays, .error (.parse ctx.file failure.line (.markup failure.fault))⟩
  | .ok nodes =>
    let report := scanNodes ctx nodes
    { report with remarks := strays ++ report.remarks }

end PotExtract.Template
