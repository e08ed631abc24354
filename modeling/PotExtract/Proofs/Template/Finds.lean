import PotExtract.Template.Scan

/-! What is found in a tree, told by recursion over it: the messages of translated elements and
attributes, and the code. The text of a translated element is put together from the nodes directly
inside of it, and nothing is kept on the way from node to node but the text of the sentence in front.
-/

namespace PotExtract.Template

open Text Markup

/-! ### Sentences -/

/-- What a node adds to the sentence around it. -/
def nodeText (f : Frame) : Node → List Char
  | .text text _ => text.toList
  | .element tag _ => (elementText f tag).toList
  | _ => []

/-- The text of the nodes inside of a translated element. -/
def sentence (f : Frame) (children : List Node) : String :=
  String.ofList (normalize (children.flatMap (nodeText f)))

/-- The translated elements with names among the nodes inside of a translated element, with their
texts. -/
def namedSentences (f : Frame) (children : List Node) : List (String × String) :=
  children.filterMap fun
    | .element tag nested =>
      let inner := f.enter tag
      match inner.mark? tag "translate", inner.filledMark? tag "name" with
      | some _, some name => some (name, sentence inner nested)
      | _, _ => none
    | _ => none

/-- A translated element. `around` is the text of the sentence it is directly part of, up to its own
placeholder. -/
structure Translated where
  frame : Frame
  tag : Tag
  children : List Node
  msgid : String
  around : Option (List Char)

/-- The id of the message and the text it stands for by default: the given id, or the text itself.
-/
def Translated.idAndDefault (t : Translated) : String × String :=
  let text := sentence t.frame t.children
  if (trimmed t.msgid).isEmpty then (text, "") else (trimmed t.msgid, text)

/-- The notes on a message: the comment in force, the default text, the named elements in it and
the sentence it is part of. -/
def Translated.comment (t : Translated) : String :=
  let default := t.idAndDefault.2
  joinComments (t.frame.scope.comment.toList ++
    (if default.isEmpty then [] else [s!"Default: {default}"]) ++
    (namedSentences t.frame t.children).map (fun (name, text) =>
      s!"Canonical text for {placeholder name} is: \"{text}\"") ++
    (t.around.map fun text =>
      s!"Used in sentence: \"{String.ofList (normalize text)}\"").toList)

/-- The message of a translated element, unless there is nothing to translate, no domain, or another
domain than the wanted one. -/
def Translated.message? (t : Translated) (file : String) (target : Option String) :
    Option Message :=
  let (id, _) := t.idAndDefault
  match t.frame.scope.domain with
  | none => none
  | some domain =>
    if (trimmed t.msgid).isEmpty && isDynamic (sentence t.frame t.children) then none
    else if id.isEmpty || target.any (· != domain) then none
    else some {
      domain := some domain
      context := t.frame.scope.context
      id := id
      comment := t.comment
      location := ⟨file, t.tag.line⟩ }

/-! ### Finds -/

/-- What is found at some point of a template: a message, code on a line, or a problem. -/
inductive Find where
  | message (m : Message)
  | code (code : String) (line : Nat)
  | problem (e : ScanError)

/-- What is found in an attribute. -/
def attributeFinds (ctx : ScanContext) (a : ResolvedAttribute) : List Find :=
  match attributeCode ctx a (decodeEntities a.value.toList) with
  | .ok codes => codes.map (.code · a.line)
  | .error e => [.problem e]

/-- What is found in text. Code in text is Python unless it names another engine. -/
def textFinds (ctx : ScanContext) (text : String) (line : Nat) : List Find :=
  let decoded := decodeEntities text.toList
  match Tales.interpolations .python decoded with
  | .ok found => found.map fun i => .code i.code (line + lineFeedsBefore i.offset decoded)
  | .error fragment => [.problem (.expression ctx.file line fragment)]

/-- What is found at the start of an element. The frame is the one inside of it. -/
def tagFinds (ctx : ScanContext) (inner : Frame) (tag : Tag) : List Find :=
  (attributeMessages ctx inner tag).map .message ++
    (inner.resolve tag).flatMap (attributeFinds ctx)

/-- What is found at the end of an element. -/
def endFinds (ctx : ScanContext) (inner : Frame) (tag : Tag) (children : List Node)
    (around : Option (List Char)) : List Find :=
  match inner.mark? tag "translate" with
  | none => []
  | some msgid =>
    let translated : Translated := { frame := inner, tag, children, msgid, around }
    ((translated.message? ctx.file ctx.options.domain).map Find.message).toList

mutual

/-- What is found in a node. `around` is the text of the sentence that it is directly part of, up to
and including what it adds. -/
def nodeFinds (ctx : ScanContext) (f : Frame) (around : Option (List Char)) : Node → List Find
  | .element tag children =>
    let inner := f.enter tag
    let inside := (inner.mark? tag "translate").map fun _ => []
    tagFinds ctx inner tag ++ nodesFinds ctx inner inside children ++
      endFinds ctx inner tag children around
  | .text text line => textFinds ctx text line
  | _ => []

/-- What is found in nodes in a row. `before` is the text of the sentence that they are directly
part of, in front of them. -/
def nodesFinds (ctx : ScanContext) (f : Frame) (before : Option (List Char)) :
    List Node → List Find
  | [] => []
  | node :: rest =>
    let around := before.map (· ++ nodeText f node)
    nodeFinds ctx f around node ++ nodesFinds ctx f around rest

end

/-- The messages of finds in order, up to the first problem. -/
def collect (ctx : ScanContext) : List Find → ScanReport
  | [] => { outcome := .ok [] }
  | .problem e :: _ => { outcome := .error e }
  | .message m :: rest =>
    let later := collect ctx rest
    { later with outcome := later.outcome.map (m :: ·) }
  | .code code line :: rest =>
    match scanCode ctx code line with
    | (remarks, .error e) => ⟨remarks, .error e⟩
    | (remarks, .ok messages) =>
      let later := collect ctx rest
      ⟨remarks ++ later.remarks, later.outcome.map (messages ++ ·)⟩

end PotExtract.Template
