import PotExtract.Proofs.Markup.TreeParts
import PotExtract.Proofs.Outcome
import PotExtract.Proofs.Template.Scoping
import PotExtract.Proofs.Template.Walk

/-! The messages of a template around one of its elements: those in front of it, those of its
translated attributes, of the code in its attributes and of what is inside of it, then its own, and
those behind it. Which domain, context and comment its messages have depends on the tags of the
element and of those around it alone. -/

namespace PotExtract.Template

open Text Markup

/-! ### Places in a tree -/

/-- An element, without its content, and the nodes beside it. -/
structure Level where
  before : List Node
  tag : Tag
  after : List Node

/-- The tree in which a row of nodes is the content of the first of some elements, each of which is
in the next one. -/
def plug : List Level → List Node → List Node
  | [], nodes => nodes
  | level :: outer, nodes => plug outer (level.before ++ .element level.tag nodes :: level.after)

theorem plug_append (inner outer : List Level) (nodes : List Node) :
    plug (inner ++ outer) nodes = plug outer (plug inner nodes) := by
  induction inner generalizing nodes with
  | nil => rfl
  | cons level inner ih => exact ih _

mutual

theorem exists_plug_of_mem_parts (node : Node) {tag : Tag} (h : .tag tag ∈ node.parts)
    (before after : List Node) : ∃ level outer children,
      level.tag = tag ∧ plug (level :: outer) children = before ++ node :: after := by
  cases node with
  | element own content =>
    rcases List.mem_cons.1 h with hown | h
    · cases hown
      exact ⟨⟨before, tag, after⟩, [], content, rfl, rfl⟩
    · obtain ⟨level, outer, children, htag, hcontent⟩ := exists_plug_of_mem_partsOf content h []
      refine ⟨level, outer ++ [⟨before, own, after⟩], children, htag, ?_⟩
      rw [← List.cons_append, plug_append, hcontent]
      rfl
  | text => cases List.mem_singleton.1 h
  | _ => cases h

/-- Every element is at a place in the tree. -/
theorem exists_plug_of_mem_partsOf (nodes : List Node) {tag : Tag}
    (h : .tag tag ∈ Node.partsOf nodes) (before : List Node) : ∃ level outer children,
      level.tag = tag ∧ plug (level :: outer) children = before ++ nodes := by
  cases nodes with
  | nil => cases h
  | cons node rest =>
    rcases List.mem_append.1 h with h | h
    · exact exists_plug_of_mem_parts node h before rest
    · rw [List.append_cons]
      exact exists_plug_of_mem_partsOf rest h (before ++ [node])

end

/-- The tags of elements, innermost first. -/
def path (levels : List Level) : List Tag :=
  levels.map (·.tag)

/-- What is in force inside of the innermost element. -/
def frameIn (levels : List Level) : Frame :=
  .along (path levels)

theorem isAt_frameIn (levels : List Level) : (frameIn levels).IsAt (path levels) :=
  Frame.isAt_along (path levels)

/-- The text of the sentence at the start of a row, if the element around it is translated. -/
def sentenceStart : List Level → Option (List Char)
  | [] => none
  | level :: outer => ((frameIn (level :: outer)).mark? level.tag "translate").map fun _ => []

/-- The text of the sentence that an element is directly part of, up to its own placeholder. -/
def Level.around (level : Level) (outer : List Level) : Option (List Char) :=
  (sentenceStart outer).map fun _ =>
    (level.before ++ [Node.element level.tag []]).flatMap (nodeText (frameIn outer))

/-! ### What is found around a place -/

/-- The message of a translated element. -/
def translation? (ctx : ScanContext) (inner : Frame) (tag : Tag) (children : List Node)
    (around : Option (List Char)) : Option Message :=
  (inner.mark? tag "translate").bind fun msgid =>
    Translated.message? { frame := inner, tag, children, msgid, around } ctx.file
      ctx.options.domain

theorem endFinds_eq (ctx : ScanContext) (inner : Frame) (tag : Tag) (children : List Node)
    (around : Option (List Char)) :
    endFinds ctx inner tag children around =
      (translation? ctx inner tag children around).toList.map .message := by
  unfold endFinds translation?
  split
  · next hmark => rw [hmark]; rfl
  · next msgid hmark => rw [hmark, Option.bind_some, Option.toList_map]

variable {ctx : ScanContext} {level : Level} {outer : List Level} {children : List Node}

theorem nodesFinds_append (f : Frame) (before : Option (List Char)) (nodes more : List Node) :
    nodesFinds ctx f before (nodes ++ more) = nodesFinds ctx f before nodes ++
      nodesFinds ctx f (before.map (· ++ nodes.flatMap (nodeText f))) more := by
  induction nodes generalizing before with
  | nil => cases before <;> simp [nodesFinds]
  | cons node nodes ih =>
    simp only [List.cons_append, nodesFinds, ih, Option.map_map, Function.comp_def,
      List.flatMap_cons, List.append_assoc]

/-- What is found in front of the row inside of the innermost element. -/
def findsBefore (ctx : ScanContext) : List Level → List Find
  | [] => []
  | level :: outer =>
    findsBefore ctx outer ++ nodesFinds ctx (frameIn outer) (sentenceStart outer) level.before ++
      tagFinds ctx (frameIn (level :: outer)) level.tag

/-- What is found behind the row inside of the innermost element. -/
def findsBehind (ctx : ScanContext) : List Level → List Node → List Find
  | [], _ => []
  | level :: outer, children =>
    endFinds ctx (frameIn (level :: outer)) level.tag children (level.around outer) ++
      nodesFinds ctx (frameIn outer) (level.around outer) level.after ++
      findsBehind ctx outer (level.before ++ .element level.tag children :: level.after)

theorem nodeFinds_element (around : Option (List Char)) :
    nodeFinds ctx (frameIn outer) around (.element level.tag children) =
      tagFinds ctx (frameIn (level :: outer)) level.tag ++
        nodesFinds ctx (frameIn (level :: outer)) (sentenceStart (level :: outer)) children ++
        endFinds ctx (frameIn (level :: outer)) level.tag children around := by
  rw [nodeFinds]
  rfl

theorem around_of_before (level : Level) (outer : List Level) (children : List Node) :
    ((sentenceStart outer).map (· ++ level.before.flatMap (nodeText (frameIn outer)))).map
      (· ++ nodeText (frameIn outer) (.element level.tag children)) = level.around outer := by
  unfold Level.around
  cases outer with
  | nil => rfl
  | cons next outer => simp [sentenceStart, nodeText, Function.comp_def]

theorem nodesFinds_level (level : Level) (outer : List Level) (children : List Node) :
    nodesFinds ctx (frameIn outer) (sentenceStart outer)
        (level.before ++ .element level.tag children :: level.after) =
      nodesFinds ctx (frameIn outer) (sentenceStart outer) level.before ++
        (nodeFinds ctx (frameIn outer) (level.around outer) (.element level.tag children) ++
          nodesFinds ctx (frameIn outer) (level.around outer) level.after) := by
  rw [nodesFinds_append, nodesFinds, around_of_before]

/-- A tree is scanned from the outside to the inside of an element and out again. -/
theorem nodesFinds_plug (levels : List Level) (nodes : List Node) :
    nodesFinds ctx {} none (plug levels nodes) = findsBefore ctx levels ++
      nodesFinds ctx (frameIn levels) (sentenceStart levels) nodes ++
      findsBehind ctx levels nodes := by
  induction levels generalizing nodes with
  | nil => exact (List.append_nil _).symm
  | cons level outer ih =>
    -- The row with the innermost element is the content of the next one.
    rw [plug, ih, nodesFinds_level, nodeFinds_element, findsBefore, findsBehind]
    simp only [List.append_assoc]

/-! ### Collecting -/

/-- The finds have these messages and no problem. -/
def Collects (ctx : ScanContext) (finds : List Find) (messages : List Message) : Prop :=
  (collect ctx finds).outcome = .ok messages

theorem collects_append {finds more : List Find} {messages : List Message} :
    Collects ctx (finds ++ more) messages ↔ ∃ front back,
      Collects ctx finds front ∧ Collects ctx more back ∧ front ++ back = messages := by
  unfold Collects
  rw [collect_append, inARow]
  rcases collect ctx finds with ⟨_, e | front⟩
  · simp
  · rcases collect ctx more with ⟨_, e | back⟩ <;> simp [Except.map]

theorem collects_map_message {own messages : List Message} :
    Collects ctx (own.map .message) messages ↔ messages = own := by
  rw [Collects, collect_map_message, Except.ok.injEq, eq_comm]

/-! ### The messages around an element -/

/-- Messages in order: those in front of an element, of its translated attributes, of the code in its
attributes, of what is inside of it, its own, and those behind it. -/
structure Found where
  front : List Message
  attributes : List Message
  code : List Message
  inside : List Message
  translation : Option Message
  back : List Message

/-- All the messages in order. -/
def Found.messages (x : Found) : List Message :=
  x.front ++ (x.attributes ++ x.code ++ x.inside ++ x.translation.toList) ++ x.back

/-- The messages are those that a scan finds around an element and in it. -/
structure Found.IsAt (ctx : ScanContext) (level : Level) (outer : List Level)
    (children : List Node) (x : Found) : Prop where
  front : Collects ctx (findsBefore ctx outer ++
    nodesFinds ctx (frameIn outer) (sentenceStart outer) level.before) x.front
  attributes : x.attributes = attributeMessages ctx (frameIn (level :: outer)) level.tag
  code : Collects ctx (((frameIn (level :: outer)).resolve level.tag).flatMap
    (attributeFinds ctx)) x.code
  inside : Collects ctx (nodesFinds ctx (frameIn (level :: outer))
    (sentenceStart (level :: outer)) children) x.inside
  translation : x.translation =
    translation? ctx (frameIn (level :: outer)) level.tag children (level.around outer)
  back : Collects ctx (nodesFinds ctx (frameIn outer) (level.around outer) level.after ++
    findsBehind ctx outer (level.before ++ .element level.tag children :: level.after)) x.back

/-- The messages of an element are those of its attributes, of what is inside of it, and its own. -/
theorem exists_own {around : Option (List Char)} {own : List Message}
    (h : Collects ctx (nodeFinds ctx (frameIn outer) around (.element level.tag children)) own) :
    ∃ code inside,
      own = attributeMessages ctx (frameIn (level :: outer)) level.tag ++ code ++ inside ++
        (translation? ctx (frameIn (level :: outer)) level.tag children around).toList ∧
      Collects ctx (((frameIn (level :: outer)).resolve level.tag).flatMap
        (attributeFinds ctx)) code ∧
      Collects ctx (nodesFinds ctx (frameIn (level :: outer)) (sentenceStart (level :: outer))
        children) inside := by
  rw [nodeFinds_element, endFinds_eq] at h
  obtain ⟨_, own, htagInside, hown, rfl⟩ := collects_append.1 h
  obtain ⟨_, inside, htag, hinside, rfl⟩ := collects_append.1 htagInside
  obtain ⟨attributes, code, hattributes, hcode, rfl⟩ := collects_append.1 htag
  obtain rfl := collects_map_message.1 hown
  obtain rfl := collects_map_message.1 hattributes
  exact ⟨code, inside, rfl, hcode, hinside⟩

theorem exists_found {messages : List Message}
    (h : (scanNodes ctx (plug (level :: outer) children)).outcome = .ok messages) :
    ∃ x : Found, x.IsAt ctx level outer children ∧ messages = x.messages := by
  have hfinds : Collects ctx (nodesFinds ctx {} none (plug (level :: outer) children)) messages := by
    rwa [scanNodes_eq_collect] at h
  rw [plug, nodesFinds_plug, nodesFinds_level] at hfinds
  have hsplit : Collects ctx ((findsBefore ctx outer ++
      nodesFinds ctx (frameIn outer) (sentenceStart outer) level.before) ++
      nodeFinds ctx (frameIn outer) (level.around outer) (.element level.tag children) ++
      (nodesFinds ctx (frameIn outer) (level.around outer) level.after ++
        findsBehind ctx outer (level.before ++ .element level.tag children :: level.after)))
      messages := by
    simpa only [List.append_assoc] using hfinds
  obtain ⟨_, back, hupTo, hback, rfl⟩ := collects_append.1 hsplit
  obtain ⟨front, own, hfront, helement, rfl⟩ := collects_append.1 hupTo
  obtain ⟨code, inside, rfl, hcode, hinside⟩ := exists_own helement
  exact ⟨⟨front, _, code, inside, _, back⟩, ⟨hfront, rfl, hcode, hinside, rfl, hback⟩, rfl⟩

/-! ### The scope of messages -/

/-- The default text of a message as a note on it. There is none without a given id. -/
def defaultNotes (msgid text : String) : List String :=
  if (trimmed msgid).isEmpty || text.isEmpty then [] else [s!"Default: {text}"]

/-- The notes on a message that refer to others: to the named elements in it, and to the sentence it
is part of. -/
def Translated.crossNotes (t : Translated) : List String :=
  (namedSentences t.frame t.children).map (fun (name, text) =>
    s!"Canonical text for {placeholder name} is: \"{text}\"") ++
  (t.around.map fun text => s!"Used in sentence: \"{String.ofList (normalize text)}\"").toList

/-- The notes on a message behind the comment in force. -/
def Translated.notes (t : Translated) : List String :=
  defaultNotes t.msgid (sentence t.frame t.children) ++ t.crossNotes

theorem Translated.comment_eq (t : Translated) :
    t.comment = joinComments (t.frame.scope.comment.toList ++ t.notes) := by
  unfold comment notes defaultNotes crossNotes idAndDefault
  cases (trimmed t.msgid).isEmpty <;> simp [List.append_assoc]

theorem Translated.exists_of_message? {t : Translated} {file : String} {target : Option String}
    {m : Message} (h : t.message? file target = some m) :
    ∃ domain, t.frame.scope.domain = some domain ∧ m = {
      domain := some domain
      context := t.frame.scope.context
      id := t.idAndDefault.1
      comment := joinComments (t.frame.scope.comment.toList ++ t.notes)
      location := ⟨file, t.tag.line⟩ } := by
  rw [← comment_eq]
  unfold message? at h
  dsimp only at h
  split at h
  · cases h
  · next domain hdomain =>
    split at h
    · cases h
    · split at h
      · cases h
      · cases h
        exact ⟨domain, hdomain, rfl⟩

theorem scope_of_entryMessage? {scope : Scope} {tag : Tag} {entry : List Char} {m : Message}
    (h : entryMessage? ctx scope tag entry = some m) :
    m.domain = scope.domain ∧ m.context = scope.context := by
  obtain ⟨_, -, h⟩ := Option.bind_eq_some_iff.1 h
  obtain ⟨a, -, h⟩ := Option.bind_eq_some_iff.1 h
  obtain ⟨_, -, hm⟩ := Option.bind_eq_some_iff.1 h
  cases hm
  exact ⟨rfl, rfl⟩

theorem scope_of_mem_attributeMessages {f : Frame} {tag : Tag} {m : Message}
    (h : m ∈ attributeMessages ctx f tag) :
    m.domain = f.scope.domain ∧ m.context = f.scope.context := by
  unfold attributeMessages at h
  split at h
  · cases h
  · split at h
    · cases h
    · obtain ⟨entry, -, hm⟩ := List.mem_filterMap.1 h
      exact scope_of_entryMessage? hm

/-- Every element of a tree has the nearest scope. Prefixes and marks at it, the domain and context of
the messages of its translated attributes, and the domain, context and comment of its own message
are those of the path to it: nothing else in the tree matters to them. -/
theorem nearest_scope {nodes : List Node} {messages : List Message}
    (h : (scanNodes ctx nodes).outcome = .ok messages) :
    (∀ tag, .tag tag ∈ Node.partsOf nodes → ∃ level outer children,
      level.tag = tag ∧ plug (level :: outer) children = nodes) ∧
    ∀ level outer children, plug (level :: outer) children = nodes →
      let f := frameIn (level :: outer)
      let place := path (level :: outer)
      (∀ pre, f.lookup pre = namespaceAt place pre) ∧
      f.resolve level.tag = attributesAt place level.tag ∧ f.scope = scopeAt place ∧
      ∃ x : Found, x.IsAt ctx level outer children ∧ messages = x.messages ∧
        (∀ m ∈ x.attributes, m.domain = nearestMark "domain" place ∧
          m.context = nearestMark "context" place) ∧
        ∀ m ∈ x.translation, ∃ msgid, markAt "translate" place = some msgid ∧
          m.domain = nearestMark "domain" place ∧ m.context = nearestMark "context" place ∧
          m.comment = joinComments ((nearestMark "comment" place).toList ++
            Translated.notes ⟨f, level.tag, children, msgid, level.around outer⟩) := by
  refine ⟨fun tag htag => exists_plug_of_mem_partsOf nodes htag [], ?_⟩
  rintro level outer children rfl f place
  have hframe := isAt_frameIn (level :: outer)
  have hscope : (frameIn (level :: outer)).scope = scopeAt place := hframe.scope
  refine ⟨hframe.names, hframe.names.resolve level.tag, hscope, ?_⟩
  obtain ⟨x, hx, hmessages⟩ := exists_found h
  refine ⟨x, hx, hmessages, ?_, ?_⟩
  · intro m hm
    rw [hx.attributes] at hm
    have hown := scope_of_mem_attributeMessages hm
    rwa [hscope] at hown
  · intro m hm
    rw [hx.translation, Option.mem_def, translation?, Option.bind_eq_some_iff] at hm
    obtain ⟨msgid, hmsgid, hm⟩ := hm
    rw [hframe.names.mark?] at hmsgid
    obtain ⟨domain, hdomain, rfl⟩ := Translated.exists_of_message? hm
    rw [hscope] at hdomain ⊢
    exact ⟨msgid, hmsgid, hdomain.symm, rfl, rfl⟩

/-- The element in front has another domain, and the prefix is declared around it. -/
theorem nearest_scope_secondParagraph :
    ∃ x : Found, x.IsAt ⟨{}, "page.pt", .python⟩
        ⟨[.element ⟨"p", [⟨"i18n:domain", "other", 1⟩, ⟨"xmlns:x", "y", 1⟩], 1⟩ []],
          ⟨"p", [⟨"x:translate", "", 2⟩, ⟨"x:context", "menu", 2⟩], 2⟩, []⟩
        [⟨[], ⟨"i18n:div", [⟨"xmlns:x", i18nNamespace, 1⟩, ⟨"domain", "pages", 1⟩,
          ⟨"comment", "A greeting", 1⟩], 1⟩, []⟩]
        [.text "Hello" 2] ∧
      x.messages = [{
        domain := some "pages"
        context := some "menu"
        id := "Hello"
        comment := "A greeting"
        location := ⟨"page.pt", 2⟩ }] := by
  refine Exists.imp (fun x hx => ⟨hx.1, hx.2.1.symm⟩) ((nearest_scope ?_).2 _ _ _ rfl).2.2.2
  decide +kernel

end PotExtract.Template
