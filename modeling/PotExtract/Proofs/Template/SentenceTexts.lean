import PotExtract.Proofs.Markup.Outline
import PotExtract.Proofs.Template.Passages

/-! The text of a translated element. It is made of the nodes directly inside of the element: of the
texts among them, and of a placeholder for each element. What is inside of those elements does not
matter to it. -/

namespace PotExtract.Template

open Text Markup

variable {ctx : ScanContext} {level : Level} {outer : List Level} {children : List Node}

/-- What a node directly inside of the innermost element of a path adds to the text of that element.
-/
def childText (path : List Tag) : Node → List Char
  | .text text _ => text.toList
  | .element tag _ =>
    match filledMarkAt "name" (tag :: path) with
    | some name => (placeholder name).toList
    | none => "<dynamic element>".toList
  | _ => []

/-- The text of the innermost element of a path. -/
def sentenceAt (path : List Tag) (children : List Node) : String :=
  String.ofList (normalize (children.flatMap (childText path)))

theorem Frame.NamesAt.nodeText {f : Frame} {path : List Tag} (h : f.NamesAt path) (node : Node) :
    nodeText f node = childText path node := by
  cases node with
  | element tag content =>
    have hinner : (f.enter tag).NamesAt (tag :: path) := h.declare tag
    rw [Template.nodeText, elementText, hinner.filledMark?, childText]
    cases filledMarkAt "name" (tag :: path) <;> rfl
  | _ => rfl

theorem Frame.NamesAt.sentence {f : Frame} {path : List Tag} (h : f.NamesAt path)
    (children : List Node) : sentence f children = sentenceAt path children := by
  rw [Template.sentence, funext h.nodeText, sentenceAt]

theorem childText_bare (path : List Tag) (node : Node) :
    childText path node.bare = childText path node := by
  cases node <;> rfl

/-- What is inside of the elements inside of an element is no part of its text. -/
theorem sentenceAt_congr {changed : List Node}
    (h : changed.map Node.bare = children.map Node.bare) (path : List Tag) :
    sentenceAt path changed = sentenceAt path children := by
  have hbare : ∀ nodes : List Node,
      nodes.flatMap (childText path) = (nodes.map Node.bare).flatMap (childText path) := by
    intro nodes
    rw [List.flatMap_map]
    exact congrArg (nodes.flatMap ·) (funext fun node => (childText_bare path node).symm)
  rw [sentenceAt, sentenceAt, hbare changed, hbare children, h]

/-- Whether a translated element gives a message, and with which id, depends on its text alone. -/
theorem map_id_translation? {f : Frame} {changed : List Node}
    (h : sentence f changed = sentence f children) (tag : Tag) (around : Option (List Char)) :
    (translation? ctx f tag changed around).map (·.id) =
      (translation? ctx f tag children around).map (·.id) := by
  unfold translation?
  cases f.mark? tag "translate" with
  | none => simp only [Option.bind_none]
  | some msgid =>
    have hid : Translated.idAndDefault ⟨f, tag, changed, msgid, around⟩ =
        Translated.idAndDefault ⟨f, tag, children, msgid, around⟩ := by
      simp only [Translated.idAndDefault, h]
    simp only [Option.bind_some, Translated.message?, hid, h]
    cases f.scope.domain with
    | none => simp only [Option.map_none]
    | some domain =>
      dsimp only
      split
      · simp only [Option.map_none]
      · split
        · simp only [Option.map_none]
        · simp only [Option.map_some]

/-- The message of a translated element with the text `text` has the given id, and the text as its
default in a note behind the comment in force. Without a given id, the text is the id. -/
def HasText (level : Level) (outer : List Level) (children : List Node) (text : String)
    (m : Message) : Prop :=
  ∃ msgid, markAt "translate" (path (level :: outer)) = some msgid ∧
    m.id = (if (trimmed msgid).isEmpty then text else trimmed msgid) ∧
    m.comment = joinComments ((nearestMark "comment" (path (level :: outer))).toList ++
      (defaultNotes msgid text ++ Translated.crossNotes
        ⟨frameIn (level :: outer), level.tag, children, msgid, level.around outer⟩))

theorem hasText_of_mem {x : Found} (hx : x.IsAt ctx level outer children) {m : Message}
    (hm : m ∈ x.translation) :
    HasText level outer children (sentenceAt (path (level :: outer)) children) m := by
  have hframe := isAt_frameIn (level :: outer)
  rw [hx.translation, Option.mem_def, translation?, Option.bind_eq_some_iff] at hm
  obtain ⟨msgid, hmsgid, hm⟩ := hm
  rw [hframe.names.mark?] at hmsgid
  obtain ⟨domain, -, rfl⟩ := Translated.exists_of_message? hm
  refine ⟨msgid, hmsgid, ?_, ?_⟩
  · dsimp only [Translated.idAndDefault]
    rw [hframe.names.sentence, apply_ite Prod.fst]
  · dsimp only [Translated.notes]
    rw [hframe.names.sentence, hframe.scope]
    rfl

/-- A walk reads the text of a translated element into the sentence of the element, and what is inside
of the element into no other sentence that was there. The message of the element, if it gives one, is
made of that sentence and has that text. An element gives a message with the same text and id, or none
as before, whatever is put inside of the elements in it. -/
theorem text_of_translation {messages : List Message}
    (h : (scanNodes ctx (plug (level :: outer) children)).outcome = .ok messages) :
    let place := path (level :: outer)
    let text := sentenceAt place children
    ∃ (x : Found) (p : Passage), x.IsAt ctx level outer children ∧ messages = x.messages ∧
      p.IsAt ctx level outer children ∧ p.Makes ctx x ∧
      ((markAt "translate" place).isSome → ∃ s, p.sentence? = some s ∧ s.text = text) ∧
      (∀ i < p.opened.sentences.length, p.own ≠ some i →
        p.read.sentences[i]? = p.opened.sentences[i]?) ∧
      (∀ m ∈ x.translation, HasText level outer children text m) ∧
      ∀ changed later, changed.map Node.bare = children.map Node.bare →
        (scanNodes ctx (plug (level :: outer) changed)).outcome = .ok later →
        ∃ y : Found, y.IsAt ctx level outer changed ∧ later = y.messages ∧
          y.translation.map (·.id) = x.translation.map (·.id) ∧
          ∀ m ∈ y.translation, HasText level outer changed text m := by
  intro place text
  obtain ⟨x, hx, hmessages⟩ := exists_found h
  obtain ⟨p, hp⟩ := exists_passage h
  have hnames := (isAt_frameIn (level :: outer)).names
  refine ⟨x, p, hx, hmessages, hp, hp.makes hx, ?_, fun i hi => hp.getElem?_read hi,
    fun m hm => hasText_of_mem hx hm, ?_⟩
  · intro hmark
    obtain ⟨msgid, hmsgid⟩ := Option.isSome_iff_exists.1 hmark
    obtain ⟨s, -, hs, -, htext, -⟩ := hp.exists_sentence ((hnames.mark? _).trans hmsgid)
    exact ⟨s, hs, htext.trans (hnames.sentence children)⟩
  intro changed later hbare hlater
  obtain ⟨y, hy, hmessages'⟩ := exists_found hlater
  have htext : sentenceAt place changed = text := sentenceAt_congr hbare _
  refine ⟨y, hy, hmessages', ?_, fun m hm => htext ▸ hasText_of_mem hy hm⟩
  have hsentence : sentence (frameIn (level :: outer)) changed =
      sentence (frameIn (level :: outer)) children := by
    rw [hnames.sentence, hnames.sentence]
    exact htext
  rw [hx.translation, hy.translation]
  exact map_id_translation? hsentence level.tag (level.around outer)

/-- What is inside of the named element is no part of the default text. -/
theorem text_of_translation_namedElement :
    let ctx : ScanContext := ⟨{}, "page.pt", .python⟩
    let level : Level := ⟨[], ⟨"p", [⟨"i18n:domain", "pages", 1⟩,
      ⟨"i18n:translate", " greeting ", 1⟩], 1⟩, []⟩
    let children (name : List Node) : List Node := [.text "Hello\n " 1,
      .element ⟨"b", [⟨"i18n:name", "who", 2⟩], 2⟩ name, .element ⟨"br", [], 2⟩ [], .text "! " 2]
    ∃ (x y : Found) (p : Passage), x.IsAt ctx level [] (children [.text "World" 2]) ∧
      y.IsAt ctx level [] (children []) ∧ p.IsAt ctx level [] (children [.text "World" 2]) ∧
      p.sentence?.map Sentence.text = some "Hello $\x7bwho\x7d<dynamic element>!" ∧
      y.translation.map (·.id) = x.translation.map (·.id) ∧
      x.messages = [{
        domain := some "pages"
        id := "greeting"
        comment := "Default: Hello $\x7bwho\x7d<dynamic element>!"
        location := ⟨"page.pt", 1⟩ }] := by
  intro ctx level children
  have hscan : (scanNodes ctx (plug [level] (children [.text "World" 2]))).outcome = .ok [{
        domain := some "pages"
        id := "greeting"
        comment := "Default: Hello $\x7bwho\x7d<dynamic element>!"
        location := ⟨"page.pt", 1⟩ }] := by decide +kernel
  obtain ⟨x, p, hx, hmessages, hp, -, hread, -, -, hchanged⟩ := text_of_translation hscan
  have hother : (scanNodes ctx (plug [level] (children []))).outcome = .ok x.messages := by
    rw [← hmessages]
    decide +kernel
  obtain ⟨y, hy, -, hid, -⟩ := hchanged (children []) _ rfl hother
  obtain ⟨s, hs, htext⟩ := hread (by decide +kernel)
  have hwhole : s.text = "Hello $\x7bwho\x7d<dynamic element>!" := htext.trans (by decide +kernel)
  exact ⟨x, y, p, hx, hy, hp, by rw [hs, Option.map_some, hwhole], hid, hmessages.symm⟩

end PotExtract.Template
