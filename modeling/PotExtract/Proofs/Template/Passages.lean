import PotExtract.Proofs.Template.Elements

/-! The way of a walk through one element of a tree: the states in front of the element, inside of it
before and behind its content, and behind it. What the walk makes on that way are the messages around
the element, and its own message is that of its sentence as it has been read by then. -/

namespace PotExtract.Template

open Text Markup

variable {ctx : ScanContext} {level : Level} {outer : List Level} {children : List Node}

/-! ### Visits in a row -/

theorem Visit.bind_eq_ok {α β : Type} {x : Visit α} {k : α → Visit β} {w final : Walk} {b : β} :
    (x >>= k) w = .ok b final ↔ ∃ a after, x w = .ok a after ∧ k a after = .ok b final := by
  cases hresult : x w with
  | ok a after =>
    rw [Visit.bind_of_ok hresult]
    simp
  | error e after =>
    rw [Visit.bind_of_error hresult]
    simp

theorem visitNodes_append (nodes more : List Node) :
    visitNodes ctx (nodes ++ more) = (do visitNodes ctx nodes; visitNodes ctx more) := by
  induction nodes with
  | nil => rw [List.nil_append, visitNodes, pure_bind]
  | cons node nodes ih => rw [List.cons_append, visitNodes, visitNodes, ih, bind_assoc]

/-! ### Through an element -/

/-- The states of a walk in front of an element, before and behind its content, and behind it, with
the place of its sentence. -/
structure Passage where
  front : Walk
  own : Option Nat
  opened : Walk
  read : Walk
  back : Walk

/-- The sentence of the element as it has been read by the end of the element. -/
def Passage.sentence? (p : Passage) : Option Sentence :=
  p.own.bind fun i => p.read.sentences[i]?

/-- A walk goes through an element in these states. -/
structure Passage.Through (ctx : ScanContext) (tag : Tag) (children : List Node) (p : Passage) :
    Prop where
  enters : enterElement ctx tag p.front = .ok p.own p.opened
  reads : visitNodes ctx children p.opened = .ok () p.read
  leaves : leaveElement ctx p.own p.read = .ok () p.back

/-- A walk over a row goes through each element of the row. -/
theorem exists_through {before after : List Node} {tag : Tag} {w final : Walk}
    (h : visitNodes ctx (before ++ .element tag children :: after) w = .ok () final) :
    ∃ p : Passage, visitNodes ctx before w = .ok () p.front ∧ p.Through ctx tag children ∧
      visitNodes ctx after p.back = .ok () final := by
  rw [visitNodes_append, Visit.bind_eq_ok] at h
  obtain ⟨_, front, hbefore, h⟩ := h
  rw [visitNodes, Visit.bind_eq_ok] at h
  obtain ⟨_, back, h, hafter⟩ := h
  rw [visitNode, Visit.bind_eq_ok] at h
  obtain ⟨own, opened, henters, h⟩ := h
  obtain ⟨_, read, hreads, hleaves⟩ := Visit.bind_eq_ok.1 h
  exact ⟨⟨front, own, opened, read, back⟩, hbefore, ⟨henters, hreads, hleaves⟩, hafter⟩

/-! ### Down to an element -/

/-- Goes down to the content of the innermost of some elements, each of which is in the next one. -/
def descend (ctx : ScanContext) : List Level → Visit Unit
  | [] => return
  | level :: outer => do
    descend ctx outer
    visitNodes ctx level.before
    let _ ← enterElement ctx level.tag

/-- What a walk makes on its way down to the content of an element is what is found in front of it,
and it comes there with the frame and with the sentence of the place. -/
theorem comesUpon_descend (levels : List Level) :
    ComesUpon ctx {} (findsBefore ctx levels)
      (fun _ w => w.IsOpen ∧ w.frame = frameIn levels ∧ w.soFar = sentenceStart levels)
      (descend ctx levels {}) := by
  induction levels with
  | nil => exact .silent rfl rfl ⟨fun _ hi => (nomatch hi), rfl, rfl⟩
  | cons level outer ih =>
    rw [findsBefore, List.append_assoc, descend]
    refine ih.bind fun _ w hw => ?_
    obtain ⟨hopen, hframe, hsoFar⟩ := hw
    have hbefore : ComesUpon ctx w _ _ _ := comesUpon_visitNodes level.before hopen
    rw [hframe, hsoFar] at hbefore
    refine hbefore.bind fun _ front hfront => ?_
    have hframe' : front.frame = frameIn outer := hfront.frame.trans hframe
    have htag : ComesUpon ctx front _ _ _ := comesUpon_enterElement (hfront.isOpen hopen) level.tag
    rw [hframe'] at htag
    rw [← List.append_nil (tagFinds _ _ _)]
    refine htag.bind fun own opened hentered => ?_
    refine .silent rfl rfl ⟨hentered.isOpen, ?_, ?_⟩
    · rw [hentered.frame, hframe']
      rfl
    · rw [hentered.soFar, hframe']
      rfl

theorem descend_cons {p : Passage} {w : Walk} (hdescend : descend ctx outer {} = .ok () w)
    (hbefore : visitNodes ctx level.before w = .ok () p.front)
    (henters : enterElement ctx level.tag p.front = .ok p.own p.opened) :
    descend ctx (level :: outer) {} = .ok () p.opened :=
  Visit.bind_eq_ok.2 ⟨_, _, hdescend, Visit.bind_eq_ok.2 ⟨_, _, hbefore,
    Visit.bind_eq_ok.2 ⟨_, _, henters, rfl⟩⟩⟩

/-- A walk over a tree goes down to the content of each element and goes over it. -/
theorem exists_descend {levels : List Level} {nodes : List Node} {final : Walk}
    (h : visitNodes ctx (plug levels nodes) {} = .ok () final) :
    ∃ w after, descend ctx levels {} = .ok () w ∧ visitNodes ctx nodes w = .ok () after := by
  induction levels generalizing nodes with
  | nil => exact ⟨{}, final, rfl, h⟩
  | cons level outer ih =>
    obtain ⟨w, _, hdescend, hrow⟩ := ih h
    obtain ⟨p, hbefore, hthrough, -⟩ := exists_through hrow
    exact ⟨p.opened, p.read, descend_cons hdescend hbefore hthrough.enters, hthrough.reads⟩

/-- The walk over a tree goes through an element of it in these states. -/
structure Passage.IsAt (ctx : ScanContext) (level : Level) (outer : List Level)
    (children : List Node) (p : Passage) : Prop extends p.Through ctx level.tag children where
  comes : (do descend ctx outer; visitNodes ctx level.before : Visit Unit) {} = .ok () p.front

theorem exists_passage {messages : List Message}
    (h : (scanNodes ctx (plug (level :: outer) children)).outcome = .ok messages) :
    ∃ p : Passage, p.IsAt ctx level outer children := by
  unfold scanNodes EStateM.run at h
  cases hfinal : visitNodes ctx (plug (level :: outer) children) {} with
  | error e final =>
    rw [hfinal] at h
    cases h
  | ok a final =>
    rw [plug] at hfinal
    obtain ⟨w, _, hdescend, hrow⟩ := exists_descend hfinal
    obtain ⟨p, hbefore, hthrough, -⟩ := exists_through hrow
    exact ⟨p, hthrough, Visit.bind_eq_ok.2 ⟨_, _, hdescend, hbefore⟩⟩

/-! ### What a walk makes on its way -/

theorem ComesUpon.of_eq_ok {α : Type} {w after : Walk} {a : α} {finds : List Find}
    {told : α → Walk → Prop} {result : EStateM.Result ScanError Walk α}
    (h : ComesUpon ctx w finds told result) (hresult : result = .ok a after) :
    ∃ messages, Collects ctx finds messages ∧ after.messages = w.messages ++ messages ∧
      told a after := by
  rw [hresult] at h
  obtain ⟨hcollects, -, hmessages, htold⟩ | - := h
  exact ⟨_, congrArg ScanReport.outcome hcollects, hmessages, htold⟩

theorem Collects.unique {finds : List Find} {messages messages' : List Message}
    (h : Collects ctx finds messages) (h' : Collects ctx finds messages') :
    messages = messages' :=
  Except.ok.inj (h.symm.trans h')

/-- What a walk makes on its way through an element are the messages around the element. Its own
message is that of its sentence. -/
structure Passage.Makes (ctx : ScanContext) (p : Passage) (x : Found) : Prop where
  front : p.front.messages = x.front
  opened : p.opened.messages = p.front.messages ++ (x.attributes ++ x.code)
  read : p.read.messages = p.opened.messages ++ x.inside
  back : p.back.messages = p.read.messages ++ x.translation.toList
  translation : x.translation = p.sentence?.bind (p.read.message? ctx)

theorem Found.IsAt.start {x : Found} (hx : x.IsAt ctx level outer children) :
    Collects ctx (tagFinds ctx (frameIn (level :: outer)) level.tag) (x.attributes ++ x.code) :=
  collects_append.2 ⟨_, _, collects_map_message.2 hx.attributes, hx.code, rfl⟩

namespace Passage

variable {p : Passage} {tag : Tag}

theorem Through.entered (h : p.Through ctx tag children) (hopen : p.front.IsOpen) :
    ∃ messages, Collects ctx (tagFinds ctx (p.front.frame.enter tag) tag) messages ∧
      p.opened.messages = p.front.messages ++ messages ∧ p.front.Enters tag p.own p.opened :=
  (comesUpon_enterElement hopen tag).of_eq_ok h.enters

theorem Through.visited (h : p.Through ctx tag children) (hopen : p.opened.IsOpen) :
    ∃ messages, Collects ctx (nodesFinds ctx p.opened.frame p.opened.soFar children) messages ∧
      p.read.messages = p.opened.messages ++ messages ∧ p.opened.Visits children p.read :=
  (comesUpon_visitNodes children hopen).of_eq_ok h.reads

theorem Through.left (h : p.Through ctx tag children) :
    p.back.messages = p.read.messages ++ (p.sentence?.bind (p.read.message? ctx)).toList ∧
      p.back.namespaces = p.read.namespaces.tail ∧ p.back.scopes = p.read.scopes.tail ∧
      p.back.translate = p.read.translate.tail ∧ p.back.sentences = p.read.sentences := by
  obtain ⟨messages, hcollects, hmessages, hleft⟩ :=
    (comesUpon_leaveElement rfl).of_eq_ok h.leaves
  rw [collects_map_message.1 hcollects] at hmessages
  exact ⟨hmessages, hleft⟩

theorem Through.states (h : p.Through ctx tag children) (hopen : p.front.IsOpen) :
    p.front.Enters tag p.own p.opened ∧ p.opened.Visits children p.read := by
  obtain ⟨_, -, -, hentered⟩ := h.entered hopen
  obtain ⟨_, -, -, hvisited⟩ := h.visited hentered.isOpen
  exact ⟨hentered, hvisited⟩

/-- A passage through an element leaves the stacks as they were, and of the sentences that were
there it writes into the current one alone. -/
theorem Through.visits (h : p.Through ctx tag children) (hopen : p.front.IsOpen) :
    p.front.Visits [.element tag children] p.back := by
  obtain ⟨hentered, hvisited⟩ := h.states hopen
  obtain ⟨-, hnamespaces, hscopes, htranslate, hsentences⟩ := h.left
  exact hentered.visits hvisited hnamespaces hscopes htranslate hsentences

theorem IsAt.came (hp : p.IsAt ctx level outer children) :
    Collects ctx (findsBefore ctx outer ++
      nodesFinds ctx (frameIn outer) (sentenceStart outer) level.before) p.front.messages ∧
    p.front.IsOpen ∧ p.front.frame = frameIn outer ∧
    p.front.soFar =
      (sentenceStart outer).map (· ++ level.before.flatMap (nodeText (frameIn outer))) := by
  obtain ⟨_, w, hdescend, hbefore⟩ := Visit.bind_eq_ok.1 hp.comes
  obtain ⟨down, hdown, hmessages, hopen, hframe, hsoFar⟩ :=
    (comesUpon_descend outer).of_eq_ok hdescend
  obtain ⟨row, hrow, hmessages', hvisits⟩ :=
    (comesUpon_visitNodes level.before hopen).of_eq_ok hbefore
  rw [hframe, hsoFar] at hrow
  refine ⟨collects_append.2 ⟨down, row, hdown, hrow, ?_⟩, hvisits.isOpen hopen,
    hvisits.frame.trans hframe, ?_⟩
  · rw [hmessages', hmessages]
    rfl
  · rw [hvisits.soFar hopen, hsoFar, hframe]

theorem IsAt.exists_inside {before after content : List Node} {tag : Tag}
    (hp : p.IsAt ctx level outer (before ++ .element tag content :: after)) :
    ∃ q : Passage, q.IsAt ctx ⟨before, tag, after⟩ (level :: outer) content ∧
      p.opened.Visits before q.front ∧ q.front.Visits [.element tag content] q.back ∧
      q.back.Visits after p.read := by
  obtain ⟨_, w, hdescend, hbefore⟩ := Visit.bind_eq_ok.1 hp.comes
  obtain ⟨q, hfront, hthrough, hback⟩ := exists_through hp.reads
  have hopened := descend_cons hdescend hbefore hp.enters
  have hq : q.IsAt ctx ⟨before, tag, after⟩ (level :: outer) content :=
    ⟨hthrough, Visit.bind_eq_ok.2 ⟨_, _, hopened, hfront⟩⟩
  obtain ⟨-, hopen, -⟩ := hp.came
  obtain ⟨_, -, -, hvisitsBefore⟩ :=
    (comesUpon_visitNodes before (hp.states hopen).1.isOpen).of_eq_ok hfront
  obtain ⟨-, hopen', -⟩ := hq.came
  have hvisits := hq.visits hopen'
  obtain ⟨_, -, -, hvisitsAfter⟩ :=
    (comesUpon_visitNodes after (hvisits.isOpen hopen')).of_eq_ok hback
  exact ⟨q, hq, hvisitsBefore, hvisits, hvisitsAfter⟩

theorem IsAt.makes (hp : p.IsAt ctx level outer children) {x : Found}
    (hx : x.IsAt ctx level outer children) : p.Makes ctx x := by
  obtain ⟨hfront, hopen, hframe, hsoFar⟩ := hp.came
  obtain ⟨start, hstart, hopened, hentered⟩ := hp.entered hopen
  obtain ⟨inside, hinside, hread, hvisited⟩ := hp.visited hentered.isOpen
  obtain ⟨hback, -⟩ := hp.left
  have hown : (p.sentence?.bind (p.read.message? ctx)).toList.map Find.message = _ :=
    hentered.message hvisited hopen
  rw [hentered.frame, hentered.soFar] at hinside
  rw [hframe] at hstart hinside
  rw [hframe, hsoFar, around_of_before] at hown
  have htranslation : x.translation = p.sentence?.bind (p.read.message? ctx) := by
    have hmap := hown.trans (endFinds_eq _ _ _ _ _)
    have hlist := List.map_injective_iff.2 (fun _ _ => Find.message.inj) hmap
    have hhead := congrArg List.head? hlist
    rw [Option.head?_toList, Option.head?_toList] at hhead
    exact hx.translation.trans hhead.symm
  refine ⟨hfront.unique hx.front, ?_, ?_, ?_, htranslation⟩
  · rw [hopened, hstart.unique hx.start]
  · rw [hread, hinside.unique hx.inside]
  · rw [hback, htranslation]

/-- The sentence of a translated element has the text of the element by its end, and refers to the
sentences of the named elements directly inside of it. -/
theorem IsAt.exists_sentence (hp : p.IsAt ctx level outer children) {msgid : String}
    (hmark : (frameIn (level :: outer)).mark? level.tag "translate" = some msgid) :
    ∃ s, p.own = some p.front.sentences.length ∧ p.sentence? = some s ∧
      s.parent = p.front.current? ∧ s.text = sentence (frameIn (level :: outer)) children ∧
      s.named.map (fun r => (r.1, p.read.text r.2)) =
        namedSentences (frameIn (level :: outer)) children := by
  obtain ⟨-, hopen, hframe, -⟩ := hp.came
  obtain ⟨hentered, hvisited⟩ := hp.states hopen
  have hinner : p.front.frame.enter level.tag = frameIn (level :: outer) := by
    rw [hframe]
    rfl
  rw [← hinner] at hmark ⊢
  obtain ⟨s, hs, -, -, hparent, -, htext, hnames⟩ := hentered.exists_read hvisited hmark
  have hown : p.own = some p.front.sentences.length := by rw [hentered.own_eq, hmark, Option.map_some]
  exact ⟨s, hown, by rw [sentence?, hown, Option.bind_some, hs], hparent, htext, hnames.map_text⟩

/-- At the end of an element, the sentence around it reads up to the placeholder of the element. -/
theorem IsAt.text_parent (hp : p.IsAt ctx level outer children) :
    p.front.current?.map p.read.text =
      (level.around outer).map fun text => String.ofList (normalize text) := by
  obtain ⟨-, hopen, hframe, hsoFar⟩ := hp.came
  obtain ⟨hentered, hvisited⟩ := hp.states hopen
  have htext := hentered.text_parent hvisited hopen
  rwa [hframe, hsoFar, around_of_before] at htext

/-- What is inside of an element is written into no other sentence that was there. -/
theorem IsAt.getElem?_read (hp : p.IsAt ctx level outer children) {i : Nat}
    (hi : i < p.opened.sentences.length) (hne : p.own ≠ some i) :
    p.read.sentences[i]? = p.opened.sentences[i]? := by
  obtain ⟨-, hopen, -⟩ := hp.came
  obtain ⟨hentered, hvisited⟩ := hp.states hopen
  obtain ⟨_, hreads, -⟩ := hvisited.sentences
  rw [← hentered.current?] at hne
  have hs := List.getElem?_eq_getElem hi
  rw [hs, hreads.other hs hne]

end Passage

end PotExtract.Template
