import PotExtract.Proofs.Template.SentenceTexts

/-! What translated elements note about each other. The message of an element holds the texts of the
named translated elements directly inside of it, and the message of each of these, which comes
first, ends with the part of the sentence around it that has been read by then. -/

namespace PotExtract.Template

open Text Markup

variable {ctx : ScanContext} {level : Level} {outer : List Level} {children : List Node}

/-! ### Elements inside of elements -/

/-- The messages of an element. -/
def Found.own (x : Found) : List Message :=
  x.attributes ++ x.code ++ x.inside ++ x.translation.toList

/-- The messages around `y` are those of a scan that is cut around `x`, and the element of `y` is
inside of that of `x`. -/
def Found.IsInside (y x : Found) : Prop :=
  ∃ front back, x.inside = front ++ y.own ++ back ∧
    y.front = x.front ++ x.attributes ++ x.code ++ front ∧
    y.back = back ++ x.translation.toList ++ x.back

theorem Found.IsInside.messages {x y : Found} (h : y.IsInside x) : y.messages = x.messages := by
  obtain ⟨front, back, hinside, hfront, hback⟩ := h
  simp only [Found.messages, Found.own, hinside, hfront, hback, List.append_assoc]

/-- What is found inside of an element holds what is found around each element directly in it. -/
theorem Found.IsAt.exists_inside {x : Found} {before : List Node} {tag : Tag}
    {content after : List Node}
    (hx : x.IsAt ctx level outer (before ++ .element tag content :: after)) :
    ∃ y : Found, y.IsAt ctx ⟨before, tag, after⟩ (level :: outer) content ∧ y.IsInside x := by
  let inner : Level := ⟨before, tag, after⟩
  have hinside := hx.inside
  rw [nodesFinds_level inner (level :: outer) content] at hinside
  obtain ⟨front, _, hfront, hrest, hcut⟩ := collects_append.1 hinside
  obtain ⟨_, back, hown, hback, rfl⟩ := collects_append.1 hrest
  obtain ⟨code, inside, rfl, hcode, hcontent⟩ := exists_own hown
  let y : Found := {
    front := x.front ++ (x.attributes ++ x.code) ++ front
    attributes := attributeMessages ctx (frameIn (inner :: level :: outer)) tag
    code := code
    inside := inside
    translation := translation? ctx (frameIn (inner :: level :: outer)) tag content
      (inner.around (level :: outer))
    back := back ++ (x.translation.toList ++ x.back) }
  refine ⟨y, ?_, front, back, ?_, ?_, ?_⟩
  · -- What is found around the inner element is what is found around the outer one and the rest
    -- of what is inside of that.
    have hend : Collects ctx (endFinds ctx (frameIn (level :: outer)) level.tag
        (before ++ .element tag content :: after) (level.around outer)) x.translation.toList := by
      rw [endFinds_eq, hx.translation]
      exact collects_map_message.2 rfl
    refine ⟨?_, rfl, hcode, hcontent, rfl, ?_⟩
    · exact collects_append.2 ⟨_, _, collects_append.2 ⟨_, _, hx.front, hx.start, rfl⟩, hfront, rfl⟩
    · have hbehind := collects_append.2 ⟨_, _, hend, hx.back, rfl⟩
      rw [← List.append_assoc] at hbehind
      exact collects_append.2 ⟨_, _, hback, hbehind, rfl⟩
  · exact hcut.symm.trans (List.append_assoc ..).symm
  · simp only [y, List.append_assoc]
  · simp only [y, List.append_assoc]

/-! ### The notes of a message -/

/-- The note on the message of an element for a named translated element whose text is `text`. -/
def canonicalNote (name text : String) : String :=
  s!"Canonical text for {placeholder name} is: \"{text}\""

/-- The note on the message of an element for the sentence around it, up to its own placeholder. -/
def usageNote (text : String) : String :=
  s!"Used in sentence: \"{text}\""

/-- The note for a node directly inside of the innermost element of a path: there is one if it is a
translated element with a name. -/
def canonicalNote? (place : List Tag) : Node → Option String
  | .element tag content =>
    (markAt "translate" (tag :: place)).bind fun _ =>
      (filledMarkAt "name" (tag :: place)).map fun name =>
        canonicalNote name (sentenceAt (tag :: place) content)
  | _ => none

/-- The note for the element around the innermost one, if it is translated. -/
def usageNote? (level : Level) (outer : List Level) (children : List Node) : Option String :=
  (markAt "translate" (path outer)).map fun _ =>
    usageNote (sentenceAt (path outer) (level.before ++ [.element level.tag children]))

/-- The notes on the message of the innermost element, whose given id is `msgid`. -/
def notesAt (level : Level) (outer : List Level) (children : List Node) (msgid : String) :
    List String :=
  let place := path (level :: outer)
  (nearestMark "comment" place).toList ++ defaultNotes msgid (sentenceAt place children) ++
    children.filterMap (canonicalNote? place) ++ (usageNote? level outer children).toList

theorem Frame.NamesAt.canonicalNotes {f : Frame} {place : List Tag} (h : f.NamesAt place)
    (children : List Node) :
    (namedSentences f children).map (fun (name, text) => canonicalNote name text) =
      children.filterMap (canonicalNote? place) := by
  rw [namedSentences, List.map_filterMap]
  refine List.filterMap_congr fun node _ => ?_
  cases node with
  | element tag content =>
    have hinner : (f.enter tag).NamesAt (tag :: place) := h.declare tag
    simp only [canonicalNote?, hinner.mark?, hinner.filledMark?, hinner.sentence]
    cases markAt "translate" (tag :: place) with
    | none => rfl
    | some _ => cases filledMarkAt "name" (tag :: place) <;> rfl
  | _ => rfl

theorem text_around (level : Level) (outer : List Level) (children : List Node) :
    ((level.around outer).map fun text => String.ofList (normalize text)) =
      (markAt "translate" (path outer)).map fun _ =>
        sentenceAt (path outer) (level.before ++ [.element level.tag children]) := by
  have hnames := (isAt_frameIn outer).names
  have hstart : sentenceStart outer = (markAt "translate" (path outer)).map fun _ => [] := by
    cases outer with
    | nil => rfl
    | cons next outer => rw [sentenceStart, hnames.mark?, path, List.map_cons]
  have hbare : (level.before ++ [Node.element level.tag []]).map Node.bare =
      (level.before ++ [Node.element level.tag children]).map Node.bare := by
    simp only [List.map_append]
    rfl
  rw [Level.around, hstart, Option.map_map, Option.map_map,
    ← sentenceAt_congr hbare (path outer), sentenceAt, funext hnames.nodeText]
  rfl

theorem around_eq (level : Level) (outer : List Level) (children : List Node) :
    ((level.around outer).map fun text => usageNote (String.ofList (normalize text))) =
      usageNote? level outer children := by
  have hnotes := congrArg (Option.map usageNote) (text_around level outer children)
  rwa [Option.map_map, Option.map_map] at hnotes

theorem comment_of_mem {x : Found} (hx : x.IsAt ctx level outer children) {m : Message}
    (hm : m ∈ x.translation) :
    ∃ msgid, markAt "translate" (path (level :: outer)) = some msgid ∧
      m.comment = joinComments (notesAt level outer children msgid) := by
  obtain ⟨msgid, hmsgid, -, hcomment⟩ := hasText_of_mem hx hm
  refine ⟨msgid, hmsgid, ?_⟩
  have hnotes := (isAt_frameIn (level :: outer)).names.canonicalNotes children
  rw [hcomment, notesAt, ← hnotes, ← around_eq, List.append_assoc, List.append_assoc]
  rfl

/-- A comment ends with its last note. -/
theorem suffix_joinComments {note : String} (h : note ≠ "") (notes : List String) :
    note.toList <:+ (joinComments (notes ++ [note])).toList := by
  have hfilled : [note].filter (fun p => !p.isEmpty) = [note] := by simpa using h
  rw [joinComments, List.filter_append, hfilled, String.toList_intercalate, List.map_append]
  induction notes.filter (fun p => !p.isEmpty) with
  | nil => simp
  | cons first rest ih =>
    have hnote : rest.map String.toList ++ [note.toList] ≠ [] := by simp
    obtain ⟨next, later, hrest⟩ := List.exists_cons_of_ne_nil hnote
    rw [List.map_singleton, hrest] at ih
    rw [List.map_singleton, List.map_cons, List.cons_append, hrest, List.intercalate_cons_cons]
    exact ih.trans (List.suffix_append _ _)

theorem usageNote_ne_empty (text : String) : usageNote text ≠ "" := by
  intro h
  have hlast := (String.append_eq_empty_iff.1 h).2
  exact absurd hlast (by decide)

theorem canonicalNotes_cut {place : List Tag} {tag : Tag} {own name : String}
    (hown : markAt "translate" (tag :: place) = some own)
    (hname : filledMarkAt "name" (tag :: place) = some name) (before content after : List Node) :
    (before ++ .element tag content :: after).filterMap (canonicalNote? place) =
      before.filterMap (canonicalNote? place) ++
        canonicalNote name (sentenceAt (tag :: place) content) ::
        after.filterMap (canonicalNote? place) := by
  have hnote : canonicalNote? place (.element tag content) =
      some (canonicalNote name (sentenceAt (tag :: place) content)) := by
    rw [canonicalNote?, hown, hname]
    rfl
  rw [List.filterMap_append, List.filterMap_cons_some hnote]

/-- The message of an element directly inside of a translated one ends with the sentence up to its own
placeholder. -/
theorem suffix_comment_of_mem {inner : Level} {content : List Node} {msgid : String} {y : Found}
    (hy : y.IsAt ctx inner (level :: outer) content)
    (hmark : markAt "translate" (path (level :: outer)) = some msgid) {m : Message}
    (hm : m ∈ y.translation) :
    let sentence := sentenceAt (path (level :: outer)) (inner.before ++ [.element inner.tag content])
    ∃ notes, m.comment = joinComments (notes ++ [usageNote sentence]) ∧
      (usageNote sentence).toList <:+ m.comment.toList := by
  intro sentence
  obtain ⟨own, -, hcomment⟩ := comment_of_mem hy hm
  have husage : usageNote? inner (level :: outer) content = some (usageNote sentence) := by
    rw [usageNote?, hmark]
    rfl
  rw [notesAt, husage, Option.toList_some] at hcomment
  exact ⟨_, hcomment, hcomment ▸ suffix_joinComments (usageNote_ne_empty sentence) _⟩

/-! ### Sentences that refer to each other -/

/-- Directly inside of a translated element, the sentence of a named translated element is one that
the sentence around it refers to by the name. It refers back to that sentence, which has been read up to
the placeholder by its end, and has its own text until the end of the element around it. -/
theorem Passage.IsAt.refers {p : Passage} {before after content : List Node} {tag : Tag}
    {s : Sentence} {msgid own name : String}
    (hp : p.IsAt ctx level outer (before ++ .element tag content :: after))
    (hs : p.sentence? = some s) (hmark : markAt "translate" (path (level :: outer)) = some msgid)
    (hown : markAt "translate" (tag :: path (level :: outer)) = some own)
    (hname : filledMarkAt "name" (tag :: path (level :: outer)) = some name) :
    ∃ (q : Passage) (i j : Nat), q.IsAt ctx ⟨before, tag, after⟩ (level :: outer) content ∧
      p.own = some i ∧ q.own = some j ∧ (name, j) ∈ s.named ∧
      q.sentence?.bind (·.parent) = some i ∧
      p.read.text j = sentenceAt (tag :: path (level :: outer)) content ∧
      q.read.text i = sentenceAt (path (level :: outer)) (before ++ [.element tag content]) := by
  have hnames := (isAt_frameIn (⟨before, tag, after⟩ :: level :: outer)).names
  obtain ⟨q, hq, hbefore, hpassed, hafter⟩ := hp.exists_inside
  obtain ⟨i, hi, hs⟩ := Option.bind_eq_some_iff.1 hs
  obtain ⟨-, hopen, -⟩ := hp.came
  obtain ⟨-, hopen', hframe', -⟩ := hq.came
  obtain ⟨hentered, hvisited⟩ := hq.states hopen'
  obtain ⟨-, -, -, -, hleft⟩ := hq.left
  obtain ⟨s', hown', hs', hparent, htext, -⟩ := hq.exists_sentence ((hnames.mark? _).trans hown)
  have hcurrent : q.front.current? = p.own :=
    hbefore.current?.trans (hp.states hopen).1.current?
  have hlt : i < q.front.sentences.length := hopen' i (hcurrent.trans hi)
  obtain ⟨_, hreads, -⟩ := hafter.sentences
  rw [hpassed.current?, hcurrent, hleft] at hreads
  refine ⟨q, i, _, hq, hi, hown', ?_, ?_, ?_, ?_⟩
  · -- The reference is made at the start of the inner element, and what is read later is put
    -- behind it.
    have hfront := List.getElem?_eq_getElem hlt
    have hread := (hentered.reads_inside hvisited).own hfront (hcurrent.trans hi)
    have hwhole := hreads.own hread hi
    rw [hs, Option.some.injEq] at hwhole
    have hinner : (q.front.frame.enter tag).filledMark? tag "name" = some name := by
      rw [hframe']
      exact (hnames.filledMark? _).trans hname
    simp [hwhole, Sentence.extend, hown', Walk.reference, hinner]
  · rw [hs', Option.bind_some, hparent, hcurrent, hi]
  · -- What is read behind the inner element goes into the sentence around it.
    have hne : p.own ≠ some q.front.sentences.length := by
      rw [hi]
      exact fun heq => absurd (Option.some.inj heq) (Nat.ne_of_lt hlt)
    rw [Passage.sentence?, hown', Option.bind_some] at hs'
    rw [Walk.text, hreads.other hs' hne, Option.map_some, Option.getD_some, htext]
    exact hnames.sentence content
  · have haround := hq.text_parent
    rw [hcurrent, hi, text_around _ _ content, hmark] at haround
    exact Option.some.inj haround

/-! ### Cross references -/

/-- The sentence of a translated element refers to those of the named translated elements directly
inside of it, in order. By the end of the element these have the texts of their elements, and at the end
of each of them the sentence around it has been read up to the placeholder of that element. So the
message of the element, if there is one, has after the inherited comment and the default text a note
for each of them with its text. The message of such an element, if there is one, comes before it and
ends with the sentence up to the placeholder. Neither depends on whether the other is there. -/
theorem cross_references {messages : List Message} {msgid : String}
    (h : (scanNodes ctx (plug (level :: outer) children)).outcome = .ok messages)
    (hmark : markAt "translate" (path (level :: outer)) = some msgid) :
    let place := path (level :: outer)
    ∃ (x : Found) (p : Passage) (s : Sentence), x.IsAt ctx level outer children ∧
      messages = x.messages ∧ p.IsAt ctx level outer children ∧ p.Makes ctx x ∧
      p.sentence? = some s ∧
      s.named.map (fun (name, i) => canonicalNote name (p.read.text i)) =
        children.filterMap (canonicalNote? place) ∧
      (∀ m ∈ x.translation, m.comment = joinComments ((nearestMark "comment" place).toList ++
        defaultNotes msgid (sentenceAt place children) ++
        children.filterMap (canonicalNote? place) ++ (usageNote? level outer children).toList)) ∧
      ∀ before tag content after own name, children = before ++ .element tag content :: after →
        markAt "translate" (tag :: place) = some own →
        filledMarkAt "name" (tag :: place) = some name →
        let sentence := sentenceAt place (before ++ [.element tag content])
        children.filterMap (canonicalNote? place) =
          before.filterMap (canonicalNote? place) ++
            canonicalNote name (sentenceAt (tag :: place) content) ::
            after.filterMap (canonicalNote? place) ∧
        ∃ (y : Found) (q : Passage) (i j : Nat),
          y.IsAt ctx ⟨before, tag, after⟩ (level :: outer) content ∧ y.IsInside x ∧
          q.IsAt ctx ⟨before, tag, after⟩ (level :: outer) content ∧ q.Makes ctx y ∧
          p.own = some i ∧ q.own = some j ∧ (name, j) ∈ s.named ∧
          q.sentence?.bind (·.parent) = some i ∧
          p.read.text j = sentenceAt (tag :: place) content ∧ q.read.text i = sentence ∧
          ∀ m ∈ y.translation, ∃ notes, m.comment = joinComments (notes ++ [usageNote sentence]) ∧
            (usageNote sentence).toList <:+ m.comment.toList := by
  intro place
  obtain ⟨x, hx, hmessages⟩ := exists_found h
  obtain ⟨p, hp⟩ := exists_passage h
  have hnames := (isAt_frameIn (level :: outer)).names
  obtain ⟨s, -, hs, -, -, hnamed⟩ := hp.exists_sentence ((hnames.mark? _).trans hmark)
  refine ⟨x, p, s, hx, hmessages, hp, hp.makes hx, hs, ?_, ?_, ?_⟩
  · have hnotes := congrArg (List.map fun (name, text) => canonicalNote name text) hnamed
    rw [hnames.canonicalNotes, List.map_map] at hnotes
    exact hnotes
  · intro m hm
    obtain ⟨msgid', hmark', hcomment⟩ := comment_of_mem hx hm
    rw [hmark, Option.some.injEq] at hmark'
    rw [hcomment, ← hmark']
    rfl
  · rintro before tag content after own name rfl hinner hname sentence
    refine ⟨canonicalNotes_cut hinner hname before content after, ?_⟩
    obtain ⟨y, hy, hinside⟩ := hx.exists_inside
    obtain ⟨q, i, j, hq, hi, hj, hmem, hparent, htext, hsoFar⟩ := hp.refers hs hmark hinner hname
    exact ⟨y, q, i, j, hy, hinside, hq, hq.makes hy, hi, hj, hmem, hparent, htext, hsoFar,
      fun m hm => suffix_comment_of_mem hy hmark hm⟩

/-- The second named element is noted although it gives no message, since its text is dynamic. -/
theorem cross_references_greeting :
    let level : Level := ⟨[], ⟨"p", [⟨"i18n:domain", "pages", 1⟩, ⟨"i18n:translate", "", 1⟩,
      ⟨"i18n:comment", "A greeting", 1⟩], 1⟩, []⟩
    let tag : Tag := ⟨"b", [⟨"i18n:name", "who", 2⟩, ⟨"i18n:translate", "whom", 2⟩], 2⟩
    let content : List Node := [.text "big " 2, .element ⟨"i", [], 2⟩ [.text "blue" 2]]
    let after : List Node := [.text " and " 2, .element ⟨"u", [⟨"i18n:name", "other", 3⟩,
      ⟨"i18n:translate", "", 3⟩], 3⟩ [.text "$\x7bx\x7d" 3]]
    ∃ (x y : Found) (p q : Passage) (i j : Nat), y.IsInside x ∧
      p.IsAt ⟨{}, "page.pt", .python⟩ level [] (.text "Hello " 1 :: .element tag content :: after) ∧
      q.IsAt ⟨{}, "page.pt", .python⟩ ⟨[.text "Hello " 1], tag, after⟩ [level] content ∧
      p.own = some i ∧ q.own = some j ∧ p.read.text j = "big <dynamic element>" ∧
      q.read.text i = "Hello $\x7bwho\x7d" ∧
      x.IsAt ⟨{}, "page.pt", .python⟩ level [] (.text "Hello " 1 :: .element tag content :: after) ∧
      y.IsAt ⟨{}, "page.pt", .python⟩ ⟨[.text "Hello " 1], tag, after⟩ [level] content ∧
      x.messages = [
        { domain := some "pages"
          id := "whom"
          comment := "A greeting\nDefault: big <dynamic element>\n" ++
            "Used in sentence: \"Hello $\x7bwho\x7d\""
          location := ⟨"page.pt", 2⟩ },
        { domain := some "pages"
          id := "Hello $\x7bwho\x7d and $\x7bother\x7d"
          comment := "A greeting\nCanonical text for $\x7bwho\x7d is: " ++
            "\"big <dynamic element>\"\nCanonical text for $\x7bother\x7d is: \"$\x7bx\x7d\""
          location := ⟨"page.pt", 1⟩ }] := by
  intro level tag content after
  have hscan : (scanNodes ⟨{}, "page.pt", .python⟩ (plug [level]
      (.text "Hello " 1 :: .element tag content :: after))).outcome = .ok [
        { domain := some "pages"
          id := "whom"
          comment := "A greeting\nDefault: big <dynamic element>\n" ++
            "Used in sentence: \"Hello $\x7bwho\x7d\""
          location := ⟨"page.pt", 2⟩ },
        { domain := some "pages"
          id := "Hello $\x7bwho\x7d and $\x7bother\x7d"
          comment := "A greeting\nCanonical text for $\x7bwho\x7d is: " ++
            "\"big <dynamic element>\"\nCanonical text for $\x7bother\x7d is: \"$\x7bx\x7d\""
          location := ⟨"page.pt", 1⟩ }] := by decide +kernel
  have hmark : markAt "translate" (path [level]) = some "" := by decide +kernel
  obtain ⟨x, p, s, hx, hmessages, hp, -, -, -, -, hnamed⟩ := cross_references hscan hmark
  have hown : markAt "translate" (tag :: path [level]) = some "whom" := by decide +kernel
  have hname : filledMarkAt "name" (tag :: path [level]) = some "who" := by decide +kernel
  obtain ⟨-, y, q, i, j, hy, hinside, hq, -, hi, hj, -, -, htext, hsoFar, -⟩ :=
    hnamed [.text "Hello " 1] tag content after "whom" "who" rfl hown hname
  have hwhom : p.read.text j = "big <dynamic element>" := htext.trans (by decide +kernel)
  have hgreeting : q.read.text i = "Hello $\x7bwho\x7d" := hsoFar.trans (by decide +kernel)
  exact ⟨x, y, p, q, i, j, hinside, hp, hq, hi, hj, hwhom, hgreeting, hx, hy, hmessages.symm⟩

end PotExtract.Template
