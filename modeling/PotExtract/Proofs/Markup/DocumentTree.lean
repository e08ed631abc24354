import PotExtract.Proofs.Markup.Outline
import PotExtract.Proofs.Markup.Places
import PotExtract.Proofs.Markup.TreeParts

/-! The tree of a document. Its nodes are those that the events of the document stand for, in their
order, and a node is in the innermost element that is open at its event. An end tag closes the
innermost open element of its name with all that is open inside of it, and nothing if there is no
such element. -/

namespace PotExtract.Markup

/-- A document up to some event: the nodes so far, and the open elements, innermost first, each with
its place among the nodes and its name. -/
structure Outline where
  nodes : List Outlined := []
  opened : List (Nat × String) := []

namespace Outline

/-- The place of the innermost open element. -/
def parent (o : Outline) : Option Nat :=
  o.opened.head?.map (·.1)

/-- Adds a node to the innermost open element. -/
def add (o : Outline) (node : Node) : Outline :=
  { o with nodes := o.nodes ++ [⟨node, o.parent⟩] }

/-- Adds an element, which is open from there on. -/
def enter (o : Outline) (tag : Tag) : Outline :=
  { o.add (.element tag []) with opened := (o.nodes.length, tag.name) :: o.opened }

/-- Closes the innermost open element called `name`, with all that is open inside of it. -/
def leave (o : Outline) (name : String) : Outline :=
  match o.opened.dropWhile (·.2 != name) with
  | [] => o
  | _ :: outer => { o with opened := outer }

end Outline

/-- The element whose start an event is, with the text of its tag between the brackets. -/
def Event.tag (e : Event) (content : List Char) : Tag :=
  ⟨String.ofList (tagName content),
    locate e.line { rest := e.written } (attributes .lenient content).read, e.line⟩

/-- The document with its next event. -/
def Outline.read (o : Outline) (e : Event) : Outline :=
  match e.piece with
  | .start content =>
    if isVoid (tagName content) then o.add (.element (e.tag content) [])
    else o.enter (e.tag content)
  | .empty content => o.add (.element (e.tag content) [])
  | .close name => o.leave (String.ofList name)
  | .text => o.add (.text (String.ofList e.written) e.line)
  | .cdata content => o.add (.cdata (String.ofList content) e.line)
  | .comment => o.add (.comment e.line)
  | .instruction => o.add (.instruction e.line)
  | .declaration => o.add (.declaration e.line)
  | .doctype => o.add (.doctype e.line)

/-- The nodes of a document, by its events. -/
def Outline.ofEvents (events : List Event) : List Outlined :=
  (events.foldl read {}).nodes

namespace Outline

/-- The document with its next change. -/
def take (o : Outline) : Growth → Outline
  | .opening tag => o.enter tag
  | .leaf node => o.add node
  | .closing name _ => o.leave name

variable {o : Outline} {name : String}

theorem dropWhile_opened :
    o.opened.dropWhile (·.2 != name) = o.opened.drop (o.opened.findIdx (·.2 == name)) := by
  rw [List.dropWhile_eq_drop_findIdx_not]
  simp only [bne, Bool.not_not]

theorem leave_of_eq_some {depth : Nat} (h : o.opened.findIdx? (·.2 == name) = some depth) :
    o.leave name = { o with opened := o.opened.drop (depth + 1) } := by
  obtain ⟨hlength, hdepth⟩ := List.findIdx?_eq_some_iff_findIdx_eq.1 h
  rw [leave, dropWhile_opened, hdepth, List.drop_eq_getElem_cons hlength]

theorem leave_of_eq_none (h : o.opened.findIdx? (·.2 == name) = none) : o.leave name = o := by
  have hnone := List.findIdx?_eq_none_iff.1 h
  have hall : o.opened.dropWhile (·.2 != name) = [] := by
    rw [List.dropWhile_eq_nil_iff]
    intro x hx
    simp [bne, hnone x hx]
  rw [leave, hall]

/-- Adds nodes with what is in them. -/
def addAll (o : Outline) (nodes : List Node) : Outline :=
  { o with nodes := o.nodes ++ Node.outlineOf o.parent o.nodes.length nodes }

theorem addAll_append (o : Outline) (nodes more : List Node) :
    o.addAll (nodes ++ more) = (o.addAll nodes).addAll more := by
  simp [addAll, parent, Node.outlineOf_append]

/-- An element that is closed is a node of the element around it. -/
theorem addAll_element (o : Outline) (tag : Tag) (children : List Node) :
    o.addAll [.element tag children] =
      { (o.enter tag).addAll children with opened := o.opened } := by
  simp [addAll, enter, add, parent, Node.outlineOf, Node.outline]

theorem addAll_bare (o : Outline) {node : Node} (hbare : node.content = []) :
    o.addAll [node] = o.add node.bare := by
  simp [addAll, add, Node.outlineOf, Node.outline_eq, hbare]

end Outline

namespace Grove

/-- The outline of open elements, innermost first, behind the nodes in front of them. -/
def outlineFrom (roots : List Node) (path : List OpenElement) : Outline :=
  path.foldr (fun e o => (o.enter e.tag).addAll e.children) (Outline.addAll {} roots)

/-- The outline of a tree that grows. -/
def outline (g : Grove) : Outline :=
  outlineFrom g.roots g.path

theorem outline_add (g : Grove) (node : Node) : (g.add node).outline = g.outline.addAll [node] := by
  unfold add outline
  split
  · next hpath => rw [hpath]; exact Outline.addAll_append _ _ _
  · next e outer hpath => rw [hpath]; exact Outline.addAll_append _ _ _

theorem outline_closeOne (g : Grove) :
    g.closeOne.outline = { g.outline with opened := g.outline.opened.tail } := by
  unfold closeOne
  split
  · next hpath => simp [outline, outlineFrom, hpath, Outline.addAll]
  · next e outer hpath =>
    rw [outline_add, Outline.addAll_element]
    simp only [outline, hpath]
    rfl

theorem outline_closeMany (n : Nat) (g : Grove) :
    (closeMany n g).outline = { g.outline with opened := g.outline.opened.drop n } := by
  induction n generalizing g with
  | zero => rfl
  | succ n ih => rw [closeMany, ih, outline_closeOne, ← List.drop_one, List.drop_drop, Nat.add_comm]

theorem map_opened_outline (g : Grove) :
    g.outline.opened.map (·.2) = g.path.map fun e => e.tag.name := by
  unfold outline
  induction g.path with
  | nil => rfl
  | cons e outer ih => exact congrArg (e.tag.name :: ·) ih

/-- An end tag closes what is open inside of the innermost element of its name, and that element. -/
theorem outline_closing (g : Grove) (name : String) (line : Nat) :
    (g.grow (.closing name line)).outline = g.outline.leave name := by
  have hdepth : g.depthOf? name = g.outline.opened.findIdx? (·.2 == name) := by
    have hpath := List.findIdx?_map (p := (· == name)) (f := fun e => e.tag.name) (l := g.path)
    have hopened := List.findIdx?_map (p := (· == name)) (f := (·.2)) (l := g.outline.opened)
    rw [← map_opened_outline] at hpath
    exact hpath.symm.trans hopened
  rw [grow]
  split
  · next depth hsome =>
    rw [hdepth] at hsome
    rw [outline_closeMany, Outline.leave_of_eq_some hsome]
  · next hnone =>
    rw [hdepth] at hnone
    rw [Outline.leave_of_eq_none hnone]

theorem outline_grow (g : Grove) {change : Growth}
    (hbare : ∀ node, change = .leaf node → node.content = []) :
    (g.grow change).outline = g.outline.take change := by
  cases change with
  | opening tag => simp [grow, outline, outlineFrom, Outline.take, Outline.addAll, Node.outlineOf]
  | leaf node =>
    have hcontent := hbare node rfl
    rw [grow, outline_add, Outline.addAll_bare _ hcontent, Node.bare_eq hcontent]
    rfl
  | closing name line => exact outline_closing g name line

/-- The elements that are still open at the end are closed, and that leaves the nodes as they are. -/
theorem outlineOf_finish (g : Grove) : Node.outlineOf none 0 g.finish = g.outline.nodes := by
  have hpath := path_closeMany g.path.length g (Nat.le_refl _)
  have hclosed := congrArg Outline.nodes (outline_closeMany g.path.length g)
  rw [outline, hpath] at hclosed
  exact hclosed

end Grove

/-! ### From events to the tree -/

/-- Whether the text of a tag ends as the event says: in a slash and a bracket exactly for an
element without content. -/
def Event.isWhole (e : Event) : Bool :=
  match e.piece with
  | .start _ => !"/>".toList.isSuffixOf e.written
  | .empty _ => "/>".toList.isSuffixOf e.written
  | _ => true

variable {e : Event} {change : Growth}

theorem Outline.read_of_growth (o : Outline) (hwhole : e.isWhole) (h : e.growth = .ok change) :
    o.read e = o.take change := by
  obtain ⟨piece, written, offset, line⟩ := e
  cases piece with
  | start content =>
    simp only [Event.isWhole, Bool.not_eq_true'] at hwhole
    simp only [Event.growth, growthOfTag, hwhole, Bool.false_or] at h
    simp only [read]
    split at h
    · cases h
    · split at h
      · next hvoid => cases h; rw [if_pos hvoid]; rfl
      · next hvoid => cases h; rw [if_neg hvoid]; rfl
  | empty content =>
    simp only [Event.isWhole] at hwhole
    simp only [Event.growth, growthOfTag, hwhole, Bool.true_or, if_true] at h
    split at h
    · cases h
    · cases h; rfl
  | _ => cases h; rfl

/-- Nothing is in a node when it is added. -/
theorem Event.content_of_growth {node : Node} (h : e.growth = .ok (.leaf node)) :
    node.content = [] := by
  unfold growth growthOfTag at h
  split at h
  iterate 2
    dsimp only at h
    split at h
    · cases h
    · split at h <;> cases h
      rfl
  all_goals cases h
  all_goals rfl

theorem outline_foldl {events : List Event} {changes : List Growth} (g : Grove)
    (h : growths events = (changes, none)) (hwhole : ∀ e ∈ events, e.isWhole) :
    (changes.foldl Grove.grow g).outline = events.foldl Outline.read g.outline := by
  induction events generalizing changes g with
  | nil => cases h; rfl
  | cons e events ih =>
    obtain ⟨hfirst, hothers⟩ := List.forall_mem_cons.1 hwhole
    rw [growths] at h
    split at h
    · cases h
    · next change hchange =>
      cases hmore : growths events with
      | mk more failure =>
        rw [hmore] at h
        cases h
        have hbare : ∀ node, change = .leaf node → node.content = [] := by
          rintro node rfl
          exact Event.content_of_growth hchange
        rw [List.foldl_cons, List.foldl_cons, ih (g.grow change) hmore hothers,
          Grove.outline_grow g hbare, Outline.read_of_growth _ hfirst hchange]

/-- The tree that events build is the only one with their outline. -/
theorem eq_forest_iff {events : List Event} {changes : List Growth}
    (h : growths events = (changes, none)) (hwhole : ∀ e ∈ events, e.isWhole) (nodes : List Node) :
    nodes = forest changes ↔ Node.outlineOf none 0 nodes = Outline.ofEvents events := by
  have hforest : Node.outlineOf none 0 (forest changes) = Outline.ofEvents events := by
    rw [forest, Grove.outlineOf_finish, outline_foldl {} h hwhole]
    rfl
  rw [← hforest]
  exact ⟨congrArg _, Node.eq_of_outlineOf nodes (by simp)⟩

/-! ### The events of a document -/

theorem getLast?_of_readPiece {s content rest : List Char}
    (h : readPiece s = .ok (.start content, rest)) : content.getLast? ≠ some '/' := by
  unfold readPiece at h
  split at h
  · cases (suffix_of_bang h).2 []
  · cases (suffix_of_instruction h).2 []
  · split at h
    · next hcut =>
      simp only [pieceOfTag, Except.ok.injEq, Prod.mk.injEq] at h
      obtain ⟨hpiece, -⟩ := h
      split at hpiece
      · cases hpiece
      · split at hpiece
        · cases hpiece
        · next hlast => cases hpiece; exact hlast
    · cases h

theorem getLast?_of_mem_eventsFrom (offset line : Nat) (s : List Char) :
    ∀ e ∈ (eventsFrom offset line s).events, ∀ content, e.piece = .start content →
      content.getLast? ≠ some '/' := by
  fun_induction eventsFrom offset line s with
  | case1 => simp
  | case2 => simp
  | case3 offset line body piece rest hread _ written later ih =>
    refine List.forall_mem_cons.2 ⟨?_, ih⟩
    rintro content rfl
    exact getLast?_of_readPiece hread
  | case4 offset line c body hc _ written later ih =>
    refine List.forall_mem_cons.2 ⟨?_, ih⟩
    intro content hcontent
    cases hcontent

theorem isWhole_of_mem_events {source : List Char} : ∀ e ∈ (events source).events, e.isWhole := by
  intro e he
  have htag := (isPlaced_eventsFrom 0 1 source e he).isTag
  have hlast := getLast?_of_mem_eventsFrom 0 1 source e he
  unfold Event.isWhole
  split
  · next content hpiece =>
    rw [hpiece] at htag
    have hcontent := hlast content hpiece
    rw [Bool.not_eq_true', ← Bool.not_eq_true, List.isSuffixOf_iff_suffix, htag]
    rintro ⟨front, hfront⟩
    -- Otherwise the content would end in the slash.
    have hslash : front ++ ['/'] = '<' :: content :=
      List.append_cancel_right ((List.append_assoc front ['/'] ['>']).trans hfront)
    have hends := congrArg List.getLast? hslash
    rw [List.getLast?_concat] at hends
    cases content with
    | nil => cases hends
    | cons c content => exact hcontent (hends.trans List.getLast?_cons_cons).symm
  · next content hpiece =>
    rw [hpiece] at htag
    rw [List.isSuffixOf_iff_suffix, htag]
    exact ⟨'<' :: content, rfl⟩
  · rfl

theorem documentEvents_eq {source : List Char} (h : source.head? ≠ some byteOrderMark) :
    documentEvents source = events source := by
  cases source with
  | nil => rfl
  | cons c rest => exact if_neg fun hc => h (congrArg some hc)

/-- When a document is read as a tree, and as which. -/
theorem readTree_eq_ok_iff {source : List Char} {nodes : List Node} :
    (readTree source).outcome = .ok nodes ↔ (documentEvents source).failure = none ∧
      (growths (documentEvents source).events).2 = none ∧
      nodes = forest (growths (documentEvents source).events).1 := by
  unfold readTree
  dsimp only
  split
  · next failure hfailure =>
    constructor
    · intro h
      cases h
    · rintro ⟨hread, hgrowths, -⟩
      rw [hgrowths, hread] at hfailure
      cases hfailure
  · next hnone =>
    obtain ⟨hgrowths, hread⟩ := Option.or_eq_none_iff.1 hnone
    rw [Option.map_eq_none_iff] at hread
    constructor
    · intro h
      cases h
      exact ⟨hread, hgrowths, rfl⟩
    · rintro ⟨-, -, rfl⟩
      rfl

/-- The tree that events build is the one that has their outline, whatever the events are. A
document is read as the tree that has the outline of its events, and as none if one of them is not
understood. With a byte order mark in front, this does not hold. -/
theorem outline_forest (events : List Event) (source : List Char) (nodes : List Node) :
    ((growths events).2 = none → (∀ e ∈ events, e.isWhole) →
      (nodes = forest (growths events).1 ↔
        Node.outlineOf none 0 nodes = Outline.ofEvents events)) ∧
    (source.head? ≠ some byteOrderMark →
      ((readTree source).outcome = .ok nodes ↔ (documentEvents source).failure = none ∧
        (growths (documentEvents source).events).2 = none ∧
        Node.outlineOf none 0 nodes = Outline.ofEvents (documentEvents source).events)) := by
  refine ⟨fun h hwhole => eq_forest_iff (Prod.ext rfl h) hwhole nodes, ?_⟩
  intro hmark
  have hwhole : ∀ e ∈ (documentEvents source).events, e.isWhole := by
    rw [documentEvents_eq hmark]
    exact isWhole_of_mem_events
  rw [readTree_eq_ok_iff]
  refine and_congr_right fun _ => and_congr_right fun hgrowths => ?_
  exact eq_forest_iff (Prod.ext rfl hgrowths) hwhole nodes

/-- An end tag for what is outside closes what is inside, and the end tag behind it does nothing. -/
theorem outline_forest_wrongNesting :
    ∃ nodes, (readTree "<a><b>x</a></b><br>y".toList).outcome = .ok nodes ∧
      (Node.outlineOf none 0 nodes).map (·.parent) = [none, some 0, some 1, none, none] := by
  let source := "<a><b>x</a></b><br>y".toList
  let read := documentEvents source
  have hfailure : read.failure = none := by decide +kernel
  have hgrowths : (growths read.events).2 = none := by decide +kernel
  have hwhole : read.events.all Event.isWhole := by decide +kernel
  have hparents : (Outline.ofEvents read.events).map (·.parent) =
      [none, some 0, some 1, none, none] := by decide +kernel
  obtain ⟨hbuilt, hread⟩ := outline_forest read.events source (forest (growths read.events).1)
  have houtline := (hbuilt hgrowths (List.all_eq_true.1 hwhole)).1 rfl
  refine ⟨_, (hread (by decide)).2 ⟨hfailure, hgrowths, houtline⟩, ?_⟩
  rw [houtline]
  exact hparents

/-- Behind a byte order mark, an element without content is left open, because its slash is looked
for at a place three bytes earlier. -/
theorem not_forall_outline_markedDocument :
    ¬ ∀ source nodes, (readTree source).outcome = .ok nodes →
      Node.outlineOf none 0 nodes = Outline.ofEvents (documentEvents source).events := by
  intro h
  let source := byteOrderMark :: "<a/>b".toList
  have hparents : (Node.outlineOf none 0 (forest (growths (documentEvents source).events).1)).map
      (·.parent) ≠ (Outline.ofEvents (documentEvents source).events).map (·.parent) := by
    decide +kernel
  refine hparents (congrArg _ (h source _ (readTree_eq_ok_iff.2 ⟨?_, ?_, rfl⟩)))
  · decide +kernel
  · decide +kernel

end PotExtract.Markup
