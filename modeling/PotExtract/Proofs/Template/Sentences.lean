import Mathlib.Data.List.Forall2
import PotExtract.Proofs.Template.Finds

/-! The sentences of a walk. All elements share one list of them and refer to them by place, and yet
what is read inside of an element is written into its own sentence and into those that are begun
there: each other one that was there stays as it was. -/

namespace PotExtract.Template

open Text Markup

variable {ctx : ScanContext}

/-! ### Writing into sentences -/

/-- The sentence with more at its end. -/
def Sentence.extend (s : Sentence) (pieces : List String) (named : List (String × Nat)) :
    Sentence :=
  { s with pieces := s.pieces ++ pieces, named := s.named ++ named }

theorem Sentence.extend_nil (s : Sentence) : s.extend [] [] = s := by
  simp only [extend, List.append_nil]

theorem Sentence.extend_extend (s : Sentence) (pieces pieces' : List String)
    (named named' : List (String × Nat)) :
    (s.extend pieces named).extend pieces' named' =
      s.extend (pieces ++ pieces') (named ++ named') := by
  simp only [extend, List.append_assoc]

/-- `after` has the sentences of `before`, the current one with more at its end and each other one
as it was. -/
structure ReadsInto (current : Option Nat) (pieces : List String) (named : List (String × Nat))
    (before after : List Sentence) : Prop where
  length_le : before.length ≤ after.length
  own : ∀ {i s}, before[i]? = some s → current = some i →
    after[i]? = some (s.extend pieces named)
  other : ∀ {i s}, before[i]? = some s → current ≠ some i → after[i]? = some s

namespace ReadsInto

variable {current inner : Option Nat} {pieces pieces' : List String}
  {named named' : List (String × Nat)} {a b c : List Sentence}

theorem refl (current : Option Nat) (a : List Sentence) : ReadsInto current [] [] a a :=
  ⟨Nat.le_refl _, fun {_ s} h _ => by rw [h, s.extend_nil], fun h _ => h⟩

theorem trans (h : ReadsInto current pieces named a b) (h' : ReadsInto current pieces' named' b c) :
    ReadsInto current (pieces ++ pieces') (named ++ named') a c where
  length_le := Nat.le_trans h.length_le h'.length_le
  own hs hi := by rw [h'.own (h.own hs hi) hi, Sentence.extend_extend]
  other hs hi := h'.other (h.other hs hi) hi

/-- What is written into a later sentence changes nothing for the earlier ones. -/
theorem trans_later (h : ReadsInto current pieces named a b) (h' : ReadsInto inner pieces' named' b c)
    (hinner : ∀ i ∈ inner, a.length ≤ i) : ReadsInto current pieces named a c := by
  have hne : ∀ {i s}, a[i]? = some s → inner ≠ some i := by
    intro i s hs heq
    have hlt : i < a.length := (List.getElem?_eq_some_iff.1 hs).1
    exact absurd (hinner i heq) (Nat.not_le.2 hlt)
  exact ⟨Nat.le_trans h.length_le h'.length_le,
    fun hs hi => h'.other (h.own hs hi) (hne hs), fun hs hi => h'.other (h.other hs hi) (hne hs)⟩

theorem concat (current : Option Nat) (a : List Sentence) (s : Sentence) :
    ReadsInto current [] [] a (a ++ [s]) where
  length_le := by simp
  own {i s'} h _ := by
    rw [s'.extend_nil, List.getElem?_append_left (List.getElem?_eq_some_iff.1 h).1, h]
  other h _ := by rw [List.getElem?_append_left (List.getElem?_eq_some_iff.1 h).1, h]

theorem modify (i : Nat) (pieces : List String) (named : List (String × Nat))
    (a : List Sentence) :
    ReadsInto (some i) pieces named a (a.modify i fun s => s.extend pieces named) where
  length_le := by simp
  own h hi := by
    cases hi
    simp [h]
  other h hi := by
    have hne : i ≠ _ := fun heq => hi (congrArg some heq)
    simp [hne, h]

end ReadsInto

/-! ### Reading and beginning sentences -/

namespace Walk

variable {w : Walk} {inner : Frame} {tag : Tag} {msgid : String}

/-- The sentence that is read is there. -/
def IsOpen (w : Walk) : Prop :=
  ∀ i ∈ w.current?, i < w.sentences.length

/-- The characters of the sentence that is read. -/
def soFar (w : Walk) : Option (List Char) :=
  w.current?.map fun i => (w.sentences[i]?.map fun s => s.pieces.flatMap String.toList).getD []

theorem read_eq (w : Walk) (piece : String) :
    w.read piece = { w with sentences := (w.read piece).sentences } := by
  unfold read
  cases w.current? <;> rfl

theorem beginSentence_eq (w : Walk) (inner : Frame) (tag : Tag) (msgid : String) :
    w.beginSentence inner tag msgid =
      { w with sentences := (w.beginSentence inner tag msgid).sentences } := by
  unfold beginSentence
  cases w.current? with
  | none => rfl
  | some i => cases inner.filledMark? tag "name" <;> rfl

theorem readsInto_read (w : Walk) (piece : String) :
    ReadsInto w.current? [piece] [] w.sentences (w.read piece).sentences := by
  unfold read
  cases hcurrent : w.current? with
  | none => exact ⟨Nat.le_refl _, fun _ h => (nomatch h), fun h _ => h⟩
  | some i =>
    have hmodify := ReadsInto.modify i [piece] [] w.sentences
    simpa only [Sentence.extend, List.append_nil] using hmodify

/-- The reference that the sentence around an element has to its sentence `i`. -/
def reference (inner : Frame) (tag : Tag) (i : Nat) : List (String × Nat) :=
  ((inner.filledMark? tag "name").map fun name => (name, i)).toList

theorem readsInto_beginSentence (w : Walk) (inner : Frame) (tag : Tag) (msgid : String) :
    ReadsInto w.current? [] (reference inner tag w.sentences.length) w.sentences
      (w.beginSentence inner tag msgid).sentences := by
  unfold beginSentence reference
  cases w.current? with
  | none =>
    have hnew := ReadsInto.concat none w.sentences
    exact ⟨(hnew _).length_le, fun _ h => (nomatch h), (hnew _).other⟩
  | some i =>
    cases inner.filledMark? tag "name" with
    | none => exact ReadsInto.concat _ _ _
    | some name =>
      have hmodify := ReadsInto.modify i [] [(name, w.sentences.length)]
      simp only [Sentence.extend, List.append_nil] at hmodify
      exact (ReadsInto.concat (some i) w.sentences _).trans (hmodify _)

theorem getElem?_beginSentence (hopen : w.IsOpen) (inner : Frame) (tag : Tag) (msgid : String) :
    (w.beginSentence inner tag msgid).sentences[w.sentences.length]? = some {
      scope := inner.scope
      msgid := if (trimmed msgid).isEmpty then none else some (trimmed msgid)
      parent := w.current?
      line := tag.line } := by
  unfold beginSentence
  cases hcurrent : w.current? with
  | none => simp
  | some i =>
    have hne : i ≠ w.sentences.length := Nat.ne_of_lt (hopen i hcurrent)
    cases inner.filledMark? tag "name" <;> simp [hne]

theorem openSentence_fst (w : Walk) (inner : Frame) (tag : Tag) :
    (w.openSentence inner tag).1 =
      (inner.mark? tag "translate").map fun _ => w.sentences.length := by
  unfold openSentence
  cases inner.mark? tag "translate" <;> rfl

theorem openSentence_snd (w : Walk) (inner : Frame) (tag : Tag) :
    (w.openSentence inner tag).2 =
      { w with sentences := (w.openSentence inner tag).2.sentences } := by
  unfold openSentence
  cases inner.mark? tag "translate" with
  | none => rfl
  | some msgid => exact w.beginSentence_eq inner tag msgid

theorem readsInto_openSentence (w : Walk) (inner : Frame) (tag : Tag) :
    ReadsInto w.current? [] ((w.openSentence inner tag).1.toList.flatMap (reference inner tag))
      w.sentences (w.openSentence inner tag).2.sentences := by
  unfold openSentence
  cases inner.mark? tag "translate" with
  | none => exact .refl _ _
  | some msgid =>
    have hreads := w.readsInto_beginSentence inner tag msgid
    simpa using hreads

theorem getElem?_openSentence (hopen : w.IsOpen) (hmark : inner.mark? tag "translate" = some msgid) :
    (w.openSentence inner tag).2.sentences[w.sentences.length]? = some {
      scope := inner.scope
      msgid := if (trimmed msgid).isEmpty then none else some (trimmed msgid)
      parent := w.current?
      line := tag.line } := by
  rw [openSentence, hmark]
  exact getElem?_beginSentence hopen inner tag msgid

end Walk

/-! ### Visits of nodes -/

/-- The piece that a node adds to the sentence around it. -/
def piece? (f : Frame) : Node → Option String
  | .text text _ => some text
  | .element tag _ => some (elementText f tag)
  | _ => none

theorem flatMap_piece? (f : Frame) (nodes : List Node) :
    (nodes.filterMap (piece? f)).flatMap String.toList = nodes.flatMap (nodeText f) := by
  induction nodes with
  | nil => rfl
  | cons node nodes ih => cases node <;> simp [List.filterMap_cons, piece?, nodeText, ih]

/-- References to sentences that have been begun behind the first `start`, with their texts. -/
def Names (start : Nat) (sentences : List Sentence) (references : List (String × Nat))
    (named : List (String × String)) : Prop :=
  List.Forall₂ (fun r n => r.1 = n.1 ∧ start ≤ r.2 ∧ sentences[r.2]?.map Sentence.text = some n.2)
    references named

/-- What is written into an earlier sentence leaves the texts of later ones. -/
theorem Names.readsInto {start : Nat} {a b : List Sentence} {references : List (String × Nat)}
    {named : List (String × String)} (h : Names start a references named) {current : Option Nat}
    {pieces : List String} {more : List (String × Nat)} (hreads : ReadsInto current pieces more a b)
    (hcurrent : ∀ i ∈ current, i < start) : Names start b references named := by
  refine h.imp fun r n ⟨hname, hstart, htext⟩ => ⟨hname, hstart, ?_⟩
  obtain ⟨s, hs, htext⟩ := Option.map_eq_some_iff.1 htext
  have hne : current ≠ some r.2 := fun heq => absurd (hcurrent _ heq) (Nat.not_lt.2 hstart)
  rw [hreads.other hs hne, Option.map_some, htext]

theorem Names.mono {start start' : Nat} {sentences : List Sentence}
    {references : List (String × Nat)} {named : List (String × String)}
    (h : Names start sentences references named) (hle : start' ≤ start) :
    Names start' sentences references named :=
  h.imp fun _ _ ⟨hname, hstart, htext⟩ => ⟨hname, Nat.le_trans hle hstart, htext⟩

theorem Names.map_text {w : Walk} {start : Nat} {references : List (String × Nat)}
    {named : List (String × String)} (h : Names start w.sentences references named) :
    references.map (fun r => (r.1, w.text r.2)) = named := by
  induction h with
  | nil => rfl
  | cons hhead _ ih =>
    obtain ⟨hname, -, htext⟩ := hhead
    rw [List.map_cons, ih, Walk.text, htext, hname]
    rfl

namespace Walk

/-- What a visit of nodes leaves: the stacks as they were, the current sentence with what the nodes
add to it, and each other sentence that was there as it was. -/
structure Visits (nodes : List Node) (before after : Walk) : Prop where
  namespaces : after.namespaces = before.namespaces
  scopes : after.scopes = before.scopes
  translate : after.translate = before.translate
  sentences : ∃ references,
    ReadsInto before.current? (nodes.filterMap (piece? before.frame)) references
      before.sentences after.sentences ∧
    Names before.sentences.length after.sentences references (namedSentences before.frame nodes)

namespace Visits

variable {nodes more : List Node} {a b c : Walk}

theorem frame (h : Visits nodes a b) : b.frame = a.frame := by
  rw [Walk.frame, Walk.frame, h.namespaces, h.scopes]

theorem current? (h : Visits nodes a b) : b.current? = a.current? := by
  rw [Walk.current?, Walk.current?, h.translate]

theorem isOpen (h : Visits nodes a b) (hopen : a.IsOpen) : b.IsOpen := by
  obtain ⟨_, hreads, -⟩ := h.sentences
  intro i hi
  rw [h.current?] at hi
  exact Nat.lt_of_lt_of_le (hopen i hi) hreads.length_le

theorem trans (h : Visits nodes a b) (h' : Visits more b c) (hopen : a.IsOpen) :
    Visits (nodes ++ more) a c where
  namespaces := h'.namespaces.trans h.namespaces
  scopes := h'.scopes.trans h.scopes
  translate := h'.translate.trans h.translate
  sentences := by
    obtain ⟨references, hreads, hnames⟩ := h.sentences
    obtain ⟨later, hreads', hnames'⟩ := h'.sentences
    rw [h.current?, h.frame] at hreads'
    rw [h.frame] at hnames'
    refine ⟨references ++ later, ?_, ?_⟩
    · rw [List.filterMap_append]
      exact hreads.trans hreads'
    · have hfirst := hnames.readsInto hreads' hopen
      have hlater := hnames'.mono hreads.length_le
      rw [namedSentences, List.filterMap_append]
      exact List.rel_append hfirst hlater

theorem soFar (h : Visits nodes a b) (hopen : a.IsOpen) :
    b.soFar = a.soFar.map (· ++ nodes.flatMap (nodeText a.frame)) := by
  obtain ⟨_, hreads, -⟩ := h.sentences
  rw [Walk.soFar, Walk.soFar, h.current?, Option.map_map]
  refine Option.map_congr fun i hi => ?_
  obtain ⟨s, hs⟩ : ∃ s, a.sentences[i]? = some s :=
    ⟨_, List.getElem?_eq_getElem (hopen i hi)⟩
  rw [hreads.own hs hi, Function.comp_apply, hs, ← flatMap_piece?]
  simp [Sentence.extend]

end Visits

end Walk

/-! ### Elements -/

/-- What a walk leaves that differs from another one in messages and remarks alone. -/
structure Walk.SaysMore (before after : Walk) : Prop where
  namespaces : after.namespaces = before.namespaces
  scopes : after.scopes = before.scopes
  translate : after.translate = before.translate
  sentences : after.sentences = before.sentences

theorem Walk.SaysMore.refl (w : Walk) : w.SaysMore w := ⟨rfl, rfl, rfl, rfl⟩

theorem Walk.SaysMore.trans {a b c : Walk} (h : a.SaysMore b) (h' : b.SaysMore c) :
    a.SaysMore c :=
  ⟨h'.namespaces.trans h.namespaces, h'.scopes.trans h.scopes, h'.translate.trans h.translate,
    h'.sentences.trans h.sentences⟩

namespace Walk

/-- What a visit of the start of an element leaves, whose sentence is `own`. -/
structure Enters (tag : Tag) (before : Walk) (own : Option Nat) (after : Walk) : Prop where
  own_eq : own =
    ((before.frame.enter tag).mark? tag "translate").map fun _ => before.sentences.length
  namespaces : after.namespaces = (before.frame.enter tag).namespaces :: before.namespaces
  scopes : after.scopes = (before.frame.enter tag).scope :: before.scopes
  translate : after.translate = own :: before.translate
  reads : ReadsInto before.current? [elementText before.frame tag]
    (own.toList.flatMap (reference (before.frame.enter tag) tag)) before.sentences after.sentences
  begun : ∀ msgid, (before.frame.enter tag).mark? tag "translate" = some msgid →
    after.sentences[before.sentences.length]? = some {
      scope := (before.frame.enter tag).scope
      msgid := if (trimmed msgid).isEmpty then none else some (trimmed msgid)
      parent := before.current?
      line := tag.line }

theorem length_read (w : Walk) (piece : String) :
    (w.read piece).sentences.length = w.sentences.length := by
  unfold read
  cases w.current? <;> simp

/-- The state with the namespaces of an element and its placeholder in the sentence around it. -/
def announced (w : Walk) (tag : Tag) : Walk :=
  ({ w with namespaces := (w.frame.enter tag).namespaces :: w.namespaces } : Walk).read
    (elementText w.frame tag)

/-- The sentence of an element, and the state before the code in its attributes. -/
def opened (ctx : ScanContext) (w : Walk) (tag : Tag) : Option Nat × Walk :=
  let (own, begun) := (w.announced tag).openSentence (w.frame.enter tag) tag
  (own, { begun with messages := begun.messages ++ attributeMessages ctx (w.frame.enter tag) tag })

theorem announced_eq (w : Walk) (tag : Tag) :
    w.announced tag = { w with
      namespaces := (w.frame.enter tag).namespaces :: w.namespaces
      sentences := (w.announced tag).sentences } :=
  read_eq _ _

theorem opened_snd (w : Walk) (tag : Tag) :
    (w.opened ctx tag).2 = { w with
      namespaces := (w.frame.enter tag).namespaces :: w.namespaces
      sentences := ((w.announced tag).openSentence (w.frame.enter tag) tag).2.sentences
      messages := w.messages ++ attributeMessages ctx (w.frame.enter tag) tag } := by
  show ({ ((w.announced tag).openSentence (w.frame.enter tag) tag).2 with
    messages := ((w.announced tag).openSentence (w.frame.enter tag) tag).2.messages ++
      attributeMessages ctx (w.frame.enter tag) tag } : Walk) = _
  rw [openSentence_snd, announced_eq]

theorem enters_opened {w later : Walk} {tag : Tag} (hopen : w.IsOpen)
    (h : (w.opened ctx tag).2.SaysMore later) :
    Enters tag w (w.opened ctx tag).1 { later with
      scopes := (w.frame.enter tag).scope :: later.scopes
      translate := (w.opened ctx tag).1 :: later.translate } := by
  have hlength : (w.announced tag).sentences.length = w.sentences.length := length_read _ _
  have hcurrent : (w.announced tag).current? = w.current? := by
    rw [announced_eq]
    rfl
  have hannounced : ReadsInto w.current? [elementText w.frame tag] [] w.sentences
      (w.announced tag).sentences :=
    readsInto_read { w with namespaces := (w.frame.enter tag).namespaces :: w.namespaces } _
  have hbegun := (w.announced tag).readsInto_openSentence (w.frame.enter tag) tag
  rw [hcurrent] at hbegun
  rw [opened_snd] at h
  refine ⟨?_, h.namespaces, congrArg _ h.scopes, congrArg _ h.translate, ?_, fun msgid hmark => ?_⟩
  · rw [← hlength]
    exact openSentence_fst _ _ _
  · have hsentences := h.sentences
    dsimp only at hsentences ⊢
    rw [hsentences]
    exact hannounced.trans hbegun
  · have hopen' : (w.announced tag).IsOpen := by
      rw [IsOpen, hcurrent, hlength]
      exact hopen
    have hsentences := h.sentences
    have hown := getElem?_openSentence hopen' hmark
    dsimp only at hsentences ⊢
    rwa [hlength, hcurrent, ← hsentences] at hown

section

variable {a b c : Walk} {tag : Tag} {children : List Node} {own : Option Nat}

theorem Enters.frame (h : Enters tag a own b) : b.frame = a.frame.enter tag := by
  rw [Walk.frame, h.namespaces, h.scopes]
  rfl

theorem Enters.current? (h : Enters tag a own b) : b.current? = own := by
  rw [Walk.current?, h.translate]
  rfl

/-- The sentence of an element is the first that is begun there. -/
theorem Enters.eq_length (h : Enters tag a own b) {i : Nat} (hi : i ∈ own) :
    i = a.sentences.length := by
  rw [h.own_eq, Option.mem_def, Option.map_eq_some_iff] at hi
  obtain ⟨_, -, hi⟩ := hi
  exact hi.symm

theorem Enters.exists_msgid (h : Enters tag a own b) {i : Nat} (hi : i ∈ own) :
    ∃ msgid, (a.frame.enter tag).mark? tag "translate" = some msgid := by
  rw [h.own_eq, Option.mem_def, Option.map_eq_some_iff] at hi
  obtain ⟨msgid, hmark, -⟩ := hi
  exact ⟨msgid, hmark⟩

theorem Enters.isOpen (h : Enters tag a own b) : b.IsOpen := by
  intro i hi
  rw [h.current?] at hi
  obtain ⟨msgid, hmark⟩ := h.exists_msgid hi
  rw [h.eq_length hi]
  exact (List.getElem?_eq_some_iff.1 (h.begun msgid hmark)).1

theorem Enters.soFar (h : Enters tag a own b) :
    b.soFar = ((a.frame.enter tag).mark? tag "translate").map fun _ => [] := by
  rw [Walk.soFar, h.current?, h.own_eq, Option.map_map]
  refine Option.map_congr fun msgid hmark => ?_
  rw [Function.comp_apply, h.begun msgid hmark]
  rfl

/-- What is read inside of an element is read into its own sentence. -/
theorem Enters.exists_read (h : Enters tag a own b) (hv : Visits children b c) {msgid : String}
    (hmark : (a.frame.enter tag).mark? tag "translate" = some msgid) : ∃ s,
      c.sentences[a.sentences.length]? = some s ∧
      s.scope = (a.frame.enter tag).scope ∧ s.line = tag.line ∧ s.parent = a.current? ∧
      s.msgid = (if (trimmed msgid).isEmpty then none else some (trimmed msgid)) ∧
      s.text = sentence (a.frame.enter tag) children ∧
      Names b.sentences.length c.sentences s.named
        (namedSentences (a.frame.enter tag) children) := by
  obtain ⟨references, hreads, hnames⟩ := hv.sentences
  have hown : b.current? = some a.sentences.length := by
    rw [h.current?, h.own_eq, hmark]
    rfl
  rw [h.frame] at hreads hnames
  refine ⟨_, hreads.own (h.begun msgid hmark) hown, rfl, rfl, rfl, rfl, ?_, ?_⟩
  · rw [Sentence.text, Sentence.extend, List.nil_append, flatMap_piece?]
    rfl
  · rw [Sentence.extend, List.nil_append]
    exact hnames

/-- What is read inside of an element changes no sentence outside of it. -/
theorem Enters.reads_inside (h : Enters tag a own b) (hv : Visits children b c) :
    ReadsInto a.current? [elementText a.frame tag]
      (own.toList.flatMap (reference (a.frame.enter tag) tag)) a.sentences c.sentences := by
  obtain ⟨_, hreads, -⟩ := hv.sentences
  refine h.reads.trans_later hreads fun i hi => ?_
  rw [h.current?] at hi
  exact Nat.le_of_eq (h.eq_length hi).symm

theorem Enters.text_parent (h : Enters tag a own b) (hv : Visits children b c) (hopen : a.IsOpen) :
    a.current?.map c.text =
      (a.soFar.map (· ++ nodeText a.frame (.element tag children))).map fun text =>
        String.ofList (normalize text) := by
  rw [Walk.soFar, Option.map_map, Option.map_map]
  refine Option.map_congr fun i hi => ?_
  obtain ⟨s, hs⟩ : ∃ s, a.sentences[i]? = some s := ⟨_, List.getElem?_eq_getElem (hopen i hi)⟩
  rw [Walk.text, (h.reads_inside hv).own hs hi]
  simp [hs, Sentence.text, Sentence.extend, nodeText]

theorem Enters.names (h : Enters tag a own b) (hv : Visits children b c) :
    Names a.sentences.length c.sentences
      (own.toList.flatMap (reference (a.frame.enter tag) tag))
      (namedSentences a.frame [.element tag children]) := by
  rw [h.own_eq]
  cases hmark : (a.frame.enter tag).mark? tag "translate" with
  | none =>
    have hnone : namedSentences a.frame [.element tag children] = [] := by
      simp [namedSentences, hmark]
    rw [hnone]
    exact .nil
  | some msgid =>
    obtain ⟨s, hs, -, -, -, -, htext, -⟩ := h.exists_read hv hmark
    rw [Option.map_some, Option.toList_some, List.flatMap_singleton, reference]
    cases hname : (a.frame.enter tag).filledMark? tag "name" with
    | none =>
      have hnone : namedSentences a.frame [.element tag children] = [] := by
        simp [namedSentences, hmark, hname]
      rw [hnone]
      exact .nil
    | some name =>
      have hsome : namedSentences a.frame [.element tag children] =
          [(name, sentence (a.frame.enter tag) children)] := by
        simp [namedSentences, hmark, hname]
      rw [hsome]
      exact .cons ⟨rfl, Nat.le_refl _, by rw [hs, Option.map_some, htext]⟩ .nil

theorem Enters.visits (h : Enters tag a own b) (hv : Visits children b c) {d : Walk}
    (hnamespaces : d.namespaces = c.namespaces.tail) (hscopes : d.scopes = c.scopes.tail)
    (htranslate : d.translate = c.translate.tail) (hsentences : d.sentences = c.sentences) :
    Visits [.element tag children] a d where
  namespaces := by rw [hnamespaces, hv.namespaces, h.namespaces, List.tail_cons]
  scopes := by rw [hscopes, hv.scopes, h.scopes, List.tail_cons]
  translate := by rw [htranslate, hv.translate, h.translate, List.tail_cons]
  sentences := by
    rw [hsentences]
    exact ⟨_, h.reads_inside hv, h.names hv⟩

end

end Walk

end PotExtract.Template
