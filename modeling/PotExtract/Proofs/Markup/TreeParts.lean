import PotExtract.Markup.Document
import PotExtract.Proofs.Outcome

/-! The tags and texts of a tree, in the order of the document. However elements are closed, they
are those of the events that the tree is built from. -/

namespace PotExtract.Markup

/-- A start of an element, or a text. -/
inductive TreePart where
  | tag (tag : Tag)
  | text (text : String) (line : Nat)

mutual

/-- The tags and texts of a node. -/
def Node.parts : Node → List TreePart
  | .element tag children => .tag tag :: Node.partsOf children
  | .text s line => [.text s line]
  | _ => []

/-- The tags and texts of nodes in a row. -/
def Node.partsOf : List Node → List TreePart
  | [] => []
  | node :: rest => node.parts ++ Node.partsOf rest

end

theorem Node.partsOf_append (nodes more : List Node) :
    Node.partsOf (nodes ++ more) = Node.partsOf nodes ++ Node.partsOf more := by
  induction nodes with
  | nil => rfl
  | cons node nodes ih => simp [Node.partsOf, ih]

/-- The tags and texts that a change adds. -/
def Growth.parts : Growth → List TreePart
  | .opening tag => [.tag tag]
  | .leaf node => node.parts
  | .closing _ _ => []

/-- The tags and texts of an open element. -/
def OpenElement.parts (e : OpenElement) : List TreePart :=
  .tag e.tag :: Node.partsOf e.children

namespace Grove

/-- The tags and texts of a tree that grows. -/
def parts (g : Grove) : List TreePart :=
  Node.partsOf g.roots ++ g.path.reverse.flatMap OpenElement.parts

theorem parts_add (g : Grove) (node : Node) : (g.add node).parts = g.parts ++ node.parts := by
  unfold add parts
  split
  · next hpath => simp [hpath, Node.partsOf_append, Node.partsOf]
  · next e outer hpath => simp [hpath, OpenElement.parts, Node.partsOf_append, Node.partsOf]

theorem parts_closeOne (g : Grove) : g.closeOne.parts = g.parts := by
  unfold closeOne
  split
  · rfl
  · next e outer hpath =>
    rw [parts_add]
    simp [parts, hpath, OpenElement.parts, Node.parts]

theorem parts_closeMany (n : Nat) (g : Grove) : (closeMany n g).parts = g.parts := by
  induction n generalizing g with
  | zero => rfl
  | succ n ih => rw [closeMany, ih, parts_closeOne]

theorem parts_grow (g : Grove) (change : Growth) :
    (g.grow change).parts = g.parts ++ change.parts := by
  cases change with
  | opening tag => simp [grow, parts, Growth.parts, OpenElement.parts, Node.partsOf]
  | leaf node => exact parts_add g node
  | closing name line =>
    rw [Growth.parts, List.append_nil, grow]
    split
    · exact parts_closeMany _ g
    · rfl

theorem parts_foldl (changes : List Growth) (g : Grove) :
    (changes.foldl grow g).parts = g.parts ++ changes.flatMap Growth.parts := by
  induction changes generalizing g with
  | nil => simp
  | cons change changes ih => rw [List.foldl_cons, ih, parts_grow, List.append_assoc]; rfl

theorem length_path_closeOne (g : Grove) : g.closeOne.path.length = g.path.length - 1 := by
  unfold closeOne
  split
  · next hpath => simp [hpath]
  · next e outer hpath =>
    rw [hpath]
    cases outer with
    | nil => rfl
    | cons e' outer => rfl

theorem path_closeMany (n : Nat) (g : Grove) (h : g.path.length ≤ n) :
    (closeMany n g).path = [] := by
  induction n generalizing g with
  | zero => exact List.eq_nil_of_length_eq_zero (Nat.le_zero.1 h)
  | succ n ih =>
    rw [closeMany]
    apply ih
    rw [length_path_closeOne]
    omega

theorem partsOf_finish (g : Grove) : Node.partsOf g.finish = g.parts := by
  have hpath := path_closeMany g.path.length g (Nat.le_refl _)
  have hparts := parts_closeMany g.path.length g
  rw [← hparts, parts, hpath, finish]
  simp

end Grove

/-- A tree has the tags and texts of the changes that build it. -/
theorem partsOf_forest (changes : List Growth) :
    Node.partsOf (forest changes) = changes.flatMap Growth.parts := by
  rw [forest, Grove.partsOf_finish, Grove.parts_foldl]
  rfl

theorem exists_event_of_growths {events : List Event} {changes : List Growth} {change : Growth}
    (h : growths events = (changes, none)) (hchange : change ∈ changes) :
    ∃ e ∈ events, e.growth = .ok change := by
  induction events generalizing changes with
  | nil =>
    cases h
    cases hchange
  | cons e events ih =>
    rw [growths] at h
    split at h
    · cases h
    · next first hfirst =>
      cases hmore : growths events with
      | mk more failure =>
        rw [hmore] at h
        cases h
        rcases List.mem_cons.1 hchange with rfl | hchange
        · exact ⟨e, List.mem_cons_self, hfirst⟩
        · obtain ⟨e', he', hgrowth⟩ := ih hmore hchange
          exact ⟨e', List.mem_cons_of_mem e he', hgrowth⟩

/-- Where a tag or a text of a tree comes from. -/
theorem exists_event_of_readTree {source : List Char} {nodes : List Node} {part : TreePart}
    (h : (readTree source).outcome = .ok nodes) (hpart : part ∈ Node.partsOf nodes) :
    ∃ e ∈ (documentEvents source).events, ∃ change,
      e.growth = .ok change ∧ part ∈ change.parts := by
  unfold readTree at h
  cases hgrowths : growths (documentEvents source).events with
  | mk changes failure =>
    simp only [hgrowths] at h
    split at h
    · cases h
    · next hnone =>
      cases h
      obtain ⟨rfl, -⟩ := Option.or_eq_none_iff.1 hnone
      rw [partsOf_forest] at hpart
      obtain ⟨change, hchange, hpart⟩ := List.mem_flatMap.1 hpart
      obtain ⟨e, he, hgrowth⟩ := exists_event_of_growths hgrowths hchange
      exact ⟨e, he, change, hgrowth, hpart⟩

end PotExtract.Markup
