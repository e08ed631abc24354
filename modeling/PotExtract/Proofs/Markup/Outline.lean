import Mathlib.Data.List.TakeWhile
import PotExtract.Markup.Tree

/-! The outline of a tree: its nodes in the order of the document, each with the place of the element
that it is directly in. A tree is determined by its outline. -/

namespace PotExtract.Markup

/-- A node of an outline, without its content, and the place in the outline of the element that it is
directly in. -/
structure Outlined where
  node : Node
  parent : Option Nat

namespace Node

mutual

/-- The outline of a node that comes at a place of the outline, and of what is in it. -/
def outline (parent : Option Nat) (place : Nat) : Node → List Outlined
  | .element tag children =>
    ⟨.element tag [], parent⟩ :: outlineOf (some place) (place + 1) children
  | node => [⟨node, parent⟩]

/-- The outline of nodes in a row, from a place on. -/
def outlineOf (parent : Option Nat) (place : Nat) : List Node → List Outlined
  | [] => []
  | node :: rest =>
    let own := node.outline parent place
    own ++ outlineOf parent (place + own.length) rest

end

/-- The node without its content. -/
def bare : Node → Node
  | .element tag _ => .element tag []
  | node => node

/-- What is in a node. -/
def content : Node → List Node
  | .element _ children => children
  | _ => []

theorem outline_eq (parent : Option Nat) (place : Nat) (node : Node) :
    node.outline parent place =
      ⟨node.bare, parent⟩ :: outlineOf (some place) (place + 1) node.content := by
  cases node <;> rfl

theorem bare_eq {node : Node} (h : node.content = []) : node.bare = node := by
  cases node with
  | element tag children => exact congrArg (element tag) h.symm
  | _ => rfl

theorem eq_of_bare_of_content {node other : Node} (hbare : node.bare = other.bare)
    (hcontent : node.content = other.content) : node = other := by
  cases node <;> cases other <;> simp_all [bare, content]

theorem outlineOf_append (parent : Option Nat) (place : Nat) (nodes more : List Node) :
    outlineOf parent place (nodes ++ more) = outlineOf parent place nodes ++
      outlineOf parent (place + (outlineOf parent place nodes).length) more := by
  induction nodes generalizing place with
  | nil => rfl
  | cons node nodes ih =>
    simp only [List.cons_append, outlineOf, ih, List.append_assoc, List.length_append,
      Nat.add_assoc]

theorem eq_nil_of_outlineOf {nodes : List Node} {parent : Option Nat} {place : Nat}
    (h : outlineOf parent place nodes = []) : nodes = [] := by
  cases nodes with
  | nil => rfl
  | cons node rest => simp [outlineOf, outline_eq] at h

/-! ### A tree from its outline -/

/-- Whether the node is in an element that comes at a place or later. -/
def isInside (place : Nat) (o : Outlined) : Bool :=
  o.parent.any (place ≤ ·)

mutual

theorem isInside_of_mem_outline (node : Node) {first i place : Nat} (hi : first ≤ i)
    (hplace : first ≤ place) : ∀ o ∈ node.outline (some i) place, isInside first o := by
  rw [outline_eq, List.forall_mem_cons]
  refine ⟨by simpa [isInside] using hi, ?_⟩
  cases node with
  | element tag children =>
    exact isInside_of_mem_outlineOf children hplace (Nat.le_succ_of_le hplace)
  | _ => exact List.forall_mem_nil _

theorem isInside_of_mem_outlineOf (nodes : List Node) {first i place : Nat} (hi : first ≤ i)
    (hplace : first ≤ place) : ∀ o ∈ outlineOf (some i) place nodes, isInside first o := by
  cases nodes with
  | nil => exact List.forall_mem_nil _
  | cons node rest =>
    rw [outlineOf, List.forall_mem_append]
    exact ⟨isInside_of_mem_outline node hi hplace,
      isInside_of_mem_outlineOf rest hi (Nat.le_add_right_of_le hplace)⟩

end

/-- The content of an element ends where a node of the row around it comes. -/
theorem takeWhile_isInside (nodes rest : List Node) {parent : Option Nat} {place later : Nat}
    (hparent : ∀ i ∈ parent, i < place) :
    (outlineOf (some place) (place + 1) nodes ++ outlineOf parent later rest).takeWhile
        (isInside place) = outlineOf (some place) (place + 1) nodes := by
  have hinside := isInside_of_mem_outlineOf nodes (Nat.le_refl place) (Nat.le_succ place)
  rw [List.takeWhile_append_of_pos hinside]
  cases rest with
  | nil => exact List.append_nil _
  | cons node rest =>
    have hhead : isInside place ⟨node.bare, parent⟩ = false := by
      cases parent with
      | none => rfl
      | some i => simpa [isInside] using hparent i rfl
    rw [outlineOf, outline_eq, List.cons_append,
      List.takeWhile_cons_of_neg (by simp [hhead]), List.append_nil]

mutual

theorem content_eq_of_outlineOf (node : Node) {others : List Node} {place : Nat}
    (h : outlineOf (some place) (place + 1) node.content =
      outlineOf (some place) (place + 1) others) : node.content = others := by
  have hplace : ∀ i ∈ some place, i < place + 1 := by simp
  cases node with
  | element tag children => exact eq_of_outlineOf children hplace h
  | _ => exact (eq_nil_of_outlineOf h.symm).symm

/-- A row of nodes is determined by its outline. -/
theorem eq_of_outlineOf (nodes : List Node) {others : List Node} {parent : Option Nat}
    {place : Nat} (hparent : ∀ i ∈ parent, i < place)
    (h : outlineOf parent place nodes = outlineOf parent place others) : nodes = others := by
  cases nodes with
  | nil => exact (eq_nil_of_outlineOf h.symm).symm
  | cons node rest =>
    cases others with
    | nil => exact eq_nil_of_outlineOf h
    | cons other others =>
      simp only [outlineOf, outline_eq, List.cons_append, List.cons.injEq, Outlined.mk.injEq,
        and_true] at h
      obtain ⟨hbare, hbehind⟩ := h
      -- The content of the first node is what comes before the next node of the row.
      have hcontent := congrArg (List.takeWhile (isInside place)) hbehind
      rw [takeWhile_isInside _ _ hparent, takeWhile_isInside _ _ hparent] at hcontent
      rw [hcontent] at hbehind
      have hrest := List.append_cancel_left hbehind
      rw [List.length_cons, List.length_cons] at hrest
      have hnode := eq_of_bare_of_content hbare (content_eq_of_outlineOf node hcontent)
      have hlater : ∀ i ∈ parent, i < place + ((outlineOf (some place) (place + 1)
          other.content).length + 1) := fun i hi => Nat.lt_add_right _ (hparent i hi)
      rw [hnode, eq_of_outlineOf rest hlater hrest]

end

end Node

end PotExtract.Markup
