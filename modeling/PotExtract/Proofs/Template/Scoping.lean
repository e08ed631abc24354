import Mathlib.Data.List.Infix
import PotExtract.Template.Frame

/-! What is in force at an element of a template, by the tags of that element and of those around it,
innermost first. A prefix means what the nearest of them declares for it, and each mark that is
inherited has the value that the nearest of them gives it. -/

namespace PotExtract.Template

open Text Markup

/-! ### Prefixes and marks on a path -/

/-- The namespace that an element declares for a prefix. Of two declarations the later one counts. -/
def declared? (pre : String) (tag : Tag) : Option String :=
  (tag.attributes.reverse.find? fun a => declaredPrefix? a == some pre).map (·.value)

/-- The namespace of a prefix at the innermost element of a path: the one that the nearest element
declares, or the one that the prefix has anyway. -/
def namespaceAt (path : List Tag) (pre : String) : Option String :=
  (path.findSome? (declared? pre)).or (({} : Frame).lookup pre)

/-- The namespace of an attribute of `tag`, which is the innermost element of a path. Without a
prefix it is that of the element, if it is one of the three whose elements carry attributes of their
own. -/
def attributeNamespace (path : List Tag) (tag : Tag) (a : Attribute) : Option String :=
  match (QualifiedName.ofString a.name).pre with
  | some pre => namespaceAt path pre
  | none =>
    ((QualifiedName.ofString tag.name).pre.bind (namespaceAt path)).filter fun n =>
      n == i18nNamespace || n == talNamespace || n == metalNamespace

/-- The attributes of `tag`, which is the innermost element of a path, with their namespaces. -/
def attributesAt (path : List Tag) (tag : Tag) : List ResolvedAttribute :=
  (tag.attributes.filter fun a => !isDeclaration a).map fun a =>
    { namespaceName := attributeNamespace path tag a
      localName := (QualifiedName.ofString a.name).localName
      value := a.value
      line := a.line }

/-- The value of the attribute `name` that marks what is translated, at the innermost element of a
path. Of two attributes the first one counts. -/
def markAt (name : String) : List Tag → Option String
  | [] => none
  | tag :: outer =>
    ((attributesAt (tag :: outer) tag).find? fun a =>
      a.namespaceName == some i18nNamespace && a.localName == name).map (·.value)

/-- The value of a mark that is not empty. -/
def filledMarkAt (name : String) (path : List Tag) : Option String :=
  (markAt name path).filter fun value => !value.isEmpty

/-- The value of a mark at the nearest element of a path at which it is not empty. The elements of a
path with what is around them are its tails. -/
def nearestMark (name : String) (path : List Tag) : Option String :=
  path.tails.findSome? (filledMarkAt name)

/-- The nearest domain, context and comment of a path. -/
def scopeAt (path : List Tag) : Scope where
  domain := nearestMark "domain" path
  context := nearestMark "context" path
  comment := nearestMark "comment" path

theorem nearestMark_cons (name : String) (tag : Tag) (outer : List Tag) :
    nearestMark name (tag :: outer) =
      (filledMarkAt name (tag :: outer)).or (nearestMark name outer) := by
  rw [nearestMark, List.tails_cons, List.findSome?_cons]
  cases filledMarkAt name (tag :: outer) <;> rfl

/-! ### Frames -/

namespace Frame

/-- What is in force inside of the innermost element of a path. -/
def along (path : List Tag) : Frame :=
  path.foldr (fun tag f => f.enter tag) {}

theorem lookup_declare (f : Frame) (attributes : List Attribute) (pre : String) :
    (f.declare attributes).lookup pre =
      ((attributes.reverse.find? fun a => declaredPrefix? a == some pre).map (·.value)).or
        (f.lookup pre) := by
  unfold declare
  induction attributes generalizing f with
  | nil => rfl
  | cons a rest ih =>
    -- The declarations behind `a` come first, then `a`, then what was declared before.
    rw [List.foldl_cons, ih, List.reverse_cons, List.find?_append, Option.map_or, Option.or_assoc]
    congr 1
    cases hdeclared : declaredPrefix? a with
    | none => simp [hdeclared]
    | some other =>
      by_cases hpre : other = pre
      · simp [hdeclared, hpre, lookup, List.lookup_cons_self]
      · have hne : (pre == other) = false := by simpa using Ne.symm hpre
        simp [hdeclared, hpre, lookup, List.lookup_cons, hne]

/-- The frame gives every prefix its namespace at the innermost element of a path. -/
def NamesAt (f : Frame) (path : List Tag) : Prop :=
  ∀ pre, f.lookup pre = namespaceAt path pre

theorem NamesAt.declare {f : Frame} {outer : List Tag} (h : f.NamesAt outer) (tag : Tag) :
    (f.declare tag.attributes).NamesAt (tag :: outer) := by
  intro pre
  rw [lookup_declare, h pre, namespaceAt, namespaceAt, List.findSome?_cons, ← Option.or_assoc]
  congr 1
  rw [declared?]
  cases (tag.attributes.reverse.find? fun a => declaredPrefix? a == some pre) <;> rfl

theorem NamesAt.resolve {f : Frame} {path : List Tag} (h : f.NamesAt path) (tag : Tag) :
    f.resolve tag = attributesAt path tag := by
  have hlookup : f.lookup = namespaceAt path := funext h
  simp only [Frame.resolve, ownNamespace, hlookup]
  rfl

theorem NamesAt.mark? {f : Frame} {tag : Tag} {outer : List Tag} (h : f.NamesAt (tag :: outer))
    (name : String) : f.mark? tag name = markAt name (tag :: outer) := by
  rw [Frame.mark?, h.resolve, markAt]

theorem NamesAt.filledMark? {f : Frame} {tag : Tag} {outer : List Tag}
    (h : f.NamesAt (tag :: outer)) (name : String) :
    f.filledMark? tag name = filledMarkAt name (tag :: outer) := by
  rw [Frame.filledMark?, h.mark?, filledMarkAt]

/-- The frame is what is in force at the innermost element of a path. -/
structure IsAt (f : Frame) (path : List Tag) : Prop where
  names : f.NamesAt path
  scope : f.scope = scopeAt path

/-- The marks of an element change the scope around it, each for itself. -/
theorem IsAt.enter {f : Frame} {outer : List Tag} (h : f.IsAt outer) (tag : Tag) :
    (f.enter tag).IsAt (tag :: outer) := by
  have hnames := h.names.declare tag
  refine ⟨hnames, ?_⟩
  simp only [Frame.enter, hnames.filledMark?, h.scope, scopeAt, nearestMark_cons]

theorem isAt_along (path : List Tag) : (along path).IsAt path := by
  induction path with
  | nil => exact ⟨fun _ => rfl, rfl⟩
  | cons tag outer ih => exact ih.enter tag

end Frame

end PotExtract.Template
