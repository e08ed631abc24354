import PotExtract.Markup.Tree
import PotExtract.Text.Pieces

/-! What is in force at an element of a template: the namespaces of prefixes, and the domain,
context and comment of its messages. All of it is inherited from the nearest element around that
sets it. -/

namespace PotExtract.Template

open Text Markup

/-- The namespace of attributes that mark what is translated. -/
def i18nNamespace : String := "http://xml.zope.org/namespaces/i18n"

/-- The namespace of attributes that hold expressions. -/
def talNamespace : String := "http://xml.zope.org/namespaces/tal"

/-- The namespace of attributes that reuse parts of templates. -/
def metalNamespace : String := "http://xml.zope.org/namespaces/metal"

/-- The namespace of attributes that every XML document has. -/
def xmlNamespace : String := "http://www.w3.org/XML/1998/namespace"

/-- The domain, context and comment of messages. -/
structure Scope where
  domain : Option String := none
  context : Option String := none
  comment : Option String := none
  deriving DecidableEq, Repr

/-- What is in force. Of two namespaces of a prefix the first one counts. -/
structure Frame where
  namespaces : List (String × String) :=
    [("i18n", i18nNamespace), ("tal", talNamespace), ("metal", metalNamespace),
      ("xml", xmlNamespace)]
  scope : Scope := {}
  deriving DecidableEq, Repr

/-- A name without its prefix, and the prefix if it has one. -/
structure QualifiedName where
  pre : Option String
  localName : String
  deriving DecidableEq, Repr

/-- Cuts a name at its first colon. -/
def QualifiedName.ofString (name : String) : QualifiedName :=
  match cut? ':' name.toList with
  | some (pre, localName) => ⟨some (String.ofList pre), String.ofList localName⟩
  | none => ⟨none, name⟩

/-- An attribute with its namespace, if it has one. -/
structure ResolvedAttribute where
  namespaceName : Option String
  localName : String
  value : String
  line : Nat
  deriving DecidableEq, Repr

/-- The prefix that an attribute declares. -/
def declaredPrefix? (a : Attribute) : Option String :=
  (after? "xmlns:".toList a.name.toList).map String.ofList

/-- Whether an attribute declares a namespace, with or without a prefix. -/
def isDeclaration (a : Attribute) : Bool :=
  a.name == "xmlns" || (declaredPrefix? a).isSome

namespace Frame

/-- The namespace of a prefix. -/
def lookup (f : Frame) (pre : String) : Option String :=
  f.namespaces.lookup pre

/-- The namespaces inside of an element. Of two declarations of a prefix the later one counts. -/
def declare (f : Frame) (attributes : List Attribute) : Frame :=
  attributes.foldl (fun f a =>
    match declaredPrefix? a with
    | some pre => { f with namespaces := (pre, a.value) :: f.namespaces }
    | none => f) f

/-- The namespace that the attributes of an element have without a prefix: that of the element, if
it is one of the three whose elements carry attributes of their own. -/
def ownNamespace (f : Frame) (tag : Tag) : Option String :=
  ((QualifiedName.ofString tag.name).pre.bind f.lookup).filter fun n =>
    n == i18nNamespace || n == talNamespace || n == metalNamespace

/-- The attributes of an element with their namespaces, declarations aside. -/
def resolve (f : Frame) (tag : Tag) : List ResolvedAttribute :=
  (tag.attributes.filter fun a => !isDeclaration a).map fun a =>
    let name := QualifiedName.ofString a.name
    { namespaceName :=
        match name.pre with
        | some pre => f.lookup pre
        | none => f.ownNamespace tag
      localName := name.localName
      value := a.value
      line := a.line }

/-- The value of the attribute `name` that marks what is translated. The namespaces are those inside
of the element. -/
def mark? (f : Frame) (tag : Tag) (name : String) : Option String :=
  ((f.resolve tag).find? fun a =>
    a.namespaceName == some i18nNamespace && a.localName == name).map (·.value)

/-- The value of a mark that is not empty. -/
def filledMark? (f : Frame) (tag : Tag) (name : String) : Option String :=
  (f.mark? tag name).filter fun value => !value.isEmpty

/-- What is in force inside of an element. -/
def enter (f : Frame) (tag : Tag) : Frame :=
  let inner := f.declare tag.attributes
  { inner with
    scope := {
      domain := (inner.filledMark? tag "domain").or f.scope.domain
      context := (inner.filledMark? tag "context").or f.scope.context
      comment := (inner.filledMark? tag "comment").or f.scope.comment } }

end Frame

end PotExtract.Template
