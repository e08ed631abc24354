import PotExtract.Markup.Event

/-! The tree of a template. End tags may be missing, may close several elements at once, or may
match nothing, and some elements never have any content. Every node knows its line. -/

namespace PotExtract.Markup

open Text

/-- An attribute with its value as written and the line of its name. -/
structure Attribute where
  name : String
  value : String
  line : Nat
  deriving DecidableEq, Repr

/-- The start of an element. -/
structure Tag where
  name : String
  attributes : List Attribute
  line : Nat
  deriving DecidableEq, Repr

/-- A node of a template. -/
inductive Node where
  | element (tag : Tag) (children : List Node)
  | text (text : String) (line : Nat)
  | cdata (text : String) (line : Nat)
  | comment (line : Nat)
  | instruction (line : Nat)
  | declaration (line : Nat)
  | doctype (line : Nat)

/-- What an event does to the tree. -/
inductive Growth where
  | opening (tag : Tag)
  | leaf (node : Node)
  | closing (name : String) (line : Nat)

/-! ### Building the tree -/

/-- An element whose end is not reached, with its children so far. -/
structure OpenElement where
  tag : Tag
  children : List Node

/-- A tree that grows at its end. The open elements are innermost first. -/
structure Grove where
  roots : List Node := []
  path : List OpenElement := []

namespace Grove

/-- Adds a node to the innermost open element. -/
def add (g : Grove) (node : Node) : Grove :=
  match g.path with
  | [] => { g with roots := g.roots ++ [node] }
  | e :: outer => { g with path := { e with children := e.children ++ [node] } :: outer }

/-- Closes the innermost open element. -/
def closeOne (g : Grove) : Grove :=
  match g.path with
  | [] => g
  | e :: outer => add { g with path := outer } (.element e.tag e.children)

/-- Closes the `n` innermost open elements. -/
def closeMany : Nat → Grove → Grove
  | 0, g => g
  | n + 1, g => closeMany n g.closeOne

/-- The number of open elements inside of the innermost one called `name`, if there is one. -/
def depthOf? (g : Grove) (name : String) : Option Nat :=
  g.path.findIdx? fun e => e.tag.name == name

/-- Takes the next change. An end tag that matches no open element changes nothing. -/
def grow (g : Grove) : Growth → Grove
  | .opening tag => { g with path := ⟨tag, []⟩ :: g.path }
  | .leaf node => g.add node
  | .closing name _ =>
    match g.depthOf? name with
    | some depth => closeMany (depth + 1) g
    | none => g

/-- The roots once all open elements are closed. -/
def finish (g : Grove) : List Node :=
  (closeMany g.path.length g).roots

end Grove

/-- The forest that changes build. -/
def forest (changes : List Growth) : List Node :=
  (changes.foldl Grove.grow {}).finish

/-- The end tags that match no open element, with their lines. -/
def strayEnds (g : Grove) : List Growth → List (String × Nat)
  | [] => []
  | change :: changes =>
    let later := strayEnds (g.grow change) changes
    match change with
    | .closing name line => if (g.depthOf? name).isNone then (name, line) :: later else later
    | _ => later

/-! ### Lines of attributes -/

/-- Whether a name ends in front of the text. -/
def endsName : List Char → Bool
  | [] => true
  | c :: _ => c == '=' || c == '/' || c == '>' || isBlank c

/-- A place in the text of a tag: the character in front of it, the number of lines that end in
front of it, and the text behind it. -/
structure TagCursor where
  before : Option Char := none
  lines : Nat := 0
  rest : List Char

theorem length_after?_lt {first : Char} {others tail rest : List Char} {c : Char}
    (h : after? (first :: others) (c :: tail) = some rest) : rest.length < tail.length + 1 := by
  have := congrArg List.length (after?_eq_some h)
  simp only [List.length_append, List.length_cons] at this
  omega

/-- The next place where the name `first :: others` stands between white space and its end, and the
place behind it. -/
def findName? (first : Char) (others : List Char) (before : Option Char) (lines : Nat)
    (s : List Char) : Option (Nat × TagCursor) :=
  match s with
  | [] => none
  | c :: tail =>
    match h : after? (first :: others) (c :: tail) with
    | some rest =>
      have := length_after?_lt h
      let last := (first :: others).getLast?
      let ended := lines + lineFeeds (first :: others)
      if before.any isBlank && endsName rest then some (lines, ⟨last, ended, rest⟩)
      else findName? first others last ended rest
    | none => findName? first others (some c) (if c = '\n' then lines + 1 else lines) tail
  termination_by s.length

/-- The attributes with the lines of their names. Names are looked for in order, and one that is not
found has the line of the tag. -/
def locate (tagLine : Nat) : TagCursor → List WrittenAttribute → List Attribute
  | _, [] => []
  | cursor, a :: rest =>
    let onLine (line : Nat) : Attribute := ⟨String.ofList a.name, String.ofList a.value, line⟩
    match a.name with
    | [] => onLine tagLine :: locate tagLine cursor rest
    | first :: others =>
      match findName? first others cursor.before cursor.lines cursor.rest with
      | some (lines, cursor) => onLine (tagLine + lines) :: locate tagLine cursor rest
      | none => onLine tagLine :: locate tagLine cursor rest

/-! ### From events to the tree -/

/-- The elements that never have content. -/
def voidElements : List String :=
  ["area", "base", "br", "col", "embed", "hr", "img", "input", "link", "meta", "param", "source",
    "track", "wbr"]

/-- Whether elements of a name never have content. Case does not matter. -/
def isVoid (name : List Char) : Bool :=
  !name.contains ':' && voidElements.contains (String.ofList (lower name))

/-- What a start tag does to the tree: it opens an element unless it ends in a slash or its name
says that there is no content. -/
def growthOfTag (e : Event) (content : List Char) : Except AttributeFault Growth :=
  let written := attributes .lenient content
  match written.fault with
  | some fault => .error fault
  | none =>
    let name := tagName content
    let tag : Tag := ⟨String.ofList name, locate e.line { rest := e.written } written.read, e.line⟩
    if "/>".toList.isSuffixOf e.written || isVoid name then .ok (.leaf (.element tag []))
    else .ok (.opening tag)

/-- What an event does to the tree. -/
def Event.growth (e : Event) : Except AttributeFault Growth :=
  match e.piece with
  | .start content | .empty content => growthOfTag e content
  | .close name => .ok (.closing (String.ofList name) e.line)
  | .text => .ok (.leaf (.text (String.ofList e.written) e.line))
  | .cdata content => .ok (.leaf (.cdata (String.ofList content) e.line))
  | .comment => .ok (.leaf (.comment e.line))
  | .instruction => .ok (.leaf (.instruction e.line))
  | .declaration => .ok (.leaf (.declaration e.line))
  | .doctype => .ok (.leaf (.doctype e.line))

end PotExtract.Markup
