import PotExtract.Text.Letter
import PotExtract.Markup.Attribute

/-! Markup as a sequence of events: tags, text, CDATA, comments, instructions, declarations and
document types. An event keeps the text it was read from and the place where that text starts. -/

namespace PotExtract.Markup

open Text

/-- A piece of markup. Tags hold what stands between their brackets, without the slash of an end tag
or of an empty element. -/
inductive Piece where
  | start (content : List Char)
  | empty (content : List Char)
  | close (name : List Char)
  | text
  | cdata (content : List Char)
  | comment
  | instruction
  | declaration
  | doctype
  deriving DecidableEq, Repr

/-- Why markup is not understood. -/
inductive PieceFault where
  | unknownBang
  | openInstruction
  | openComment
  | openDoctype
  | openCdata
  | openTag
  | namelessDoctype
  deriving DecidableEq, Repr

/-- The fault as it is shown to the user. -/
def PieceFault.message : PieceFault → String
  | .unknownBang => "syntax error: unknown or missed symbol in markup"
  | .openInstruction =>
    "syntax error: processing instruction or xml declaration not closed: `?>` not found before " ++
      "end of input"
  | .openComment => "syntax error: comment not closed: `-->` not found before end of input"
  | .openDoctype => "syntax error: DOCTYPE not closed: `>` not found before end of input"
  | .openCdata => "syntax error: CDATA not closed: `]]>` not found before end of input"
  | .openTag => "syntax error: tag not closed: `>` not found before end of input"
  | .namelessDoctype =>
    "ill-formed document: `<!DOCTYPE>` declaration does not contain a name of a document type"

/-- A piece with the text it was read from, the place of that text in bytes, and its line. -/
structure Event where
  piece : Piece
  written : List Char
  offset : Nat
  line : Nat
  deriving DecidableEq, Repr

/-- A fault with its place in bytes and its line. -/
structure ReadFailure where
  fault : PieceFault
  offset : Nat
  line : Nat
  deriving DecidableEq, Repr

/-- The events of a document in order, up to a failure if there is one. -/
structure Events where
  events : List Event
  failure : Option ReadFailure := none
  deriving DecidableEq, Repr

/-- Cuts at the closing bracket of a tag. Brackets in quotes do not count. -/
def cutTag? (quote : Option Char) : List Char → Option (List Char × List Char)
  | [] => none
  | c :: s =>
    let add (r : List Char × List Char) : List Char × List Char := (c :: r.1, r.2)
    match quote with
    | some q => (cutTag? (if c = q then none else some q) s).map add
    | none =>
      if c = '>' then some ([], s)
      else (cutTag? (if c = '"' ∨ c = '\'' then some c else none) s).map add

/-- Cuts at the bracket that closes a document type, with `depth` brackets open inside. -/
def cutDoctype? (depth : Nat) : List Char → Option (List Char × List Char)
  | [] => none
  | c :: s =>
    let add (r : List Char × List Char) : List Char × List Char := (c :: r.1, r.2)
    if c = '>' then
      match depth with
      | 0 => some ([], s)
      | depth + 1 => (cutDoctype? depth s).map add
    else (cutDoctype? (if c = '<' then depth + 1 else depth) s).map add

/-- A piece with the text behind it, or a fault with the text in front of its place. -/
abbrev PieceResult := Except (PieceFault × List Char) (Piece × List Char)

/-- The piece between the text behind a bracket and a terminator, or a fault if it is missing. -/
def upTo (terminator : List Char) (fault : PieceFault) (make : List Char → Piece) (s : List Char) :
    PieceResult :=
  match cutAt? terminator s with
  | some (content, rest) => .ok (make content, rest)
  | none => .error (fault, [])

/-- The text behind a document type's keyword, which may have capitals. -/
def afterDoctype? (s : List Char) : Option (List Char) :=
  if lower (s.take 8) = "!doctype".toList then some (s.drop 8) else none

/-- Reads the document type whose keyword is `keyword`. -/
def doctype (keyword s : List Char) : PieceResult :=
  match cutDoctype? 0 s with
  | none => .error (.openDoctype, [])
  | some (content, rest) =>
    if content.all isSpace then .error (.namelessDoctype, '<' :: (keyword ++ content))
    else .ok (.doctype, rest)

/-- Reads the piece behind a bracket with an exclamation mark. -/
def bang (s : List Char) : PieceResult :=
  match s with
  | '!' :: '[' :: _ =>
    match after? "![CDATA[".toList s with
    | some rest => upTo "]]>".toList .openCdata .cdata rest
    | none => .error (.openCdata, [])
  | '!' :: '-' :: _ =>
    match after? "!--".toList s with
    | some rest => upTo "-->".toList .openComment (fun _ => .comment) rest
    | none => .error (.openComment, [])
  | '!' :: 'D' :: _ | '!' :: 'd' :: _ =>
    match afterDoctype? s with
    | some rest => doctype (s.take 8) rest
    | none => .error (.openDoctype, [])
  | _ => .error (.unknownBang, [])

/-- The piece of an instruction: a declaration if its name says so. -/
def instructionOf (content : List Char) : Piece :=
  match after? "xml".toList content with
  | some [] => .declaration
  | some (c :: _) => if isSpace c then .declaration else .instruction
  | none => .instruction

/-- Reads the piece behind a bracket with a question mark. The mark that opens an instruction does
not close it. -/
def instruction (s : List Char) : PieceResult :=
  match s with
  | '>' :: _ => .error (.openInstruction, [])
  | _ => upTo "?>".toList .openInstruction instructionOf s

/-- The name in an end tag, without white space behind it unless there is nothing else. -/
def closingName (content : List Char) : List Char :=
  if content.all isSpace then content
  else (content.reverse.dropWhile isSpace).reverse

/-- The piece of a tag. -/
def pieceOfTag (content : List Char) : Piece :=
  match content with
  | '/' :: name => .close (closingName name)
  | _ => if content.getLast? = some '/' then .empty content.dropLast else .start content

/-- Reads the piece behind an opening bracket. -/
def readPiece (s : List Char) : PieceResult :=
  match s with
  | '!' :: _ => bang s
  | '?' :: rest => instruction rest
  | _ =>
    match cutTag? none s with
    | some (content, rest) => .ok (pieceOfTag content, rest)
    | none => .error (.openTag, [])

/-! ### What is left is shorter -/

theorem length_cutTag?_lt {quote : Option Char} {s content rest : List Char}
    (h : cutTag? quote s = some (content, rest)) : rest.length < s.length := by
  induction s generalizing quote content with
  | nil => simp [cutTag?] at h
  | cons c s ih =>
    simp only [cutTag?] at h
    split at h
    · obtain ⟨⟨a, b⟩, hab, he⟩ := Option.map_eq_some_iff.1 h
      cases he
      exact Nat.lt_succ_of_lt (ih hab)
    · split at h
      · cases h
        simp
      · obtain ⟨⟨a, b⟩, hab, he⟩ := Option.map_eq_some_iff.1 h
        cases he
        exact Nat.lt_succ_of_lt (ih hab)

theorem length_cutDoctype?_lt {depth : Nat} {s content rest : List Char}
    (h : cutDoctype? depth s = some (content, rest)) : rest.length < s.length := by
  induction s generalizing depth content with
  | nil => simp [cutDoctype?] at h
  | cons c s ih =>
    simp only [cutDoctype?] at h
    split at h
    · split at h
      · cases h
        simp
      · obtain ⟨⟨a, b⟩, hab, he⟩ := Option.map_eq_some_iff.1 h
        cases he
        exact Nat.lt_succ_of_lt (ih hab)
    · obtain ⟨⟨a, b⟩, hab, he⟩ := Option.map_eq_some_iff.1 h
      cases he
      exact Nat.lt_succ_of_lt (ih hab)

theorem length_upTo_le {terminator s rest : List Char} {fault : PieceFault}
    {make : List Char → Piece} {p : Piece} (h : upTo terminator fault make s = .ok (p, rest)) :
    rest.length ≤ s.length := by
  unfold upTo at h
  split at h
  · next hc =>
    simp only [Except.ok.injEq, Prod.mk.injEq] at h
    rw [← h.2]
    exact length_cutAt?_le hc
  · simp at h

theorem length_after?_le {pre s rest : List Char} (h : after? pre s = some rest) :
    rest.length ≤ s.length := by
  rw [after?_eq_some h, List.length_append]
  omega

theorem length_bang_le {s rest : List Char} {p : Piece} (h : bang s = .ok (p, rest)) :
    rest.length ≤ s.length := by
  unfold bang at h
  split at h
  · split at h
    · next ha => exact Nat.le_trans (length_upTo_le h) (length_after?_le ha)
    · simp at h
  · split at h
    · next ha => exact Nat.le_trans (length_upTo_le h) (length_after?_le ha)
    · simp at h
  iterate 2
    split at h
    · next ha =>
      unfold doctype at h
      split at h
      · simp at h
      · next hc =>
        split at h
        · simp at h
        · simp only [Except.ok.injEq, Prod.mk.injEq] at h
          rw [← h.2]
          have := length_cutDoctype?_lt hc
          simp only [afterDoctype?, Option.ite_none_right_eq_some, Option.some.injEq] at ha
          rw [← ha.2] at this
          simp only [List.length_drop] at this
          omega
    · simp at h
  · simp at h

theorem length_readPiece_le {s rest : List Char} {p : Piece} (h : readPiece s = .ok (p, rest)) :
    rest.length ≤ s.length := by
  unfold readPiece at h
  split at h
  · exact length_bang_le h
  · unfold instruction at h
    split at h
    · simp at h
    · exact Nat.le_succ_of_le (length_upTo_le h)
  · split at h
    · next hc =>
      simp only [Except.ok.injEq, Prod.mk.injEq] at h
      rw [← h.2]
      exact Nat.le_of_lt (length_cutTag?_lt hc)
    · simp at h

/-! ### Reading a document -/

/-- The events of the text that starts at byte `offset` on `line`. -/
def eventsFrom (offset line : Nat) (s : List Char) : Events :=
  match s with
  | [] => ⟨[], none⟩
  | '<' :: body =>
    match h : readPiece body with
    | .error (fault, skipped) =>
      ⟨[], some ⟨fault, offset + byteLength skipped, line + lineFeeds skipped⟩⟩
    | .ok (piece, rest) =>
      have := length_readPiece_le h
      let written := ('<' :: body).take (body.length + 1 - rest.length)
      let later := eventsFrom (offset + byteLength written) (line + lineFeeds written) rest
      { later with events := ⟨piece, written, offset, line⟩ :: later.events }
  | c :: body =>
    have := length_dropWhile_le (· != '<') body
    let written := c :: body.takeWhile (· != '<')
    let later := eventsFrom (offset + byteLength written) (line + lineFeeds written)
      (body.dropWhile (· != '<'))
    { later with events := ⟨.text, written, offset, line⟩ :: later.events }
  termination_by s.length

/-- The events of a document. -/
def events (source : List Char) : Events :=
  eventsFrom 0 1 source

end PotExtract.Markup
