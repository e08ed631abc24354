import PotExtract.Comment

/-! Finding the comment of a call. A comment on the line of the message found last belongs to that
message. Any other waits for a call on the line below it, and comments on consecutive lines are one
comment. -/

namespace PotExtract

/-- A comment that is kept, with the last line it occupies. -/
structure Note where
  line : Nat
  text : String
  flags : List String
  deriving DecidableEq, Repr

/-- Where a comment that is kept goes: to the message found last, or to a call that may follow. -/
inductive CommentTarget where
  | previous (note : Note)
  | pending
  deriving DecidableEq, Repr

/-- The comment that waits for a call. -/
structure CommentCollector where
  policy : CommentPolicy
  pending : Option Note := none
  deriving DecidableEq, Repr

namespace CommentCollector

open Text

/-- The text of a comment without its leader. -/
def body (raw : List Char) : List Char :=
  match raw with
  | '#' :: rest => rest
  | _ => raw

/-- The note that a comment on `line` is kept as. -/
def note? (policy : CommentPolicy) (raw : String) (line : Nat) : Option Note :=
  (policy.accept (body raw.toList)).map fun text =>
    let (flags, text) := Comment.splitFlags text
    ⟨line, String.ofList text, flags.map String.ofList⟩

/-- Two texts with a space between them unless one is empty. -/
def joinTexts (first second : String) : String :=
  if second.isEmpty then first
  else if first.isEmpty then second
  else first ++ " " ++ second

/-- A note extended by the note of the next line. -/
def extend (pending next : Note) : Note :=
  ⟨next.line, joinTexts pending.text next.text, addFlags pending.flags next.flags⟩

/-- Takes a comment on `line`. The last message was found on `previous`. -/
def collect (c : CommentCollector) (raw : String) (line : Nat) (previous : Option Nat) :
    CommentCollector × Option CommentTarget :=
  match note? c.policy raw line with
  | none => (c, none)
  | some note =>
    if previous = some line then (c, some (.previous note))
    else
      let note :=
        match c.pending with
        | some pending => if pending.line + 1 = line then extend pending note else note
        | none => note
      ({ c with pending := some note }, some .pending)

/-- The comment of a call on `line`: the one that ends on the line above it. -/
def forCall (c : CommentCollector) (line : Nat) : Option Note :=
  c.pending.filter fun pending => pending.line + 1 == line

end CommentCollector

end PotExtract
