import PotExtract.Text.Letter
import PotExtract.Text.Pieces
import PotExtract.Message

/-! Comments of a source: which ones are kept for translators, and the list of flags that may stand
in brackets at the start of one. -/

namespace PotExtract

open Text

/-- Which comments are kept: none, every one next to a call, or those that start with a tag, which
is then removed. -/
inductive CommentPolicy where
  | none
  | all
  | tagged (tag : String)
  deriving DecidableEq, Repr

namespace CommentPolicy

/-- The policy of a tag given by the user, which may be absent or blank. -/
def ofTag : Option String → CommentPolicy
  | Option.none => .none
  | some tag => if (trimmed tag).isEmpty then .all else .tagged (trimmed tag)

/-- The text that is kept of a comment whose leader is removed. -/
def accept (policy : CommentPolicy) (body : List Char) : Option (List Char) :=
  match policy with
  | .none => Option.none
  | .all => some (trim body)
  | .tagged tag => (after? tag.toList (trim body)).map trim

end CommentPolicy

namespace Comment

/-- A character of a flag. -/
def isFlagChar (c : Char) : Bool :=
  isWordChar c || c == '-'

/-- A flag and what follows it, behind white space. -/
def takeFlag? (s : List Char) : Option (List Char × List Char) :=
  match s.takeWhile isFlagChar with
  | [] => none
  | flag => some (flag, trimLeft (s.dropWhile isFlagChar))

theorem length_takeFlag?_lt {s flag rest : List Char} (h : takeFlag? s = some (flag, rest)) :
    rest.length < s.length := by
  cases s with
  | nil => simp [takeFlag?] at h
  | cons c s =>
    simp only [takeFlag?, List.takeWhile_cons, List.dropWhile_cons] at h
    split at h
    · simp at h
    · next hne =>
      split at hne
      · next hc =>
        simp only [hc, if_true, Option.some.injEq, Prod.mk.injEq] at h
        rw [← h.2]
        exact Nat.lt_succ_of_le
          ((List.dropWhile_suffix _).trans (List.dropWhile_suffix _)).length_le
      · exact absurd rfl hne

/-- The flags between commas up to a closing bracket, and the text after it. -/
def flagList? (s : List Char) : Option (List (List Char) × List Char) :=
  match h : takeFlag? s with
  | some (flag, ',' :: more) =>
    have : (trimLeft more).length < s.length :=
      Nat.lt_of_le_of_lt (List.dropWhile_suffix _).length_le
        (Nat.lt_trans (Nat.lt_succ_self _) (length_takeFlag?_lt h))
    (flagList? (trimLeft more)).map fun (flags, text) => (flag :: flags, text)
  | some (flag, ']' :: text) => some ([flag], text)
  | _ => none
  termination_by s.length

/-- Takes a list of flags in brackets off the start of a comment. Without one the comment stays as
it is. -/
def splitFlags (comment : List Char) : List (List Char) × List Char :=
  match trimLeft comment with
  | '[' :: rest =>
    match flagList? (trimLeft rest) with
    | some (flags, text) => (flags, trim text)
    | none => ([], comment)
  | _ => ([], comment)

end Comment

end PotExtract
