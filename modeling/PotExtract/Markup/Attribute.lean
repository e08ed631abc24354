import PotExtract.Text.Pieces
import PotExtract.Text.Blank

/-! The text between the angle brackets of a tag: its name, and its attributes as they are written.
Lenient reading allows values without quotes and names without a value, strict reading does not and
refuses an attribute that comes twice. Places are counted in bytes behind the opening bracket. -/

namespace PotExtract.Markup

open Text

/-- The characters that separate the parts of a tag. -/
def isSpace (c : Char) : Bool :=
  c == ' ' || c == '\t' || c == '\r' || c == '\n'

/-- What is wrong with an attribute, and where. -/
inductive AttributeFault where
  | noEquals (place : Nat)
  | noValue (place : Nat)
  | noQuotes (place : Nat)
  | openQuote (place : Nat) (quote : Char)
  | duplicate (place previous : Nat)
  deriving DecidableEq, Repr

/-- The fault as it is shown to the user. -/
def AttributeFault.message : AttributeFault → String
  | .noEquals place => s!"position {place}: attribute key must be directly followed by `=` or space"
  | .noValue place => s!"position {place}: `=` must be followed by an attribute value"
  | .noQuotes place => s!"position {place}: attribute value must be enclosed in `\"` or `'`"
  | .openQuote place quote =>
    s!"position {place}: missing closing quote `{quote}` in attribute value"
  | .duplicate place previous =>
    s!"position {place}: duplicated attribute, previous declaration at position {previous}"

/-- How strictly attributes are read. -/
inductive Strictness where
  | lenient
  | strict
  deriving DecidableEq, Repr

/-- An attribute as it is written, with the place of its name. -/
structure WrittenAttribute where
  name : List Char
  value : List Char
  place : Nat
  deriving DecidableEq, Repr

/-- The name at the head of a tag. -/
def tagName (content : List Char) : List Char :=
  content.takeWhile (!isSpace ·)

/-- Whether a character goes on with the name of an attribute. -/
def isKeyChar (c : Char) : Bool :=
  !(c == '=' || isSpace c)

/-- Reads the value behind an equals sign. The text up to the end of the tag is `s`, which ends at
place `size`. -/
def readValue (strictness : Strictness) (size : Nat) (s : List Char) :
    Except AttributeFault (List Char × List Char) :=
  match s.dropWhile isSpace with
  | [] => .error (.noValue size)
  | c :: rest =>
    if c = '"' ∨ c = '\'' then
      match cut? c rest with
      | some (value, rest) => .ok (value, rest)
      | none => .error (.openQuote size c)
    else
      match strictness with
      | .lenient => .ok (c :: rest.takeWhile (!isSpace ·), rest.dropWhile (!isSpace ·))
      | .strict => .error (.noQuotes (size - byteLength (c :: rest)))

/-- The attribute of the same name that strict reading refuses to see again. -/
def clash? (strictness : Strictness) (seen : List WrittenAttribute) (name : List Char) :
    Option WrittenAttribute :=
  match strictness with
  | .lenient => none
  | .strict => seen.find? (·.name == name)

/-- Reads the attribute whose name starts with `c`, after the attributes in `seen`. -/
def readAttribute (strictness : Strictness) (size : Nat) (seen : List WrittenAttribute) (c : Char)
    (s : List Char) : Except AttributeFault (WrittenAttribute × List Char) :=
  let name := c :: s.takeWhile isKeyChar
  let place := size - byteLength (c :: s)
  match (s.dropWhile isKeyChar).dropWhile isSpace with
  | '=' :: rest =>
    match clash? strictness seen name with
    | some previous => .error (.duplicate place previous.place)
    | none =>
      match readValue strictness size rest with
      | .ok (value, rest) => .ok (⟨name, value, place⟩, rest)
      | .error e => .error e
  | rest =>
    match strictness with
    | .lenient => .ok (⟨name, [], place⟩, rest)
    | .strict => .error (.noEquals (size - byteLength rest))

theorem length_dropWhile_le (p : Char → Bool) (s : List Char) :
    (s.dropWhile p).length ≤ s.length :=
  (List.dropWhile_suffix p).length_le

theorem length_readValue_le {strictness : Strictness} {size : Nat} {s value rest : List Char}
    (h : readValue strictness size s = .ok (value, rest)) : rest.length ≤ s.length := by
  unfold readValue at h
  have hs := length_dropWhile_le isSpace s
  split at h
  · simp at h
  · next c tail heq =>
    rw [heq, List.length_cons] at hs
    split at h
    · split at h
      · next hc =>
        simp only [Except.ok.injEq, Prod.mk.injEq] at h
        have := length_cut?_lt hc
        rw [← h.2]
        omega
      · simp at h
    · split at h
      · simp only [Except.ok.injEq, Prod.mk.injEq] at h
        have := length_dropWhile_le (!isSpace ·) tail
        rw [← h.2]
        omega
      · simp at h

theorem length_readAttribute_le {strictness : Strictness} {size : Nat}
    {seen : List WrittenAttribute} {c : Char} {s rest : List Char} {a : WrittenAttribute}
    (h : readAttribute strictness size seen c s = .ok (a, rest)) : rest.length ≤ s.length := by
  simp only [readAttribute] at h
  have hk := Nat.le_trans (length_dropWhile_le isSpace (s.dropWhile isKeyChar))
    (length_dropWhile_le isKeyChar s)
  split at h
  · next heq =>
    rw [heq, List.length_cons] at hk
    split at h
    · simp at h
    · split at h
      · next hv =>
        simp only [Except.ok.injEq, Prod.mk.injEq] at h
        have := length_readValue_le hv
        rw [← h.2]
        omega
      · simp at h
  · split at h
    · simp only [Except.ok.injEq, Prod.mk.injEq] at h
      rw [← h.2]
      exact hk
    · simp at h

/-- The attributes of a tag in order, up to one that is not understood. -/
structure AttributeList where
  read : List WrittenAttribute
  fault : Option AttributeFault := none
  deriving DecidableEq, Repr

/-- Reads the attributes in `s`, after those in `seen`. -/
def attributesFrom (strictness : Strictness) (size : Nat) (seen : List WrittenAttribute)
    (s : List Char) : AttributeList :=
  match hs : s.dropWhile isSpace with
  | [] => ⟨[], none⟩
  | c :: rest =>
    match ha : readAttribute strictness size seen c rest with
    | .error e => ⟨[], some e⟩
    | .ok (a, tail) =>
      have : tail.length < s.length := by
        have h₁ := length_dropWhile_le isSpace s
        have h₂ := length_readAttribute_le ha
        rw [hs, List.length_cons] at h₁
        omega
      let later := attributesFrom strictness size (seen ++ [a]) tail
      { later with read := a :: later.read }
  termination_by s.length

/-- The attributes of a tag. -/
def attributes (strictness : Strictness) (content : List Char) : AttributeList :=
  attributesFrom strictness (byteLength content) [] (content.dropWhile (!isSpace ·))

end PotExtract.Markup
