import PotExtract.Text.Letter

/-! Lexemes: the element of Python source that stands at the head of a text, the characters it takes
and those that follow it. -/

namespace PotExtract.Python

open Text

/-- An element of the source with the text it takes. A joint is a backslash with the line end after
it, which joins two lines. A stray is text that begins no other element. -/
inductive Lexeme where
  | comment (text : List Char)
  | joint
  | lineEnd
  | number (text : List Char)
  | name (text : List Char)
  | string (text : List Char) (lines : Nat)
  | operator (text : List Char)
  | stray (text : List Char)
  deriving DecidableEq, Repr

namespace Lexeme

/-- The operators of three characters. -/
def longOperators : List (List Char) :=
  ["**=", "//=", ">>=", "<<=", "..."].map String.toList

/-- The operators of two characters. -/
def pairOperators : List (List Char) :=
  ["**", "//", "<<", ">>", "<=", ">=", "==", "!=", "->", "+=", "-=", "*=", "/=", "%=", "&=", "|=",
    "^=", "@=", ":="].map String.toList

/-- The operators of one character. -/
def singleOperators : List Char :=
  "()[]\x7b\x7d,:;.+-*/%&|^~<>=@".toList

/-- The letters that may stand in front of a string, in lower case. -/
def stringPrefixes : List (List Char) :=
  ["r", "u", "b", "f", "br", "rb", "fr", "rf"].map String.toList

/-- A character that ends a line. -/
def isLineEnd (c : Char) : Bool :=
  c == '\n' || c == '\r'

/-- A character that starts a name. -/
def isNameStart (c : Char) : Bool :=
  isLetter c || c == '_'

/-- A character that continues a name. -/
def isNameChar (c : Char) : Bool :=
  isLetterOrNumber c || c == '_'

/-- The text behind the line end at its head: a line feed, a carriage return, or both. -/
def afterLineEnd : List Char → List Char
  | '\r' :: '\n' :: s => s
  | _ :: s => s
  | [] => []

/-- Takes the characters of a number. A sign is one of them behind the letter of an exponent. -/
def takeNumber (hex : Bool) (previous : Char) : List Char → List Char × List Char
  | [] => ([], [])
  | c :: s =>
    let exponentSign := (c == '+' || c == '-') && !hex && (previous == 'e' || previous == 'E')
    if c.isAlphanum || c == '_' || c == '.' || exponentSign then
      ((c :: (takeNumber hex c s).1), (takeNumber hex c s).2)
    else ([], c :: s)

/-- Takes the rest of a string on one line, with its closing quote. -/
def closeLine (quote : Char) : List Char → Option (List Char × List Char)
  | [] => none
  | '\\' :: '\r' :: '\n' :: s =>
    (closeLine quote s).map fun (text, rest) => ('\\' :: '\r' :: '\n' :: text, rest)
  | '\\' :: c :: s => (closeLine quote s).map fun (text, rest) => ('\\' :: c :: text, rest)
  | ['\\'] => none
  | c :: s =>
    if isLineEnd c then none
    else if c = quote then some ([c], s)
    else (closeLine quote s).map fun (text, rest) => (c :: text, rest)

/-- Takes the rest of a string between triple quotes, with the closing ones. -/
def closeTriple (quote : Char) : List Char → Option (List Char × List Char)
  | [] => none
  | '\\' :: '\r' :: '\n' :: s =>
    (closeTriple quote s).map fun (text, rest) => ('\\' :: '\r' :: '\n' :: text, rest)
  | '\\' :: c :: s => (closeTriple quote s).map fun (text, rest) => ('\\' :: c :: text, rest)
  | ['\\'] => none
  | c :: s =>
    if c = quote ∧ s.take 2 = [quote, quote] then some ([c, c, c], s.drop 2)
    else (closeTriple quote s).map fun (text, rest) => (c :: text, rest)

/-- The number of lines that end inside a string: at line feeds, and at escaped line ends. -/
def linesInside : List Char → Nat
  | [] => 0
  | '\\' :: '\r' :: '\n' :: s => linesInside s + 1
  | '\\' :: c :: s => linesInside s + if isLineEnd c then 1 else 0
  | c :: s => linesInside s + if c = '\n' then 1 else 0

/-- Reads the string whose prefix is `lead` and whose opening quote is taken. A string that runs
into the end of its line is not read: its quote is stray. Nothing is read when triple quotes stay
open. -/
def readString (lead : List Char) (quote : Char) (s : List Char) : Option (Lexeme × List Char) :=
  if s.take 2 = [quote, quote] then
    (closeTriple quote (s.drop 2)).map fun (text, rest) =>
      (.string (lead ++ [quote, quote, quote] ++ text) (linesInside text), rest)
  else
    match closeLine quote s with
    | some (text, rest) => some (.string (lead ++ quote :: text) (linesInside text), rest)
    | none => some (.stray (lead ++ [quote]), s)

/-- Reads a name, or the string whose prefix it is. -/
def readName (s : List Char) : Option (Lexeme × List Char) :=
  let word := s.takeWhile isNameChar
  let rest := s.dropWhile isNameChar
  match rest with
  | c :: tail =>
    if (c = '"' ∨ c = '\'') ∧ lower word ∈ stringPrefixes then readString word c tail
    else some (.name word, rest)
  | [] => some (.name word, [])

/-- Reads the longest operator. -/
def readOperator (c : Char) (s : List Char) : Lexeme × List Char :=
  if (c :: s).take 3 ∈ longOperators then (.operator ((c :: s).take 3), s.drop 2)
  else if (c :: s).take 2 ∈ pairOperators then (.operator ((c :: s).take 2), s.drop 1)
  else if c ∈ singleOperators then (.operator [c], s)
  else (.stray [c], s)

/-- Reads the element that starts with `c`, or nothing if it is a string that is never closed. -/
def read (c : Char) (s : List Char) : Option (Lexeme × List Char) :=
  if c = '#' then
    some (.comment (c :: s.takeWhile (!isLineEnd ·)), s.dropWhile (!isLineEnd ·))
  else if c = '\\' ∧ s.head?.any isLineEnd then some (.joint, afterLineEnd s)
  else if isLineEnd c then some (.lineEnd, afterLineEnd (c :: s))
  else if c.isDigit ∨ (c = '.' ∧ s.head?.any Char.isDigit) then
    let hex := c == '0' && s.head?.any fun d => d == 'x' || d == 'X'
    some (.number (c :: (takeNumber hex c s).1), (takeNumber hex c s).2)
  else if isNameStart c then readName (c :: s)
  else if c = '"' ∨ c = '\'' then readString [] c s
  else some (readOperator c s)

/-! ### What is left is shorter -/

theorem length_takeNumber_le (hex : Bool) (previous : Char) (s : List Char) :
    (takeNumber hex previous s).2.length ≤ s.length := by
  induction s generalizing previous with
  | nil => simp [takeNumber]
  | cons c s ih =>
    simp only [takeNumber]
    split
    · exact Nat.le_succ_of_le (ih c)
    · exact Nat.le_refl _

theorem length_afterLineEnd_le (s : List Char) : (afterLineEnd s).length ≤ s.length - 1 := by
  unfold afterLineEnd
  split <;> simp only [List.length_cons, List.length_nil] <;> omega

theorem length_closeLine_le {quote : Char} {s text rest : List Char}
    (h : closeLine quote s = some (text, rest)) : rest.length ≤ s.length := by
  fun_induction closeLine quote s generalizing text rest <;>
    simp_all only [Option.map_eq_some_iff, Prod.mk.injEq, Prod.exists, reduceCtorEq,
      List.length_cons, Option.some.injEq] <;> grind

theorem length_closeTriple_le {quote : Char} {s text rest : List Char}
    (h : closeTriple quote s = some (text, rest)) : rest.length ≤ s.length := by
  fun_induction closeTriple quote s generalizing text rest <;>
    simp_all only [Option.map_eq_some_iff, Prod.mk.injEq, Prod.exists, reduceCtorEq,
      List.length_cons, Option.some.injEq] <;> grind

theorem length_readString_le {lead : List Char} {quote : Char} {s rest : List Char} {l : Lexeme}
    (h : readString lead quote s = some (l, rest)) : rest.length ≤ s.length := by
  unfold readString at h
  split at h
  · obtain ⟨⟨text, tail⟩, ht, he⟩ := Option.map_eq_some_iff.1 h
    cases he
    have := length_closeTriple_le ht
    simp only [List.length_drop] at this
    omega
  · split at h
    · next ht =>
      cases h
      exact length_closeLine_le ht
    · cases h
      exact Nat.le_refl _

theorem length_readName_le {c : Char} {s rest : List Char} {l : Lexeme} (hc : isNameChar c)
    (h : readName (c :: s) = some (l, rest)) : rest.length ≤ s.length := by
  simp only [readName, List.dropWhile_cons, hc, if_true] at h
  have hle := (List.dropWhile_suffix isNameChar (l := s)).length_le
  split at h
  · next heq =>
    rw [heq] at h hle
    split at h
    · have := length_readString_le h
      simp only [List.length_cons] at hle
      omega
    · cases h
      exact hle
  · cases h
    simp

theorem isNameChar_of_isNameStart {c : Char} (h : isNameStart c) : isNameChar c := by
  simp only [isNameStart, isNameChar, isLetterOrNumber, Bool.or_eq_true] at *
  exact h.imp_left fun hl => .inl (.inl (.inl hl))

theorem length_readOperator_le (c : Char) (s : List Char) :
    (readOperator c s).2.length ≤ s.length := by
  unfold readOperator
  split
  · simp
  · split
    · simp
    · split <;> simp

/-- Every element takes at least its first character. -/
theorem length_read_le {c : Char} {s rest : List Char} {l : Lexeme}
    (h : read c s = some (l, rest)) : rest.length ≤ s.length := by
  unfold read at h
  split at h
  · cases h
    exact (List.dropWhile_suffix _).length_le
  split at h
  · cases h
    exact Nat.le_trans (length_afterLineEnd_le s) (Nat.sub_le _ _)
  split at h
  · cases h
    exact length_afterLineEnd_le (c :: s)
  split at h
  · cases h
    exact length_takeNumber_le _ _ _
  split at h
  · next hc => exact length_readName_le (isNameChar_of_isNameStart hc) h
  split at h
  · exact length_readString_le h
  · have := length_readOperator_le c s
    rwa [Option.some.inj h] at this

end Lexeme

end PotExtract.Python
