import PotExtract.Python.Token
import PotExtract.Python.Lexeme

/-! Reading Python source as tokens. The cursor holds the text that is left, the line, the number of
open brackets and the widths of the open indentations. Line ends inside brackets, and those of lines
without a statement, do not end a statement, and only a statement outside of brackets changes the
indentation. -/

namespace PotExtract.Python

/-- Where the reading of a text stands. Indentations are innermost first, and the outermost one, of
width zero, is left out. -/
structure Cursor where
  rest : List Char
  line : Nat := 1
  depth : Nat := 0
  indents : List Nat := []
  atLineStart : Bool := true
  inStatement : Bool := false
  deriving DecidableEq, Repr

namespace Cursor

/-- The characters between elements. -/
def isGap (c : Char) : Bool :=
  c == ' ' || c == '\t' || c == '\x0c'

/-- The column behind white space: a tab leads to the next multiple of eight, a form feed back to
the margin. -/
def column : (width : Nat) → List Char → Nat
  | width, [] => width
  | width, c :: s =>
    column (if c = '\t' then (width / 8 + 1) * 8 else if c = '\x0c' then 0 else width + 1) s

/-- Whether a statement follows, and not a comment or the end of the line. -/
def startsStatement : List Char → Bool
  | [] => false
  | c :: _ => !(c == '#' || Lexeme.isLineEnd c)

/-- The indentations left, and the tokens made, by a statement in column `width`. -/
def indentTo (line width : Nat) (indents : List Nat) : Except LexFault (List Token × List Nat) :=
  if indents.headD 0 < width then .ok ([⟨.indent, "", line⟩], width :: indents)
  else
    let kept := indents.dropWhile (width < ·)
    let closed := indents.takeWhile (width < ·)
    if kept.headD 0 = width then .ok (closed.map fun _ => ⟨.dedent, "", line⟩, kept)
    else .error .badDedent

/-- The change of indentation at the cursor, if a statement starts there. -/
def layout (c : Cursor) : Except LexFault (List Token × List Nat) :=
  if c.atLineStart && c.depth == 0 && startsStatement (c.rest.dropWhile isGap) then
    indentTo c.line (column 0 (c.rest.takeWhile isGap)) c.indents
  else .ok ([], c.indents)

/-- The number of open brackets behind an operator. A bracket closed too many is overlooked. -/
def depthAfter (depth : Nat) (op : List Char) : Nat :=
  if op = ['('] ∨ op = ['['] ∨ op = ['{'] then depth + 1
  else if op = [')'] ∨ op = [']'] ∨ op = ['}'] then depth - 1
  else depth

/-- The tokens of an element, and the cursor behind it. -/
def take (c : Cursor) (lexeme : Lexeme) (rest : List Char) : List Token × Cursor :=
  let c := { c with rest := rest, atLineStart := false }
  let token (kind : TokenKind) (text : List Char) : List Token :=
    [⟨kind, String.ofList text, c.line⟩]
  match lexeme with
  | .comment text => (token .comment text, c)
  | .joint => ([], { c with line := c.line + 1 })
  | .lineEnd =>
    (token (if c.depth = 0 ∧ c.inStatement then .newline else .lineBreak) ['\n'],
      { c with line := c.line + 1, atLineStart := true, inStatement := false })
  | .number text => (token .number text, { c with inStatement := true })
  | .name text => (token .name text, { c with inStatement := true })
  | .string text lines =>
    (token .string text, { c with inStatement := true, line := c.line + lines })
  | .operator text =>
    (token .operator text, { c with inStatement := true, depth := depthAfter c.depth text })
  | .stray text => (token .stray text, { c with inStatement := true })

/-- The tokens of the element that starts with `first`, and of the indentation in front of it. -/
def step (c : Cursor) (first : Char) (rest : List Char) :
    Except LexFault (List Token × Cursor) := do
  let (changes, indents) ← c.layout
  match Lexeme.read first rest with
  | none => .error .openString
  | some (lexeme, rest) =>
    let (tokens, c) := { c with indents := indents }.take lexeme rest
    return (changes ++ tokens, c)

/-- What the end of the text adds: the end of its last statement and of all indentations. -/
def finish (c : Cursor) : Lexed :=
  if 0 < c.depth then ⟨[], .error ⟨.openBracket, c.line⟩⟩
  else
    let newline : List Token := if c.inStatement then [⟨.newline, "", c.line⟩] else []
    ⟨newline ++ c.indents.map fun _ => ⟨.dedent, "", c.line⟩, .ok c.line⟩

theorem take_rest (c : Cursor) (lexeme : Lexeme) (rest : List Char) :
    (c.take lexeme rest).2.rest = rest := by
  cases lexeme <;> rfl

theorem length_step_le {c next : Cursor} {first : Char} {rest : List Char} {tokens : List Token}
    (h : c.step first rest = .ok (tokens, next)) : next.rest.length ≤ rest.length := by
  unfold step at h
  cases hl : c.layout with
  | error e => simp [hl, bind, Except.bind] at h
  | ok changes =>
    simp only [hl, bind, Except.bind] at h
    split at h
    · simp at h
    · next hr =>
      simp only [pure, Except.pure, Except.ok.injEq, Prod.mk.injEq] at h
      rw [← h.2, take_rest]
      exact Lexeme.length_read_le hr

theorem length_step_lt {c next : Cursor} {first : Char} {rest : List Char} {tokens : List Token}
    (h : c.rest.dropWhile isGap = first :: rest) (hs : c.step first rest = .ok (tokens, next)) :
    next.rest.length < c.rest.length := by
  have hle := (List.dropWhile_suffix isGap (l := c.rest)).length_le
  rw [h, List.length_cons] at hle
  exact Nat.lt_of_le_of_lt (length_step_le hs) hle

/-- All tokens from the cursor on. -/
def lex (c : Cursor) : Lexed :=
  match h : c.rest.dropWhile isGap with
  | [] => c.finish
  | first :: rest =>
    match hs : c.step first rest with
    | .error fault => ⟨[], .error ⟨fault, c.line⟩⟩
    | .ok (tokens, next) =>
      have : next.rest.length < c.rest.length := length_step_lt h hs
      let later := next.lex
      ⟨tokens ++ later.tokens, later.ending⟩
  termination_by c.rest.length

/-- The state behind all tokens from the cursor on. The reading stops where it fails, or where a token
is refused by `f`. -/
def foldTokens? (f : σ → Token → Option σ) (state : σ) (c : Cursor) : Option σ :=
  match h : c.rest.dropWhile isGap with
  | [] => if c.finish.ending.isOk then c.finish.tokens.foldlM f state else none
  | first :: rest =>
    match hs : c.step first rest with
    | .error _ => none
    | .ok (tokens, next) =>
      have : next.rest.length < c.rest.length := length_step_lt h hs
      (tokens.foldlM f state).bind fun state => next.foldTokens? f state
  termination_by c.rest.length

theorem lex_of_nil {c : Cursor} (h : c.rest.dropWhile isGap = []) : c.lex = c.finish := by
  rw [lex.eq_def]
  split <;> simp_all

theorem lex_of_error {c : Cursor} {first : Char} {rest : List Char} {fault : LexFault}
    (h : c.rest.dropWhile isGap = first :: rest) (hs : c.step first rest = .error fault) :
    c.lex = ⟨[], .error ⟨fault, c.line⟩⟩ := by
  rw [lex.eq_def]
  split
  · simp_all
  · next first' rest' h' =>
    obtain ⟨rfl, rfl⟩ := List.cons.inj (h.symm.trans h')
    split <;> simp_all

theorem lex_of_step {c next : Cursor} {first : Char} {rest : List Char} {tokens : List Token}
    (h : c.rest.dropWhile isGap = first :: rest) (hs : c.step first rest = .ok (tokens, next)) :
    c.lex = ⟨tokens ++ next.lex.tokens, next.lex.ending⟩ := by
  rw [lex.eq_def]
  split
  · simp_all
  · next first' rest' h' =>
    obtain ⟨rfl, rfl⟩ := List.cons.inj (h.symm.trans h')
    split <;> simp_all

/-- Stopping early changes nothing: the state is that behind the tokens of the whole reading. -/
theorem foldTokens?_eq (f : σ → Token → Option σ) (state : σ) (c : Cursor) :
    c.foldTokens? f state = if c.lex.ending.isOk then c.lex.tokens.foldlM f state else none := by
  fun_induction foldTokens? f state c with
  | case1 state c h hok => rw [lex_of_nil h, if_pos hok]
  | case2 state c h hok => rw [lex_of_nil h, if_neg hok]
  | case3 state c first rest h fault hs => simp [lex_of_error h hs, Except.isOk, Except.toBool]
  | case4 state c first rest h tokens next hs _ ih =>
    rw [lex_of_step h hs, List.foldlM_append]
    cases ht : tokens.foldlM f state with
    | none => simp
    | some state => simpa [ht] using ih state

end Cursor

/-- The tokens of a text. -/
def tokenize (source : String) : Lexed :=
  Cursor.lex { rest := source.toList }

/-- The tokens of a text with the end marker, as far as there is one. -/
def Lexed.all (l : Lexed) : List Token :=
  match l.ending with
  | .ok line => l.tokens ++ [Token.endMarker line]
  | .error _ => l.tokens

end PotExtract.Python
