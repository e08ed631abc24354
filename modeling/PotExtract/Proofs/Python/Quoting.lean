import PotExtract.Python.Call
import PotExtract.Proofs.Text.Bytes
import PotExtract.Proofs.Python.Lookahead

/-! Writing a text as a string literal. The literal is read as one lexeme, whatever stands behind it
but a quote, and it denotes the text. -/

namespace PotExtract.Python

open Text Lexeme

/-- The ways to quote a text: by quotes of either kind, alone or tripled. -/
structure Quoting where
  quote : Char
  isTriple : Bool
  isQuote : quote = '"' ∨ quote = '\'' := by decide

namespace Quoting

variable (q : Quoting)

/-- A character between the quotes. Backslashes, the quote and line ends are escaped. -/
def escapeChar (c : Char) : List Char :=
  if c = '\\' ∨ c = q.quote then ['\\', c]
  else if c = '\n' then ['\\', 'n']
  else if c = '\r' then ['\\', 'r']
  else [c]

/-- The text between the quotes. -/
def escape (s : List Char) : List Char :=
  s.flatMap q.escapeChar

/-- The quotes at either end. -/
def quotes : List Char :=
  if q.isTriple then [q.quote, q.quote, q.quote] else [q.quote]

/-- The literal of a text. -/
def write (s : List Char) : List Char :=
  q.quotes ++ q.escape s ++ q.quotes

/-- A character stands for itself, or an escape stands for it. -/
theorem escapeChar_cases (c : Char) :
    (q.escapeChar c = [c] ∧ c ≠ '\\' ∧ c ≠ q.quote ∧ isLineEnd c = false) ∨
      ∃ d, q.escapeChar c = ['\\', d] ∧ d ≠ '\r' ∧ ∀ s, Literal.escape (d :: s) = ([c], s) := by
  unfold escapeChar
  by_cases h1 : c = '\\' ∨ c = q.quote
  · rw [if_pos h1]
    refine .inr ⟨c, rfl, ?_⟩
    have hc : c = '\\' ∨ c = '"' ∨ c = '\'' := by
      rcases h1 with h1 | h1
      · exact .inl h1
      · rw [h1]
        exact .inr q.isQuote
    rcases hc with rfl | rfl | rfl
    all_goals
      exact ⟨by decide, fun s => by simp [Literal.escape, Literal.isOctal, Literal.simpleEscape?]⟩
  rw [if_neg h1]
  by_cases h2 : c = '\n'
  · rw [if_pos h2, h2]
    exact .inr ⟨'n', rfl, by decide, fun s => by
      simp [Literal.escape, Literal.isOctal, Literal.simpleEscape?]⟩
  rw [if_neg h2]
  by_cases h3 : c = '\r'
  · rw [if_pos h3, h3]
    exact .inr ⟨'r', rfl, by decide, fun s => by
      simp [Literal.escape, Literal.isOctal, Literal.simpleEscape?]⟩
  rw [if_neg h3]
  rw [not_or] at h1
  exact .inl ⟨rfl, h1.1, h1.2, by simp [isLineEnd, h2, h3]⟩

theorem escape_cons (c : Char) (s : List Char) : q.escape (c :: s) = q.escapeChar c ++ q.escape s :=
  List.flatMap_cons

theorem quote_ne_backslash : q.quote ≠ '\\' := by
  rcases q.isQuote with h | h <;> rw [h] <;> decide

theorem not_isLineEnd_quote : ¬isLineEnd q.quote := by
  rcases q.isQuote with h | h <;> rw [h] <;> decide

/-! ### What may stand between the quotes -/

/-- A text between the quotes and the text that it denotes. A character denotes itself, or an escape
denotes what it is decoded to. -/
inductive Escapes : List Char → List Char → Prop
  | nil : Escapes [] []
  | plain {c : Char} {t s : List Char} (slash : c ≠ '\\') (quote : c ≠ q.quote)
      (oneLine : isLineEnd c = false) (rest : Escapes t s) : Escapes (c :: t) (c :: s)
  | escape {d : Char} {cs t s : List Char} (oneLine : d ≠ '\r')
      (decoded : ∀ r, Literal.escape (d :: r) = (cs, r)) (rest : Escapes t s) :
      Escapes ('\\' :: d :: t) (cs ++ s)

theorem escapes_escape (s : List Char) : q.Escapes (q.escape s) s := by
  induction s with
  | nil => exact .nil
  | cons c s ih =>
    rw [escape_cons]
    rcases q.escapeChar_cases c with ⟨h, hslash, hq, hend⟩ | ⟨d, h, hd, hdecoded⟩ <;> rw [h]
    · exact .plain hslash hq hend ih
    · exact .escape hd hdecoded ih

variable {q} {t s : List Char}

/-- No such text starts with the quote. -/
theorem Escapes.head?_ne (h : q.Escapes t s) : t.head? ≠ some q.quote := by
  cases h with
  | nil => simp
  | plain _ hq => simpa using hq
  | escape => simpa using q.quote_ne_backslash.symm

theorem Escapes.closeLine (h : q.Escapes t s) (rest : List Char) :
    Lexeme.closeLine q.quote (t ++ q.quote :: rest) = some (t ++ [q.quote], rest) := by
  induction h with
  | nil => simp [closeLine_cons _ q.quote_ne_backslash, q.not_isLineEnd_quote]
  | plain hslash hq hend _ ih => simp [closeLine_cons _ hslash, hend, hq, ih]
  | escape hd _ _ ih =>
    simp only [List.cons_append]
    rw [closeLine.eq_3 _ _ _ fun _ hr _ => hd hr, ih]
    rfl

/-- Without a quote behind it the text is not closed. -/
theorem Escapes.closeLine_eq_none (h : q.Escapes t s) : Lexeme.closeLine q.quote t = none := by
  induction h with
  | nil => rfl
  | plain hslash hq hend _ ih => simp [closeLine_cons _ hslash, hend, hq, ih]
  | escape hd _ _ ih =>
    rw [closeLine.eq_3 _ _ _ fun _ hr _ => hd hr, ih]
    rfl

theorem Escapes.closeTriple (h : q.Escapes t s) (rest : List Char) :
    Lexeme.closeTriple q.quote (t ++ [q.quote, q.quote, q.quote] ++ rest) =
      some (t ++ [q.quote, q.quote, q.quote], rest) := by
  induction h with
  | nil => simp [closeTriple_cons _ q.quote_ne_backslash]
  | plain hslash hq _ _ ih =>
    simp only [List.cons_append, List.nil_append, List.append_assoc] at ih ⊢
    rw [closeTriple_cons _ hslash, if_neg fun hc => hq hc.1, ih]
    rfl
  | escape hd _ _ ih =>
    simp only [List.cons_append, List.nil_append, List.append_assoc] at ih ⊢
    rw [closeTriple.eq_3 _ _ _ fun _ hr _ => hd hr, ih]
    rfl

theorem Escapes.unescape (h : q.Escapes t s) : Literal.unescape t = s := by
  induction h with
  | nil => simp [Literal.unescape]
  | plain hslash _ _ _ ih => rw [Literal.unescape, if_neg hslash, ih]
  | escape _ hdecoded _ ih => rw [Literal.unescape, if_pos rfl, hdecoded, ih]

/-- Two quotes behind the first one are not those of a text between single quotes. -/
theorem Escapes.take_two_ne (h : q.Escapes t s) {tail : List Char}
    (ht : ∀ c ∈ tail.head?, c ≠ q.quote) :
    (t ++ q.quote :: tail).take 2 ≠ [q.quote, q.quote] := by
  cases t with
  | nil =>
    cases tail with
    | nil => simp
    | cons c tail => simpa using ht c rfl
  | cons c t =>
    intro heq
    exact h.head?_ne (by rw [List.head?_cons, (List.cons.inj heq).1])

/-! ### The literal as a lexeme -/

variable (q)

/-- The literal of what a text between the quotes denotes. -/
def enclose (t : List Char) : List Char :=
  q.quotes ++ t ++ q.quotes

/-- A literal behind its first quote. -/
def behindFirst (t : List Char) : List Char :=
  q.quotes.tail ++ t ++ q.quotes

theorem enclose_eq_cons (t : List Char) : q.enclose t = q.quote :: q.behindFirst t := by
  unfold enclose behindFirst quotes
  split <;> rfl

theorem enclose_escape (s : List Char) : q.enclose (q.escape s) = q.write s := rfl

/-- What starts with a quote is read as a string. -/
theorem read_quote (s : List Char) : Lexeme.read q.quote s = readString [] q.quote s := by
  have hname : isNameStart '"' = false ∧ isNameStart '\'' = false := by decide
  rcases q.isQuote with h | h <;> rw [h] <;> simp [Lexeme.read, isLineEnd, hname]

variable {q}

/-- A literal is one string, unless a quote follows it. -/
theorem Escapes.read (h : q.Escapes t s) {tail : List Char} (ht : ∀ c ∈ tail.head?, c ≠ q.quote) :
    ∃ n, Lexeme.read q.quote (q.behindFirst t ++ tail) = some (.string (q.enclose t) n, tail) := by
  cases htriple : q.isTriple with
  | true =>
    have hclose := h.closeTriple tail
    simp only [List.append_assoc, List.cons_append, List.nil_append] at hclose
    simp [read_quote, readString, behindFirst, enclose, quotes, htriple, hclose]
  | false =>
    have hclose := h.closeLine tail
    simp [read_quote, readString, behindFirst, enclose, quotes, htriple, hclose, h.take_two_ne ht]

/-! ### The literal as a text -/

theorem utf8Size_quote (q : Quoting) : q.quote.utf8Size = 1 := by
  rcases q.isQuote with hq | hq <;> rw [hq] <;> decide

/-- The quotes of a literal are counted right, unless two quotes behind the first look like three. -/
theorem quoteLength_enclose
    (h : q.isTriple = false → (t ++ [q.quote]).take 2 ≠ [q.quote, q.quote]) :
    Literal.quoteLength (q.enclose t) = byteLength q.quotes := by
  have h1 := q.utf8Size_quote
  unfold Literal.quoteLength
  rw [enclose_eq_cons]
  cases htriple : q.isTriple with
  | true =>
    have hor : (q.quote :: q.behindFirst t).take 3 = ['"', '"', '"'] ∨
        (q.quote :: q.behindFirst t).take 3 = ['\'', '\'', '\''] := by
      simp only [behindFirst, quotes, htriple]
      rcases q.isQuote with hq | hq <;> simp [hq]
    rw [if_pos hor]
    simp [quotes, htriple, h1]
  | false =>
    have hor : ¬((q.quote :: q.behindFirst t).take 3 = ['"', '"', '"'] ∨
        (q.quote :: q.behindFirst t).take 3 = ['\'', '\'', '\'']) := by
      simp only [behindFirst, quotes, htriple]
      rintro (heq | heq)
      all_goals
        obtain ⟨hq, heq⟩ := List.cons.inj heq
        exact h htriple (by rw [hq]; simpa [hq] using heq)
    rw [if_neg hor]
    simp [quotes, htriple, h1]

theorem inner?_enclose (h : Literal.quoteLength (q.enclose t) = byteLength q.quotes) :
    Literal.inner? (q.enclose t) = some t := by
  have hdrop : (q.enclose t).drop (byteLength q.quotes) = t ++ q.quotes := by
    unfold enclose quotes
    split <;> simp [q.utf8Size_quote]
  have hlen : byteLength (q.enclose t) = byteLength t + 2 * byteLength q.quotes := by
    simp only [enclose, byteLength_append]
    omega
  unfold Literal.inner?
  simp only [h, hlen, hdrop]
  rw [if_neg (by omega), Nat.add_sub_cancel, takeBytes?_append]

theorem isQuote_quote (q : Quoting) : Literal.isQuote q.quote := by
  rcases q.isQuote with hq | hq <;> rw [hq] <;> decide

theorem Escapes.inner? (h : q.Escapes t s) : Literal.inner? (q.enclose t) = some t :=
  inner?_enclose (quoteLength_enclose fun _ => h.take_two_ne (by simp))

theorem Escapes.decode (h : q.Escapes t s) : Literal.decode (q.enclose t) = some s := by
  have hq := q.isQuote_quote
  have htake : (q.enclose t).takeWhile (!Literal.isQuote ·) = [] := by simp [enclose_eq_cons, hq]
  have hdrop : (q.enclose t).dropWhile (!Literal.isQuote ·) = q.enclose t := by
    simp [enclose_eq_cons, hq]
  simp [Literal.decode, htake, hdrop, lower, h.inner?, h.unescape]

end Quoting

theorem Value.ofLiteral_enclose {q : Quoting} {t s : List Char} (h : q.Escapes t s) :
    Value.ofLiteral (String.ofList (q.enclose t)) = .text (String.ofList s) := by
  simp [Value.ofLiteral, Literal.decode?, h.decode]

/-- The literal of a text denotes that text. -/
theorem Value.ofLiteral_write (q : Quoting) (s : List Char) :
    Value.ofLiteral (String.ofList (q.write s)) = .text (String.ofList s) :=
  Value.ofLiteral_enclose (q.escapes_escape s)

end PotExtract.Python
