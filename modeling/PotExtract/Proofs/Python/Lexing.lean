import Mathlib.Data.List.Pairwise
import Mathlib.Data.List.TakeWhile
import PotExtract.Proofs.Outcome
import PotExtract.Proofs.Python.Lookahead
import PotExtract.Python.Lexer

/-! Reading a text piece by piece: the tokens of its elements are put together in order, and inside
of brackets, where no indentation counts, the gaps between them are left out. -/

namespace PotExtract.Python.Cursor

variable {c d e : Cursor} {ts us : List Token}

/-- A step reads one element behind the change of indentation in front of it. -/
theorem exists_of_step {first : Char} {rest : List Char} {tokens : List Token} {next : Cursor}
    (h : c.step first rest = .ok (tokens, next)) :
    ∃ changes indents lexeme more, c.layout = .ok (changes, indents) ∧
      Lexeme.read first rest = some (lexeme, more) ∧
      tokens = changes ++ (({ c with indents := indents } : Cursor).take lexeme more).1 ∧
      next = (({ c with indents := indents } : Cursor).take lexeme more).2 := by
  obtain ⟨⟨changes, indents⟩, hlayout, h⟩ := bind_eq_ok.1 h
  dsimp only at h
  split at h
  · cases h
  · next lexeme more hr =>
    cases h
    exact ⟨changes, indents, lexeme, more, hlayout, hr, rfl, rfl⟩

/-- A change of indentation is made of indents or dedents without text. -/
theorem eq_of_mem_layout {changes : List Token} {indents : List Nat}
    (h : c.layout = .ok (changes, indents)) {t : Token} (ht : t ∈ changes) :
    t = ⟨.indent, "", c.line⟩ ∨ t = ⟨.dedent, "", c.line⟩ := by
  unfold layout at h
  split at h
  · unfold indentTo at h
    dsimp only at h
    split at h
    · cases h
      exact .inl (List.mem_singleton.1 ht)
    split at h
    · cases h
      obtain ⟨_, -, rfl⟩ := List.mem_map.1 ht
      exact .inr rfl
    · cases h
  · cases h
    cases ht

theorem of_mem_layout {changes : List Token} {indents : List Nat}
    (h : c.layout = .ok (changes, indents)) {t : Token} (ht : t ∈ changes) :
    t.line = c.line ∧ (t.kind = .indent ∨ t.kind = .dedent) := by
  rcases eq_of_mem_layout h ht with rfl | rfl
  · exact ⟨rfl, .inl rfl⟩
  · exact ⟨rfl, .inr rfl⟩

/-- The end of a text ends a statement and closes indentations, outside of brackets. -/
theorem eq_of_mem_finish {t : Token} (ht : t ∈ c.finish.tokens) :
    c.depth = 0 ∧ (t = ⟨.newline, "", c.line⟩ ∨ t = ⟨.dedent, "", c.line⟩) := by
  unfold finish at ht
  split at ht
  · cases ht
  · next hdepth =>
    refine ⟨Nat.eq_zero_of_not_pos hdepth, ?_⟩
    rcases List.mem_append.1 ht with ht | ht
    · split at ht
      · exact .inl (List.mem_singleton.1 ht)
      · cases ht
    · obtain ⟨_, -, rfl⟩ := List.mem_map.1 ht
      exact .inr rfl

theorem of_mem_finish {t : Token} (ht : t ∈ c.finish.tokens) :
    c.depth = 0 ∧ t.line = c.line ∧ (t.kind = .newline ∨ t.kind = .dedent) := by
  obtain ⟨hdepth, rfl | rfl⟩ := eq_of_mem_finish ht
  · exact ⟨hdepth, rfl, .inl rfl⟩
  · exact ⟨hdepth, rfl, .inr rfl⟩

theorem step_of_read {changes : List Token} {indents : List Nat} {first : Char}
    {rest more : List Char} {l : Lexeme} (h : c.layout = .ok (changes, indents))
    (hread : Lexeme.read first rest = some (l, more)) :
    c.step first rest = .ok (changes ++ (({ c with indents := indents } : Cursor).take l more).1,
      (({ c with indents := indents } : Cursor).take l more).2) := by
  simp [step, h, hread, bind, Except.bind, pure, Except.pure]

theorem isGap_of_lineEnd : isGap '\n' = false ∧ isGap '\r' = false := by decide

theorem isGap_of_dropWhile {s rest : List Char} {first : Char}
    (h : s.dropWhile isGap = first :: rest) : isGap first = false := by
  have := List.head?_dropWhile_not isGap s
  rw [h] at this
  exact this

theorem rest_eq_of_dropWhile {first : Char} {rest : List Char}
    (h : c.rest.dropWhile isGap = first :: rest) :
    c.rest = c.rest.takeWhile isGap ++ first :: rest := by
  rw [← h, List.takeWhile_append_dropWhile]

/-- The next tokens at `c` are `ts`, and those behind them are the ones at `d`. -/
def Yields (c : Cursor) (ts : List Token) (d : Cursor) : Prop :=
  c.lex = ⟨ts ++ d.lex.tokens, d.lex.ending⟩

theorem Yields.refl (c : Cursor) : c.Yields [] c := rfl

theorem Yields.trans (h : c.Yields ts d) (h' : d.Yields us e) : c.Yields (ts ++ us) e := by
  unfold Yields at *
  rw [h, h', List.append_assoc]

/-- Whether the indentation in front of what follows does not count. -/
def IsSettled (c : Cursor) : Prop :=
  c.layout = .ok ([], c.indents)

theorem isSettled_of_depth (h : 0 < c.depth) : c.IsSettled := by
  simp [IsSettled, layout, Nat.ne_of_gt h]

theorem step_of_isSettled {first : Char} {rest more : List Char} {l : Lexeme} (hc : c.IsSettled)
    (hr : Lexeme.read first rest = some (l, more)) : c.step first rest = .ok (c.take l more) := by
  rw [IsSettled] at hc
  simp [step, hc, hr, bind, Except.bind, pure, Except.pure]

/-- An element yields its tokens. -/
theorem yields_element {first : Char} {rest more : List Char} {l : Lexeme} (hc : c.IsSettled)
    (hrest : c.rest = first :: rest) (hgap : isGap first = false)
    (hr : Lexeme.read first rest = some (l, more)) : c.Yields (c.take l more).1 (c.take l more).2 :=
  lex_of_step (by simp [hrest, hgap]) (step_of_isSettled hc hr)

/-- A gap yields nothing. -/
theorem yields_gap {g : Char} {s : List Char} (hc : 0 < c.depth) (hrest : c.rest = g :: s)
    (hgap : isGap g) : c.Yields [] { c with rest := s } := by
  have hdrop : c.rest.dropWhile isGap = s.dropWhile isGap := by simp [hrest, hgap]
  have hd : ({ c with rest := s } : Cursor).IsSettled := isSettled_of_depth hc
  have hsettled := isSettled_of_depth hc
  show c.lex = ⟨({ c with rest := s } : Cursor).lex.tokens, _⟩
  cases hs : s.dropWhile isGap with
  | nil => rw [lex_of_nil (hdrop.trans hs), lex_of_nil (c := { c with rest := s }) hs]; rfl
  | cons first rest =>
    cases hr : Lexeme.read first rest with
    | none =>
      have hstep : ∀ b : Cursor, b.IsSettled → b.step first rest = .error .openString := by
        intro b hb
        rw [IsSettled] at hb
        simp [step, hb, hr, bind, Except.bind]
      rw [lex_of_error (hdrop.trans hs) (hstep _ hsettled),
        lex_of_error (c := { c with rest := s }) hs (hstep _ hd)]
    | some found =>
      obtain ⟨l, more⟩ := found
      have htake : ({ c with rest := s } : Cursor).take l more = c.take l more := by cases l <;> rfl
      rw [lex_of_step (hdrop.trans hs) (step_of_isSettled hsettled hr),
        lex_of_step (c := { c with rest := s }) hs (htake ▸ step_of_isSettled hd hr)]

theorem yields_bracket {b : Char} {s : List Char} (hc : c.IsSettled) (hrest : c.rest = b :: s)
    (hb : b ∈ ['(', ')', '[', ']', '\x7b', '\x7d']) :
    c.Yields [⟨.operator, String.ofList [b], c.line⟩] (c.take (.operator [b]) s).2 := by
  have hgap : ∀ b ∈ ['(', ')', '[', ']', '\x7b', '\x7d'], isGap b = false := by simp [isGap]
  exact yields_element hc hrest (hgap b hb) (Lexeme.read_bracket hb s)

/-- The brackets that are open behind an element are those in front of it, operators aside. -/
theorem depth_take {l : Lexeme} (rest : List Char) (hl : ∀ op, l ≠ .operator op) :
    (c.take l rest).2.depth = c.depth := by
  cases l with
  | operator op => exact absurd rfl (hl op)
  | _ => rfl

/-! ### Text that goes on -/

theorem layout_append {first : Char} {rest : List Char}
    (h : c.rest.dropWhile isGap = first :: rest) (tail : List Char) :
    ({ c with rest := c.rest ++ tail } : Cursor).layout = c.layout ∧
      (c.rest ++ tail).dropWhile isGap = first :: (rest ++ tail) := by
  have hgap := isGap_of_dropWhile h
  have hrest := rest_eq_of_dropWhile h
  have hall : ∀ d ∈ c.rest.takeWhile isGap, isGap d := fun d hd => List.mem_takeWhile_imp hd
  have hdrop : (c.rest ++ tail).dropWhile isGap = first :: (rest ++ tail) := by
    rw [hrest, List.append_assoc, List.dropWhile_append_of_pos hall, List.cons_append,
      List.dropWhile_cons_of_neg (by simp [hgap])]
  have htake : (c.rest ++ tail).takeWhile isGap = c.rest.takeWhile isGap := by
    rw [hrest, List.append_assoc, List.takeWhile_append_of_pos hall, List.cons_append,
      List.takeWhile_cons_of_neg (by simp [hgap]), List.takeWhile_append_of_pos hall,
      List.takeWhile_cons_of_neg (by simp [hgap])]
  refine ⟨?_, hdrop⟩
  simp only [layout, hdrop, htake, h, startsStatement]

theorem step_append {first : Char} {rest more tail : List Char} {lexeme : Lexeme}
    {tokens : List Token} {next : Cursor} (h : c.rest.dropWhile isGap = first :: rest)
    (hread : Lexeme.read first rest = some (lexeme, more))
    (hread' : Lexeme.read first (rest ++ tail) = some (lexeme, more ++ tail))
    (hs : c.step first rest = .ok (tokens, next)) :
    ({ c with rest := c.rest ++ tail } : Cursor).step first (rest ++ tail) =
      .ok (tokens, { next with rest := next.rest ++ tail }) := by
  obtain ⟨changes, indents, lexeme', more', hlayout, hread'', rfl, rfl⟩ := exists_of_step hs
  obtain ⟨rfl, rfl⟩ := Prod.mk.inj (Option.some.inj (hread.symm.trans hread''))
  rw [← (layout_append h tail).1] at hlayout
  simp only [step, hlayout, hread', bind, Except.bind, pure, Except.pure]
  cases lexeme <;> rfl

/-! ### The lines of tokens -/

/-- An element stands on the line of the cursor, and leads to that line or a later one. -/
theorem line_take (c : Cursor) (l : Lexeme) (rest : List Char) :
    (∀ t ∈ (c.take l rest).1, t.line = c.line) ∧ c.line ≤ (c.take l rest).2.line := by
  cases l with
  | joint | lineEnd | string => simp [take]
  | _ => simp [take]

theorem line_step {first : Char} {rest : List Char} {tokens : List Token}
    (h : c.step first rest = .ok (tokens, next)) :
    (∀ t ∈ tokens, t.line = c.line) ∧ c.line ≤ next.line := by
  obtain ⟨changes, indents, lexeme, more, hlayout, -, rfl, rfl⟩ := exists_of_step h
  obtain ⟨htokens, hnext⟩ := line_take { c with indents := indents } lexeme more
  refine ⟨fun t ht => ?_, hnext⟩
  exact (List.mem_append.1 ht).elim (fun ht => (of_mem_layout hlayout ht).1) (htokens t)

/-- Tokens on one line are in order. -/
theorem pairwise_line {tokens : List Token} {line : Nat} (h : ∀ t ∈ tokens, t.line = line) :
    tokens.Pairwise (·.line ≤ ·.line) :=
  List.pairwise_of_forall_mem_list fun t ht u hu =>
    Nat.le_of_eq ((h t ht).trans (h u hu).symm)

/-- The tokens from a cursor on stand on its line or later ones, in order. -/
theorem lines_lex (c : Cursor) :
    (∀ t ∈ c.lex.tokens, c.line ≤ t.line) ∧ c.lex.tokens.Pairwise (·.line ≤ ·.line) := by
  fun_induction lex c with
  | case1 c h =>
    have hline : ∀ t ∈ c.finish.tokens, t.line = c.line := fun t ht => (of_mem_finish ht).2.1
    exact ⟨fun t ht => Nat.le_of_eq (hline t ht).symm, pairwise_line hline⟩
  | case2 c first rest h fault hs => simp
  | case3 c first rest h tokens next hs _ later ih =>
    obtain ⟨htokens, hnext⟩ := line_step hs
    refine ⟨fun t ht => ?_, List.pairwise_append.2 ⟨pairwise_line htokens, ih.2, fun t ht u hu => ?_⟩⟩
    · rcases List.mem_append.1 ht with ht | ht
      · exact Nat.le_of_eq (htokens t ht).symm
      · exact Nat.le_trans hnext (ih.1 t ht)
    · rw [htokens t ht]
      exact Nat.le_trans hnext (ih.1 u hu)

end PotExtract.Python.Cursor

namespace PotExtract.Python

/-- The lines of tokens never decrease along a text. -/
theorem lines_tokenize (source : String) :
    (tokenize source).tokens.Pairwise (·.line ≤ ·.line) :=
  (Cursor.lines_lex _).2

end PotExtract.Python
