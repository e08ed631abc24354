import PotExtract.Proofs.Python.Brackets

/-! Text that goes on inside of brackets. What is read of a text that ends there stays the same when
a character that stands apart follows, unless the text ends in a comment or has a quote that is not
closed. -/

namespace PotExtract.Python

namespace Lexeme

variable {tail : List Char}

theorem takeWhile_append_of_dropWhile {p : Char → Bool} {s : List Char} (h : s.dropWhile p ≠ [])
    (tail : List Char) : (s ++ tail).takeWhile p = s.takeWhile p ∧
      (s ++ tail).dropWhile p = s.dropWhile p ++ tail := by
  induction s with
  | nil => exact absurd rfl h
  | cons c s ih =>
    by_cases hc : p c
    · rw [List.dropWhile_cons_of_pos hc] at h
      obtain ⟨htake, hdrop⟩ := ih h
      simp only [List.cons_append, List.takeWhile_cons_of_pos hc, List.dropWhile_cons_of_pos hc,
        htake, hdrop, and_self]
    · simp only [List.cons_append, List.takeWhile_cons_of_neg hc, List.dropWhile_cons_of_neg hc,
        and_self]

theorem read_comment_append {s rest : List Char} {l : Lexeme} (h : read '#' s = some (l, rest))
    (hrest : rest ≠ []) : read '#' (s ++ tail) = some (l, rest ++ tail) := by
  unfold read at h ⊢
  rw [if_pos rfl] at h ⊢
  cases h
  obtain ⟨htake, hdrop⟩ := takeWhile_append_of_dropWhile hrest tail
  rw [htake, hdrop]

/-- An element that is no stray is read the same in a longer text, and so is a comment that ends
before the text does. -/
theorem read_append_of_ne_stray {c : Char} {s rest : List Char} {l : Lexeme} (ht : IsApart tail)
    (hfeed : tail.head? ≠ some '\n') (h : read c s = some (l, rest))
    (hstray : ∀ text, l ≠ .stray text) (hcomment : (∃ text, l = .comment text) → rest ≠ []) :
    read c (s ++ tail) = some (l, rest ++ tail) := by
  cases hl : l.isOpen with
  | false => exact read_append ht (fun _ => hfeed) h hl
  | true =>
    have hc : c = '#' := by
      by_contra hc
      obtain ⟨text, rfl⟩ := eq_stray_of_read h hc hl
      exact hstray text rfl
    have htext : ∃ text, l = .comment text := by
      cases l with
      | comment text => exact ⟨text, rfl⟩
      | stray text => exact absurd rfl (hstray text)
      | _ => cases hl
    rw [hc] at h ⊢
    exact read_comment_append h (hcomment htext)

end Lexeme

namespace Cursor

variable {c : Cursor} {line : Nat}

theorem yields_gaps {gaps tail : List Char} (hc : 0 < c.depth) (hrest : c.rest = gaps ++ tail)
    (hgaps : ∀ g ∈ gaps, isGap g) : c.Yields [] { c with rest := tail } := by
  induction gaps generalizing c with
  | nil =>
    rw [List.nil_append] at hrest
    rw [← hrest]
    exact .refl c
  | cons g gaps ih =>
    have hgap := yields_gap hc hrest (hgaps g List.mem_cons_self)
    exact hgap.trans (ih (c := { c with rest := gaps ++ tail }) hc rfl fun g' hg' =>
      hgaps g' (List.mem_cons_of_mem g hg'))

theorem fault_of_step {first : Char} {rest : List Char} {fault : LexFault}
    (h : c.step first rest = .error fault) : fault ≠ .openBracket := by
  rintro rfl
  unfold step at h
  cases hl : c.layout with
  | error fault =>
    rw [hl] at h
    cases h
    unfold layout at hl
    split at hl
    · unfold indentTo at hl
      dsimp only at hl
      split at hl
      · cases hl
      split at hl <;> cases hl
    · cases hl
  | ok changes =>
    rw [hl] at h
    simp only [bind, Except.bind, pure, Except.pure] at h
    split at h <;> cases h

/-- The end of a text inside of brackets has no tokens. -/
theorem finish_of_openBracket (h : c.finish.ending = .error ⟨.openBracket, line⟩) :
    0 < c.depth ∧ c.line = line ∧ c.finish.tokens = [] := by
  unfold finish at h ⊢
  split
  · next hd =>
    rw [if_pos hd] at h
    cases h
    exact ⟨hd, rfl, rfl⟩
  · next hd =>
    rw [if_neg hd] at h
    cases h

theorem indents_of_step {next : Cursor} {first : Char} {rest : List Char} {tokens : List Token}
    (hd : 0 < c.depth) (h : c.step first rest = .ok (tokens, next)) : next.indents = c.indents := by
  obtain ⟨changes, indents, lexeme, more, hlayout, -, -, rfl⟩ := exists_of_step h
  rw [isSettled_of_depth hd] at hlayout
  cases hlayout
  cases lexeme <;> rfl

/-- The cursor at the end of a text that ends inside of brackets. Further text is read from there,
if it starts with a character that stands apart. -/
structure EndsAt (c d : Cursor) (line : Nat) : Prop where
  depth_pos : 0 < d.depth
  line_eq : d.line = line
  depth_eq : d.depth = depthBehind c.depth c.lex.tokens
  indents_eq : (∀ init, init <+: c.lex.tokens → 0 < depthBehind c.depth init) →
    d.indents = c.indents
  yields : ∀ tail, Lexeme.IsApart tail → tail.head? ≠ some '\n' →
    ({ c with rest := c.rest ++ tail } : Cursor).Yields c.lex.tokens { d with rest := tail }

theorem exists_endsAt (c : Cursor) (hend : c.lex.ending = .error ⟨.openBracket, line⟩)
    (hstray : ∀ t ∈ c.lex.tokens, t.kind ≠ .stray)
    (hcomment : ∀ t ∈ c.lex.tokens.getLast?, t.kind ≠ .comment) : ∃ d, c.EndsAt d line := by
  fun_induction lex c with
  | case1 c h =>
    obtain ⟨hd, hline, htokens⟩ := finish_of_openBracket hend
    have hlex : c.lex.tokens = [] := by rw [lex_of_nil h, htokens]
    refine ⟨c, hd, hline, by rw [hlex]; rfl, fun _ => rfl, fun tail _ _ => ?_⟩
    rw [hlex]
    exact yields_gaps (c := { c with rest := c.rest ++ tail }) hd rfl (List.dropWhile_eq_nil_iff.1 h)
  | case2 c first rest h fault hs =>
    cases hend
    exact absurd rfl (fault_of_step hs)
  | case3 c first rest h tokens next hs _ later ih =>
    have hlex := lex_of_step h hs
    obtain ⟨changes, indents, lexeme, more, hlayout, hread, htokens, hnext⟩ := exists_of_step hs
    have hlast : ∀ t ∈ later.tokens.getLast?, t.kind ≠ .comment := by
      intro t ht
      refine hcomment t ?_
      rw [List.getLast?_append, ht]
      rfl
    obtain ⟨d, hd⟩ := ih hend (fun t ht => hstray t (List.mem_append_right _ ht)) hlast
    refine ⟨d, hd.depth_pos, hd.line_eq, ?_, fun hdepth => ?_, fun tail htail hfeed => ?_⟩
    · rw [hd.depth_eq, hlex, depthBehind_append, depth_step hs]
    · have hpos : 0 < c.depth := hdepth [] (List.nil_prefix)
      rw [hd.indents_eq fun init hinit => ?_, indents_of_step hpos hs]
      rw [depth_step hs, ← depthBehind_append]
      refine hdepth _ ?_
      rw [hlex]
      exact (List.prefix_append_right_inj tokens).2 hinit
    · have hread' : Lexeme.read first (rest ++ tail) = some (lexeme, more ++ tail) := by
        refine Lexeme.read_append_of_ne_stray htail hfeed hread ?_ ?_
        · rintro text rfl
          refine hstray ⟨.stray, String.ofList text, c.line⟩ ?_ rfl
          rw [htokens]
          simp [take]
        · rintro ⟨text, rfl⟩ rfl
          -- a comment up to the end is the last token
          have hfinish : later = next.finish := by
            refine lex_of_nil ?_
            rw [hnext, take_rest]
            rfl
          have hnil : later.tokens = [] := by
            rw [hfinish] at hend ⊢
            exact (finish_of_openBracket hend).2.2
          refine hcomment ⟨.comment, String.ofList text, c.line⟩ ?_ rfl
          rw [hnil, List.append_nil, htokens]
          simp [take]
      have hstep := step_append h hread hread' hs
      have hyields := lex_of_step (layout_append h tail).2 hstep
      rw [hlex]
      exact Yields.trans hyields (hd.yields tail htail hfeed)

/-- The cursor behind a closing parenthesis. -/
def behindParenthesis (d : Cursor) (rest : List Char) : Cursor :=
  { d with rest := rest, depth := d.depth - 1, atLineStart := false, inStatement := true }

theorem EndsAt.yields_parenthesis {d : Cursor} (h : c.EndsAt d line) (rest : List Char) :
    ({ c with rest := c.rest ++ ')' :: rest } : Cursor).Yields
      (c.lex.tokens ++ [⟨.operator, ")", line⟩]) (d.behindParenthesis rest) := by
  have hapart : Lexeme.IsApart (')' :: rest) := by
    intro e he
    cases he
    decide
  have hclose := yields_bracket (c := { d with rest := ')' :: rest })
    (isSettled_of_depth h.depth_pos) rfl (by decide)
  rw [← h.line_eq]
  exact (h.yields (')' :: rest) hapart (by simp)).trans hclose

end Cursor

end PotExtract.Python
