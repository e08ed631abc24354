import PotExtract.Proofs.Python.Answers

/-! The number of tokens of a text. An element makes one token at most, but a change of indentation
makes many, and the end of the text makes some where nothing is left to read. So the tokens to come
are counted against the text that is left, the indentations that are open and the statement that is
not ended yet. -/

namespace PotExtract.Python

namespace Cursor

variable {c : Cursor}

/-- A bound for the tokens to come: an indentation may be opened and closed again for each character
left, those that are open are to be closed, and the last statement is to be ended. -/
def potential (c : Cursor) : Nat :=
  2 * c.rest.length + c.indents.length + if c.inStatement then 1 else 0

/-- What is opened has a gap in front of it, and what is closed was open. -/
theorem length_layout_le {changes : List Token} {indents : List Nat}
    (h : c.layout = .ok (changes, indents)) :
    changes.length + indents.length ≤ c.indents.length + 2 * (c.rest.takeWhile isGap).length := by
  unfold layout at h
  split at h
  · unfold indentTo at h
    dsimp only at h
    split at h
    · next hwider =>
      have hgap : c.rest.takeWhile isGap ≠ [] := by
        intro hnil
        rw [hnil] at hwider
        exact Nat.not_lt_zero _ hwider
      have hlength := List.length_pos_iff.2 hgap
      cases h
      simp only [List.length_cons, List.length_nil]
      omega
    split at h
    · cases h
      have hindents := congrArg List.length
        (List.takeWhile_append_dropWhile (p := (column 0 (c.rest.takeWhile isGap) < ·))
          (l := c.indents))
      rw [List.length_append] at hindents
      rw [List.length_map]
      omega
    · cases h
  · cases h
    simp

/-- A step pays for its tokens. -/
theorem Next.length_add_potential_le (n : c.Next) :
    (n.changes ++ n.tokens).length + n.behind.potential ≤ c.potential := by
  have hlayout := length_layout_le n.layout_eq
  have htokens : n.tokens.length ≤ 1 := length_take_le _ _ _
  have hwritten := List.length_pos_iff.2 n.written_ne_nil
  have hindents : n.behind.indents = n.indents := indents_take _ _ _
  have hrest : c.rest.length =
      (c.rest.takeWhile isGap).length + n.written.length + n.behind.rest.length := by
    conv_lhs => rw [n.rest_eq]
    simp only [List.length_append, Next.gap]
    omega
  have hstatement : (if n.behind.inStatement then 1 else 0) ≤ 1 := by split <;> omega
  unfold potential
  rw [List.length_append, hindents, hrest]
  omega

theorem length_finish_le (c : Cursor) : c.finish.tokens.length ≤ c.potential := by
  unfold finish potential
  split
  · exact Nat.zero_le _
  · rw [List.length_append, List.length_map]
    split <;> simp only [List.length_cons, List.length_nil] <;> omega

/-- All tokens to come are paid for. -/
theorem length_lex_le (c : Cursor) : c.lex.tokens.length ≤ c.potential := by
  fun_induction lex c with
  | case1 c hnil => exact length_finish_le c
  | case2 => exact Nat.zero_le _
  | case3 c first rest hfirst tokens next hs _ later ih =>
    obtain ⟨n, -, rfl, rfl⟩ := exists_next hfirst hs
    calc (n.changes ++ n.tokens ++ later.tokens).length
        = (n.changes ++ n.tokens).length + later.tokens.length := List.length_append
      _ ≤ (n.changes ++ n.tokens).length + n.behind.potential := Nat.add_le_add_left ih _
      _ ≤ c.potential := n.length_add_potential_le

end Cursor

/-- A text has no more than two tokens for each of its characters. -/
theorem length_tokenize_le (source : String) :
    (tokenize source).tokens.length ≤ 2 * source.length := by
  calc (tokenize source).tokens.length
      ≤ Cursor.potential { rest := source.toList } := Cursor.length_lex_le _
    _ = 2 * source.toList.length := rfl
    _ = 2 * source.length := by rw [String.length_toList]

/-- The bound is met: a gap may open an indentation for a stray character, which leaves the end of
its statement and of the indentation to come. -/
example : (tokenize " ?").tokens.length = 2 * " ?".length := by decide +kernel

namespace Tokenizer

/-- An end marker is only answered where nothing is left to read, and then over and over. -/
theorem ReadsIn.answer_endMarker {t : Tokenizer} {s : List Char} {k : Nat} {token : Token}
    (h : t.ReadsIn s) (hk : t.answer k = .ok token) (hend : token.kind = .endMarker) (j : Nat) :
    t.answer (k + j) = .ok token := by
  rcases h.cases_of_answer hk with hlayout | ⟨c, -, hc⟩ | ⟨line, rfl, hup⟩
  · simp [hend] at hlayout
  · exact absurd hend (Cursor.kind_lex_ne_endMarker hc)
  · have hending : (t.after k).upcoming.ending = .ok line := by rw [hup]
    have hbehind := (answers_of_ok hending j).2
    rw [show (t.after k).upcoming.tokens.length = 0 by rw [hup]; rfl, Nat.zero_add] at hbehind
    rw [answer, after_add, hbehind]
    rfl

end Tokenizer

/-- The end marker or an error is answered to one of the first `2 * n + 2` requests for the tokens
of `n` characters. Whenever the end marker is answered, be it behind errors, it is the answer to
every further request. -/
theorem exists_answer_end (source : String) :
    (∃ k < 2 * source.length + 2,
        (∃ line, (Tokenizer.start source).answer k = .ok (Token.endMarker line)) ∨
          ∃ e, (Tokenizer.start source).answer k = .error e) ∧
      ∀ k token, (Tokenizer.start source).answer k = .ok token → token.kind = .endMarker →
        ∀ j, (Tokenizer.start source).answer (k + j) = .ok token := by
  refine ⟨⟨(tokenize source).tokens.length, ?_, ?_⟩, fun k token hk hend j =>
    (Tokenizer.readsIn_start source).answer_endMarker hk hend j⟩
  · have hle := length_tokenize_le source
    omega
  · have hanswer : (Tokenizer.start source).answer (tokenize source).tokens.length = _ :=
      (Tokenizer.answers_start source).2
    cases hending : (tokenize source).ending with
    | ok line =>
      rw [hending] at hanswer
      exact .inl ⟨line, hanswer⟩
    | error e =>
      rw [hending] at hanswer
      exact .inr ⟨e, hanswer⟩

/-- An indentation that matches no other is an error, and the end marker is answered behind it. -/
theorem exists_answer_end_badDedent :
    (Tokenizer.start "  a\n b").answer 3 = .error ⟨.badDedent, 2⟩ ∧
      (Tokenizer.start "  a\n b").answer 7 = .ok (Token.endMarker 2) ∧
      ∀ j, (Tokenizer.start "  a\n b").answer (7 + j) = .ok (Token.endMarker 2) :=
  have hend : (Tokenizer.start "  a\n b").answer 7 = .ok (Token.endMarker 2) := by decide +kernel
  ⟨by decide +kernel, hend, (exists_answer_end _).2 7 _ hend rfl⟩

end PotExtract.Python
