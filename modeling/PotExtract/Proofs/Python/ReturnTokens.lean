import PotExtract.Proofs.Python.CarriageReturns

/-! The tokens of a source with carriage returns stand on the same lines, and only strings with line
feeds are written differently. -/

namespace PotExtract

/-- The text with a carriage return in front of every line feed. -/
def Text.returned (s : String) : String :=
  String.ofList (withReturns s.toList)

namespace Python

open Text

/-- The token in a source with carriage returns. -/
def Token.returned (t : Token) : Token :=
  if t.kind = .string then { t with text := Text.returned t.text } else t

namespace Token

variable (t : Token)

@[simp] theorem kind_returned : t.returned.kind = t.kind := by
  unfold returned
  split <;> rfl

@[simp] theorem line_returned : t.returned.line = t.line := by
  unfold returned
  split <;> rfl

theorem returned_of_kind_ne {t : Token} (h : t.kind ≠ .string) : t.returned = t :=
  if_neg h

@[simp] theorem returned_string (text : List Char) (line : Nat) :
    (⟨.string, String.ofList text, line⟩ : Token).returned =
      ⟨.string, String.ofList (withReturns text), line⟩ := by
  simp [returned, Text.returned]

theorem map_returned_eq_self {ts : List Token} (h : ∀ t ∈ ts, t.kind ≠ .string) :
    ts.map returned = ts := by
  refine (List.map_congr_left fun t ht => ?_).trans (List.map_id ts)
  exact returned_of_kind_ne (h t ht)

end Token

namespace Cursor

/-- The cursor in a text with carriage returns. -/
def returned (c : Cursor) : Cursor :=
  { c with rest := withReturns c.rest }

variable {c : Cursor}

theorem startsStatement_withReturns (s : List Char) :
    startsStatement (withReturns s) = startsStatement s := by
  cases s with
  | nil => rfl
  | cons d s =>
    by_cases hd : d = '\n'
    · subst hd
      rfl
    · rw [withReturns_cons hd]
      rfl

theorem layout_returned (c : Cursor) : c.returned.layout = c.layout := by
  obtain ⟨hfeed, hreturn⟩ := isGap_of_lineEnd
  simp only [layout, returned, dropWhile_withReturns hfeed hreturn, startsStatement_withReturns,
    takeWhile_withReturns hfeed hreturn]

theorem map_returned_layout {changes : List Token} {indents : List Nat}
    (h : c.layout = .ok (changes, indents)) : changes.map Token.returned = changes := by
  refine Token.map_returned_eq_self fun t ht => ?_
  rcases (of_mem_layout h ht).2 with hk | hk <;> simp [hk]

theorem take_returned (c : Cursor) (l : Lexeme) (rest : List Char) :
    c.returned.take l.withReturns (withReturns rest) =
      ((c.take l rest).1.map Token.returned, (c.take l rest).2.returned) := by
  have hkeep : ∀ t : Token, t.kind ≠ .string → [t].map Token.returned = [t] := by
    intro t ht
    exact congrArg (fun u => [u]) (Token.returned_of_kind_ne ht)
  cases l with
  | string text lines => simp [take, Lexeme.withReturns, returned]
  | joint => rfl
  | lineEnd =>
    refine Prod.ext (hkeep _ ?_).symm rfl
    dsimp only
    split <;> simp
  | _ => exact Prod.ext (hkeep _ (by simp)).symm rfl

theorem finish_returned (c : Cursor) :
    c.returned.finish = ⟨c.finish.tokens.map Token.returned, c.finish.ending⟩ := by
  have hfinish : c.returned.finish = c.finish := rfl
  have htokens : c.finish.tokens.map Token.returned = c.finish.tokens := by
    refine Token.map_returned_eq_self fun t ht => ?_
    obtain ⟨-, -, hk | hk⟩ := of_mem_finish ht <;> simp [hk]
  rw [hfinish, htokens]

/-- The first character of an element, which is a carriage return if it is that of a line end. -/
theorem exists_first_returned {first : Char} {rest : List Char}
    (h : c.rest.dropWhile isGap = first :: rest) (hc : '\r' ∉ c.rest) :
    ∃ first' rest', c.returned.rest.dropWhile isGap = first' :: rest' ∧
      Lexeme.read first' rest' = (Lexeme.read first rest).map Lexeme.resultWithReturns := by
  have hdrop : c.returned.rest.dropWhile isGap = withReturns (first :: rest) := by
    rw [← h]
    exact dropWhile_withReturns isGap_of_lineEnd.1 isGap_of_lineEnd.2 c.rest
  by_cases hfeed : first = '\n'
  · subst hfeed
    refine ⟨'\r', '\n' :: withReturns rest, hdrop, ?_⟩
    rw [(Lexeme.read_feed _).2, (Lexeme.read_feed _).1]
    rfl
  · rw [withReturns_cons hfeed] at hdrop
    refine ⟨first, withReturns rest, hdrop, ?_⟩
    have hreturn : '\r' ∉ first :: rest := by
      intro hr
      rw [← h] at hr
      exact hc ((List.dropWhile_suffix isGap).mem hr)
    exact Lexeme.read_withReturns hfeed hreturn

theorem step_returned {first first' : Char} {rest rest' : List Char}
    (hread : Lexeme.read first' rest' = (Lexeme.read first rest).map Lexeme.resultWithReturns) :
    c.returned.step first' rest' =
      (c.step first rest).map fun r => (r.1.map Token.returned, r.2.returned) := by
  unfold step
  rw [layout_returned]
  cases hlayout : c.layout with
  | error fault => rfl
  | ok r =>
    obtain ⟨changes, indents⟩ := r
    rw [hread]
    cases hr : Lexeme.read first rest with
    | none => rfl
    | some r =>
      obtain ⟨l, more⟩ := r
      have htake := take_returned { c with indents := indents } l more
      have hchanges := map_returned_layout hlayout
      simp only [bind, Except.bind, pure, Except.pure, Except.map, Option.map_some,
        Lexeme.resultWithReturns, List.map_append, hchanges]
      exact congrArg (fun r : List Token × Cursor => Except.ok (changes ++ r.1, r.2)) htake

theorem not_mem_of_step {first : Char} {rest : List Char} {tokens : List Token} {next : Cursor}
    (h : c.rest.dropWhile isGap = first :: rest) (hs : c.step first rest = .ok (tokens, next))
    (hc : '\r' ∉ c.rest) : '\r' ∉ next.rest := by
  obtain ⟨changes, indents, l, more, -, hread, -, rfl⟩ := exists_of_step hs
  obtain ⟨written, hwritten, -⟩ := Lexeme.isWritten_of_read hread
  rw [take_rest]
  intro hr
  have hmem : '\r' ∈ first :: rest := by
    rw [hwritten]
    exact List.mem_append_right written hr
  rw [← h] at hmem
  exact hc ((List.dropWhile_suffix isGap).mem hmem)

theorem lex_returned (c : Cursor) (hc : '\r' ∉ c.rest) :
    c.returned.lex = ⟨c.lex.tokens.map Token.returned, c.lex.ending⟩ := by
  fun_induction lex c with
  | case1 c h =>
    have hnil : c.returned.rest.dropWhile isGap = [] := by
      have hdrop := dropWhile_withReturns isGap_of_lineEnd.1 isGap_of_lineEnd.2 c.rest
      rw [h] at hdrop
      exact hdrop
    rw [lex_of_nil hnil, finish_returned]
  | case2 c first rest h fault hs =>
    obtain ⟨first', rest', h', hread⟩ := exists_first_returned h hc
    have hs' := step_returned (c := c) hread
    rw [hs] at hs'
    rw [lex_of_error h' hs']
    rfl
  | case3 c first rest h tokens next hs _ later ih =>
    obtain ⟨first', rest', h', hread⟩ := exists_first_returned h hc
    have hs' := step_returned (c := c) hread
    rw [hs] at hs'
    rw [lex_of_step h' hs', ih (not_mem_of_step h hs hc)]
    exact congrArg (Lexed.mk · _) List.map_append.symm

end Cursor

theorem tokenize_returned {source : String} (h : '\r' ∉ source.toList) :
    tokenize (Text.returned source) =
      ⟨(tokenize source).tokens.map Token.returned, (tokenize source).ending⟩ := by
  have hlex := Cursor.lex_returned { rest := source.toList } h
  unfold tokenize Text.returned
  rw [String.toList_ofList]
  exact hlex

end Python

end PotExtract
