import PotExtract.Proofs.Python.LexemeTexts
import PotExtract.Proofs.Python.Lexing

/-! The way from the start of a text to a token. The cursor passes over the elements in front of the
token one by one, each with the gap in front of it. -/

namespace PotExtract.Python.Cursor

variable {c d : Cursor} {t : Token} {ts us : List Token}

theorem length_take_le (c : Cursor) (l : Lexeme) (rest : List Char) :
    (c.take l rest).1.length ≤ 1 := by
  cases l <;> simp [take]

/-- The cursor in front of an element, behind the change of indentation there. -/
def behindLayout (c : Cursor) (first : Char) (rest : List Char) (indents : List Nat) : Cursor :=
  { c with rest := first :: rest, indents := indents, atLineStart := false }

theorem yields_behindLayout {first : Char} {rest more : List Char} {changes : List Token}
    {indents : List Nat} {l : Lexeme} (hfirst : c.rest.dropWhile isGap = first :: rest)
    (hlayout : c.layout = .ok (changes, indents))
    (hread : Lexeme.read first rest = some (l, more)) :
    c.Yields changes (c.behindLayout first rest indents) ∧
      (c.behindLayout first rest indents).Yields
        (({ c with indents := indents } : Cursor).take l more).1
        (({ c with indents := indents } : Cursor).take l more).2 := by
  have hgap := isGap_of_dropWhile hfirst
  have hsettled : (c.behindLayout first rest indents).IsSettled := by
    simp [IsSettled, layout, behindLayout]
  have htake : (c.behindLayout first rest indents).take l more =
      ({ c with indents := indents } : Cursor).take l more := by
    cases l <;> rfl
  have helement := yields_element hsettled rfl hgap hread
  rw [htake] at helement
  refine ⟨?_, helement⟩
  unfold Yields
  rw [lex_of_step hfirst (step_of_read hlayout hread), helement, List.append_assoc]

/-! ### The next element -/

/-- The element that is read next at a cursor, with the change of indentation in front of it, the
text that is written for it, and the text behind it. -/
structure Next (c : Cursor) where
  first : Char
  rest : List Char
  changes : List Token
  indents : List Nat
  lexeme : Lexeme
  written : List Char
  more : List Char
  dropWhile_rest : c.rest.dropWhile isGap = first :: rest
  layout_eq : c.layout = .ok (changes, indents)
  read_eq : Lexeme.read first rest = some (lexeme, more)
  text_eq : first :: rest = written ++ more
  isWritten : lexeme.IsWritten written

namespace Next

/-- The text in front of the element. -/
def gap (_ : c.Next) : List Char :=
  c.rest.takeWhile isGap

/-- The token of the element, if it has one. -/
def tokens (n : c.Next) : List Token :=
  (({ c with indents := n.indents } : Cursor).take n.lexeme n.more).1

/-- The cursor behind the element. -/
def behind (n : c.Next) : Cursor :=
  (({ c with indents := n.indents } : Cursor).take n.lexeme n.more).2

/-- The cursor in front of the element, behind the change of indentation. -/
def start (n : c.Next) : Cursor :=
  c.behindLayout n.first n.rest n.indents

theorem rest_behind (n : c.Next) : n.behind.rest = n.more :=
  take_rest _ _ _

theorem rest_start (n : c.Next) : n.start.rest = n.written ++ n.behind.rest := by
  rw [rest_behind]
  exact n.text_eq

theorem rest_eq (n : c.Next) : c.rest = n.gap ++ (n.written ++ n.behind.rest) := by
  rw [rest_behind, ← n.text_eq]
  exact rest_eq_of_dropWhile n.dropWhile_rest

theorem isGap_of_mem_gap (n : c.Next) : ∀ d ∈ n.gap, isGap d :=
  fun _ hd => List.mem_takeWhile_imp hd

theorem written_ne_nil (n : c.Next) : n.written ≠ [] := by
  obtain ⟨w, hw, -⟩ := Lexeme.exists_cons_of_read n.read_eq n.text_eq
  rw [hw]
  exact List.cons_ne_nil _ _

theorem yields_start (n : c.Next) : c.Yields n.changes n.start :=
  (yields_behindLayout n.dropWhile_rest n.layout_eq n.read_eq).1

theorem yields_tokens (n : c.Next) : n.start.Yields n.tokens n.behind :=
  (yields_behindLayout n.dropWhile_rest n.layout_eq n.read_eq).2

theorem yields (n : c.Next) : c.Yields (n.changes ++ n.tokens) n.behind :=
  n.yields_start.trans n.yields_tokens

end Next

/-- A step passes over the next element. -/
theorem exists_next {first : Char} {rest : List Char} {tokens : List Token} {next : Cursor}
    (h : c.rest.dropWhile isGap = first :: rest) (hs : c.step first rest = .ok (tokens, next)) :
    ∃ n : c.Next, first :: rest = n.written ++ n.behind.rest ∧ tokens = n.changes ++ n.tokens ∧
      next = n.behind := by
  obtain ⟨changes, indents, lexeme, more, hlayout, hread, rfl, rfl⟩ := exists_of_step hs
  obtain ⟨written, hw, hl⟩ := Lexeme.isWritten_of_read hread
  let n : c.Next := ⟨first, rest, changes, indents, lexeme, written, more, h, hlayout, hread, hw, hl⟩
  exact ⟨n, n.rest_start, rfl, rfl⟩

/-! ### Elements in a row -/

/-- From `c` on, the cursor passes over elements and comes to `d`. Their text, with the gaps between
them, is `front`, and their tokens are `ts`. -/
inductive Passes : Cursor → List Char → List Token → Cursor → Prop
  | refl (c : Cursor) : Passes c [] [] c
  | step {c d : Cursor} {front : List Char} {ts : List Token} (n : c.Next) :
    Passes n.behind front ts d →
    Passes c (n.gap ++ n.written ++ front) (n.changes ++ n.tokens ++ ts) d

namespace Passes

variable {front : List Char}

theorem rest_eq (h : c.Passes front ts d) : c.rest = front ++ d.rest := by
  induction h with
  | refl c => rfl
  | step n _ ih => rw [n.rest_eq, ih, List.append_assoc, List.append_assoc]

theorem yields (h : c.Passes front ts d) : c.Yields ts d := by
  induction h with
  | refl c => exact .refl c
  | step n _ ih => exact n.yields.trans ih

end Passes

/-- A token behind others is the one at their end, or one of those that follow. -/
theorem eq_or_exists_of_append {changes own later : List Token} (hown : own.length ≤ 1)
    (hchanges : t ∉ changes) (h : changes ++ own ++ later = ts ++ t :: us) :
    (ts = changes ∧ own = [t] ∧ us = later) ∨
      ∃ vs, ts = changes ++ own ++ vs ∧ later = vs ++ t :: us := by
  rcases List.append_eq_append_iff.1 h with ⟨vs, hts, hlater⟩ | ⟨vs, hown', hus⟩
  · exact .inr ⟨vs, hts, hlater⟩
  cases vs with
  | nil => exact .inr ⟨[], by simpa using hown'.symm, by simpa using hus.symm⟩
  | cons v vs =>
    obtain ⟨rfl, rfl⟩ := List.cons.inj hus
    have hmem : ∀ ws, changes ≠ ts ++ t :: ws := by
      rintro ws rfl
      exact hchanges (by simp)
    obtain rfl | ⟨u, rfl⟩ : own = [] ∨ ∃ u, own = [u] := by
      cases own with
      | nil => exact .inl rfl
      | cons u own =>
        cases own with
        | nil => exact .inr ⟨u, rfl⟩
        | cons w own => simp at hown
    · exact absurd (by simpa using hown') (hmem vs)
    · rcases List.eq_nil_or_concat vs with rfl | ⟨ws, w, rfl⟩
      · obtain ⟨rfl, hu⟩ := List.append_inj' hown' rfl
        exact .inl ⟨rfl, hu, rfl⟩
      · have hsplit : changes ++ [u] = (ts ++ t :: ws) ++ [w] := by simpa using hown'
        exact absurd (List.append_inj' hsplit rfl).1 (hmem ws)

/-- The cursor comes to every token of the text that is neither a change of indentation nor the end
of the last statement. -/
theorem exists_passes (hlex : c.lex.tokens = ts ++ t :: us)
    (ht : t.kind ≠ .newline ∧ t.kind ≠ .indent ∧ t.kind ≠ .dedent) :
    ∃ front vs d, ∃ n : d.Next, c.Passes front vs d ∧ ts = vs ++ n.changes ∧ n.tokens = [t] ∧
      n.behind.lex.tokens = us := by
  fun_induction lex c generalizing ts with
  | case1 c hnil =>
    have hmem : t ∈ c.finish.tokens := by simp [hlex]
    exact ((of_mem_finish hmem).2.2.elim ht.1 ht.2.2).elim
  | case2 => simp at hlex
  | case3 c first rest hfirst tokens next hs _ later =>
    rename_i ih
    obtain ⟨n, -, rfl, rfl⟩ := exists_next hfirst hs
    have hnot : t ∉ n.changes := fun hmem =>
      ((of_mem_layout n.layout_eq hmem).2.elim ht.2.1 ht.2.2).elim
    rcases eq_or_exists_of_append (length_take_le _ _ _) hnot hlex with
      ⟨rfl, hown, hus⟩ | ⟨vs, rfl, hvs⟩
    · exact ⟨[], [], c, n, .refl c, rfl, hown, hus.symm⟩
    · obtain ⟨front, ws, d, m, hpasses, rfl, hm⟩ := ih hvs
      exact ⟨_, _, d, m, .step n hpasses, (List.append_assoc _ _ _).symm, hm⟩

/-- A reading that comes to the end of the text passes over all its elements. -/
theorem exists_passes_of_ok {line : Nat} (h : c.lex.ending = .ok line) :
    ∃ front ts d, c.Passes front ts d ∧ d.rest.dropWhile isGap = [] ∧ d.depth = 0 ∧
      d.line = line ∧ c.lex.tokens = ts ++ d.finish.tokens := by
  fun_induction lex c with
  | case1 c hnil =>
    refine ⟨[], [], c, .refl c, hnil, ?_⟩
    unfold finish at h ⊢
    split at h
    · cases h
    · next hdepth =>
      rw [if_neg hdepth]
      exact ⟨Nat.eq_zero_of_not_pos hdepth, Except.ok.inj h, rfl⟩
  | case2 => cases h
  | case3 c first rest hfirst tokens next hs _ later ih =>
    obtain ⟨n, -, rfl, rfl⟩ := exists_next hfirst hs
    obtain ⟨front, ts, d, hpasses, hnil, hdepth, hline, htokens⟩ := ih h
    refine ⟨_, _, d, .step n hpasses, hnil, hdepth, hline, ?_⟩
    rw [List.append_assoc (n.changes ++ n.tokens), ← htokens]

end PotExtract.Python.Cursor
