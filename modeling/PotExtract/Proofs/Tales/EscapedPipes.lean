import PotExtract.Proofs.Tales.Pipes
import PotExtract.Proofs.Python.LiteralCalls

/-! Pipes in the literal of a call of the underscore. A backslash in front of a pipe keeps the call
together and is dropped from it, unless it belongs to the literal. A pipe without one cuts the call,
and no part of it is an expression. -/

namespace PotExtract.Tales

open Text Python

/-- Whether every pipe stands directly behind a backslash. One stands in front of the text if
`escaped`. -/
def pipesEscaped (escaped : Bool) : List Char → Bool
  | [] => true
  | c :: s => (c != '|' || escaped) && pipesEscaped (c == '\\') s

/-- The text with a backslash in front of every pipe. -/
def escapePipes (s : List Char) : List Char :=
  s.flatMap fun c => if c = '|' then ['\\', '|'] else [c]

/-! ### Cutting at pipes -/

theorem splitPipes_of_pipesEscaped {escaped : Bool} {s : List Char} (h : pipesEscaped escaped s) :
    splitPipes escaped s = [s] := by
  induction s generalizing escaped with
  | nil => rfl
  | cons c s ih =>
    obtain ⟨hc, hs⟩ : (c ≠ '|' ∨ escaped = true) ∧ pipesEscaped (c == '\\') s := by
      simpa [pipesEscaped] using h
    have hcut : ¬(c = '|' ∧ !escaped) := by
      rintro ⟨rfl, hescaped⟩
      simp [show escaped = true by simpa using hc] at hescaped
    rw [splitPipes, if_neg hcut, ih hs]
    rfl

/-- A text is cut at its first pipe without a backslash in front. -/
theorem splitPipes_append_pipe {escaped : Bool} {a : List Char} (h : pipesEscaped escaped a)
    (hnil : a = [] → escaped = false) (hlast : a.getLast? ≠ some '\\') (b : List Char) :
    splitPipes escaped (a ++ '|' :: b) = a :: splitPipes false b := by
  induction a generalizing escaped with
  | nil => simp [splitPipes, hnil rfl]
  | cons c a ih =>
    obtain ⟨hc, ha⟩ : (c ≠ '|' ∨ escaped = true) ∧ pipesEscaped (c == '\\') a := by
      simpa [pipesEscaped] using h
    have hcut : ¬(c = '|' ∧ !escaped) := by
      rintro ⟨rfl, hescaped⟩
      simp [show escaped = true by simpa using hc] at hescaped
    rw [List.cons_append, splitPipes, if_neg hcut, ih ha]
    · rfl
    · rintro rfl
      simpa using hlast
    · cases a with
      | nil => simp
      | cons d a => simpa using hlast

theorem exists_open_pipe {escaped : Bool} {s : List Char} (h : pipesEscaped escaped s = false) :
    ∃ a b, s = a ++ '|' :: b ∧ pipesEscaped escaped a ∧ (a = [] → escaped = false) ∧
      a.getLast? ≠ some '\\' := by
  induction s generalizing escaped with
  | nil => cases h
  | cons c s ih =>
    by_cases hc : c = '|' ∧ escaped = false
    · exact ⟨[], s, by rw [hc.1, List.nil_append], rfl, fun _ => hc.2, by simp⟩
    · have hkept : (c != '|' || escaped) = true := by
        cases escaped <;> simp_all
      rw [pipesEscaped, hkept, Bool.true_and] at h
      obtain ⟨a, b, rfl, ha, hnil, hlast⟩ := ih h
      refine ⟨c :: a, b, rfl, by rw [pipesEscaped, hkept, ha]; rfl, by simp, ?_⟩
      cases a with
      | nil => simpa using hnil
      | cons d a => simpa using hlast

theorem pipesEscaped_append {escaped : Bool} {s t : List Char} (h : pipesEscaped escaped (s ++ t)) :
    pipesEscaped escaped s := by
  induction s generalizing escaped with
  | nil => rfl
  | cons c s ih =>
    simp only [List.cons_append, pipesEscaped, Bool.and_eq_true] at h ⊢
    exact ⟨h.1, ih h.2⟩

theorem pipesEscaped_append_of_not_mem {t : List Char} (ht : '|' ∉ t) (escaped : Bool)
    (s : List Char) : pipesEscaped escaped (s ++ t) = pipesEscaped escaped s := by
  induction s generalizing escaped with
  | nil =>
    induction t generalizing escaped with
    | nil => rfl
    | cons c t ih =>
      obtain ⟨hc, ht⟩ : '|' ≠ c ∧ '|' ∉ t := by simpa using ht
      simpa [pipesEscaped, Ne.symm hc] using ih ht (c == '\\')
  | cons c s ih => simp [pipesEscaped, ih]

/-! ### Backslashes in front of pipes -/

theorem escapePipes_cons (c : Char) (s : List Char) :
    escapePipes (c :: s) = (if c = '|' then ['\\', '|'] else [c]) ++ escapePipes s :=
  List.flatMap_cons

theorem pipesEscaped_escapePipes (escaped : Bool) (s : List Char) :
    pipesEscaped escaped (escapePipes s) := by
  induction s generalizing escaped with
  | nil => rfl
  | cons c s ih =>
    rw [escapePipes_cons]
    by_cases hc : c = '|' <;> simp [hc, pipesEscaped, ih]

theorem replacePair_cons_of_head {a b c x : Char} {s : List Char} (h : s.head? ≠ some b) :
    replacePair a b c (x :: s) = x :: replacePair a b c s := by
  cases s with
  | nil => rfl
  | cons y s =>
    have hy : y ≠ b := by simpa using h
    simp [replacePair, hy]

/-- The backslashes are dropped again. -/
theorem replacePair_escapePipes (s : List Char) :
    replacePair '\\' '|' '|' (escapePipes s) = s := by
  induction s with
  | nil => rfl
  | cons c s ih =>
    rw [escapePipes_cons]
    by_cases hc : c = '|'
    · simp [hc, replacePair, ih]
    · have hhead : (escapePipes s).head? ≠ some '|' := by
        cases s with
        | nil => simp [escapePipes]
        | cons d s =>
          rw [escapePipes_cons]
          by_cases hd : d = '|' <;> simp [hd]
      rw [if_neg hc, List.singleton_append, replacePair_cons_of_head hhead, ih]

section Escape

variable (q : Quoting)

/-- Neither a pipe nor a closing brace belongs to an escape. -/
theorem escapeChar_eq_or (c : Char) :
    (q.escapeChar c = [c] ∧ c ≠ '\\') ∨
      ∃ d, q.escapeChar c = ['\\', d] ∧ c ≠ '|' ∧ d ≠ '|' ∧ d ≠ '\x7d' ∧
        (d = '\\' ↔ c = '\\') := by
  have hquote : q.quote ≠ '|' ∧ q.quote ≠ '\x7d' := by
    rcases q.isQuote with h | h <;> rw [h] <;> decide
  unfold Quoting.escapeChar
  split
  · next h =>
    have hc : c ≠ '|' ∧ c ≠ '\x7d' := by
      rcases h with rfl | rfl
      · decide
      · exact hquote
    exact .inr ⟨c, rfl, hc.1, hc.1, hc.2, Iff.rfl⟩
  next h =>
    split
    · next hc =>
      subst hc
      exact .inr ⟨'n', rfl, by decide⟩
    split
    · next hc =>
      subst hc
      exact .inr ⟨'r', rfl, by decide⟩
    · exact .inl ⟨rfl, fun hc => h (.inl hc)⟩

/-- An escaped text has its pipes behind backslashes if the text has. -/
theorem pipesEscaped_escape (escaped : Bool) (s : List Char) :
    pipesEscaped escaped (q.escape s) = pipesEscaped escaped s := by
  induction s generalizing escaped with
  | nil => rfl
  | cons c s ih =>
    rw [Quoting.escape_cons]
    rcases escapeChar_eq_or q c with ⟨h, -⟩ | ⟨d, h, hc, -, -, hslash⟩ <;> rw [h]
    · simp [pipesEscaped, ih]
    · have hlast : (d == '\\') = (c == '\\') := by
        rw [Bool.eq_iff_iff, beq_iff_eq, beq_iff_eq, hslash]
      simp [pipesEscaped, ih, hc, hlast]

theorem exists_of_escape_eq {s a b : List Char} (h : q.escape s = a ++ '\x7d' :: b) :
    ∃ s₁, s₁ <+: s ∧ a = q.escape s₁ := by
  induction s generalizing a with
  | nil => simp [Quoting.escape] at h
  | cons c s ih =>
    -- a brace cannot stand inside of what is written for one character
    have hcut : a = [] ∨ ∃ a', a = q.escapeChar c ++ a' ∧ q.escape s = a' ++ '\x7d' :: b := by
      rw [Quoting.escape_cons] at h
      rcases escapeChar_eq_or q c with ⟨hc, -⟩ | ⟨d, hc, -, -, hd, -⟩ <;> rw [hc] at h ⊢
      · rcases a with _ | ⟨e, a⟩
        · exact .inl rfl
        · obtain ⟨he, htail⟩ := List.cons.inj h
          exact .inr ⟨a, by rw [he]; rfl, htail⟩
      · rcases a with _ | ⟨e, _ | ⟨f, a⟩⟩
        · exact .inl rfl
        · obtain ⟨-, htail⟩ := List.cons.inj h
          exact absurd (List.cons.inj htail).1 hd
        · obtain ⟨he, htail⟩ := List.cons.inj h
          obtain ⟨hf, htail⟩ := List.cons.inj htail
          exact .inr ⟨a, by rw [he, hf]; rfl, htail⟩
    rcases hcut with rfl | ⟨a', rfl, htail⟩
    · exact ⟨[], List.nil_prefix, rfl⟩
    · obtain ⟨s₁, hs₁, rfl⟩ := ih htail
      exact ⟨c :: s₁, (List.prefix_cons_inj c).2 hs₁, (q.escape_cons c s₁).symm⟩

theorem escapeChar_pipe : q.escapeChar '|' = ['|'] := by
  rcases escapeChar_eq_or q '|' with ⟨h, -⟩ | ⟨d, -, h, -⟩
  · exact h
  · exact absurd rfl h

theorem head?_escape_ne {s : List Char} (h : s.head? ≠ some '|') :
    (q.escape s).head? ≠ some '|' := by
  cases s with
  | nil => simp [Quoting.escape]
  | cons c s =>
    have hc : c ≠ '|' := by simpa using h
    rw [Quoting.escape_cons]
    rcases escapeChar_eq_or q c with ⟨hc', -⟩ | ⟨d, hc', -⟩ <;> rw [hc'] <;> simp [hc]

/-- A pipe behind a backslash of the text takes one of the two that stand for the backslash, and the
other one still does. -/
theorem escapes_replacePair (s : List Char) :
    q.Escapes (replacePair '\\' '|' '|' (q.escape s)) s := by
  induction h : s.length using Nat.strong_induction_on generalizing s with
  | _ n ih =>
    rcases s with _ | ⟨c, s⟩
    · exact .nil
    have hs : q.Escapes (replacePair '\\' '|' '|' (q.escape s)) s :=
      ih s.length (by rw [← h]; exact Nat.lt_succ_self _) s rfl
    rw [Quoting.escape_cons]
    rcases q.escapeChar_cases c with ⟨hc, hslash, hquote, hend⟩ | ⟨d, hc, hd, hdecoded⟩
    · rw [hc, List.singleton_append, replacePair_cons_of_ne hslash]
      exact .plain hslash hquote hend hs
    obtain ⟨hpipe, hslash⟩ : d ≠ '|' ∧ (d = '\\' ↔ c = '\\') := by
      rcases escapeChar_eq_or q c with ⟨hc', -⟩ | ⟨d', hc', -, hd', -, hslash⟩ <;> rw [hc] at hc'
      · cases hc'
      · cases hc'
        exact ⟨hd', hslash⟩
    rw [hc, List.cons_append, List.singleton_append,
      replacePair_cons_of_head (by simpa using hpipe)]
    by_cases hback : d = '\\' ∧ s.head? = some '|'
    · obtain ⟨rfl, hhead⟩ := hback
      obtain ⟨s', rfl⟩ : ∃ s', s = '|' :: s' := by
        cases s with
        | nil => cases hhead
        | cons e s => exact ⟨s, by rw [Option.some.inj hhead]⟩
      have hs' : q.Escapes (replacePair '\\' '|' '|' (q.escape s')) s' := by
        refine ih s'.length ?_ s' rfl
        rw [← h, List.length_cons, List.length_cons]
        omega
      have hwritten : q.escape ('|' :: s') = '|' :: q.escape s' := by
        rw [Quoting.escape_cons, escapeChar_pipe, List.singleton_append]
      have hdecoded' : ∀ r, Literal.escape ('|' :: r) = (['\\', '|'], r) := by
        intro r
        simp [Literal.escape, Literal.isOctal, Literal.simpleEscape?, Literal.hexWidth?]
      rw [hwritten, replacePair, if_pos ⟨rfl, rfl⟩, hslash.1 rfl]
      exact .escape (by decide) hdecoded' hs'
    · have hkept : replacePair '\\' '|' '|' (d :: q.escape s) =
          d :: replacePair '\\' '|' '|' (q.escape s) := by
        by_cases hdslash : d = '\\'
        · exact replacePair_cons_of_head
            (head?_escape_ne q fun hhead => hback ⟨hdslash, hhead⟩)
        · exact replacePair_cons_of_ne hdslash _
      rw [hkept]
      exact .escape hd hdecoded hs

end Escape

end PotExtract.Tales
