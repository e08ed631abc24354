import PotExtract.Python.Expression
import PotExtract.Proofs.Python.CallSteps
import PotExtract.Proofs.Python.Lexing

/-! Tokens inside of brackets. The reader of a text counts the brackets that are open, and behind one
of them, up to the bracket that closes it, no change of indentation is read. -/

namespace PotExtract.Python

/-- Whether the token opens a bracket. -/
def Token.isOpener (t : Token) : Bool :=
  t.isOperator "(" || t.isOperator "[" || t.isOperator "\x7b"

/-- Tokens in which brackets match: each one that is opened is closed by one of its kind. -/
inductive Matched : List Token → Prop
  | nil : Matched []
  | token {t : Token} {ts : List Token} (ho : t.isOpener = false) (hc : t.isCloser = false)
    (hts : Matched ts) : Matched (t :: ts)
  | group {opener closer : Token} {inner ts : List Token} (ho : opener.isOpener)
    (hc : closer.isOperator (Call.closerOf opener.text)) (hinner : Matched inner)
    (hts : Matched ts) : Matched (opener :: (inner ++ closer :: ts))

namespace Matched

variable {ts us : List Token}

theorem append (h : Matched ts) (h' : Matched us) : Matched (ts ++ us) := by
  induction h with
  | nil => exact h'
  | token ho hc _ ih => exact .token ho hc ih
  | group ho hc hinner _ _ ih =>
    rw [List.cons_append, List.append_assoc, List.cons_append]
    exact .group ho hc hinner ih

theorem of_forall (h : ∀ t ∈ ts, t.isOpener = false ∧ t.isCloser = false) : Matched ts := by
  induction ts with
  | nil => exact .nil
  | cons t ts ih =>
    obtain ⟨ho, hc⟩ := h t List.mem_cons_self
    exact .token ho hc (ih fun u hu => h u (List.mem_cons_of_mem t hu))

end Matched

/-! ### The number of open brackets -/

/-- The number of open brackets behind a token. -/
def Token.depthBehind (depth : Nat) (t : Token) : Nat :=
  if t.kind = .operator then Cursor.depthAfter depth t.text.toList else depth

/-- The number of open brackets behind tokens. -/
def depthBehind (depth : Nat) (ts : List Token) : Nat :=
  ts.foldl Token.depthBehind depth

section Depth

variable {t : Token} {ts us : List Token} {depth : Nat}

theorem depthBehind_append (depth : Nat) (ts us : List Token) :
    depthBehind depth (ts ++ us) = depthBehind (depthBehind depth ts) us :=
  List.foldl_append

theorem Token.depthBehind_of_ne (h : t.kind ≠ .operator) : t.depthBehind depth = depth :=
  if_neg h

theorem Token.depthBehind_opener (h : t.isOpener) : t.depthBehind depth = depth + 1 := by
  simp only [isOpener, Bool.or_eq_true, isOperator_iff] at h
  rcases h with (⟨hk, ht⟩ | ⟨hk, ht⟩) | ⟨hk, ht⟩ <;> simp [depthBehind, Cursor.depthAfter, hk, ht]

theorem Token.depthBehind_closer (h : t.isCloser) : t.depthBehind depth = depth - 1 := by
  simp only [isCloser, Bool.or_eq_true, isOperator_iff] at h
  rcases h with (⟨hk, ht⟩ | ⟨hk, ht⟩) | ⟨hk, ht⟩ <;> simp [depthBehind, Cursor.depthAfter, hk, ht]

theorem Token.depthBehind_other (ho : t.isOpener = false) (hc : t.isCloser = false) :
    t.depthBehind depth = depth := by
  by_cases hk : t.kind = .operator
  · have htext (s : String) : t.text.toList = s.toList ↔ t.text = s := String.toList_inj
    simp only [isOpener, isCloser, isOperator, hk, Bool.or_eq_false_iff, beq_self_eq_true,
      Bool.true_and, beq_eq_false_iff_ne, ne_eq] at ho hc
    have hopens : ¬(t.text.toList = ['('] ∨ t.text.toList = ['['] ∨ t.text.toList = ['{']) := by
      rintro (h | h | h)
      · exact ho.1.1 ((htext "(").1 h)
      · exact ho.1.2 ((htext "[").1 h)
      · exact ho.2 ((htext "\x7b").1 h)
    have hcloses : ¬(t.text.toList = [')'] ∨ t.text.toList = [']'] ∨ t.text.toList = ['}']) := by
      rintro (h | h | h)
      · exact hc.1.1 ((htext ")").1 h)
      · exact hc.1.2 ((htext "]").1 h)
      · exact hc.2 ((htext "\x7d").1 h)
    rw [depthBehind, if_pos hk, Cursor.depthAfter, if_neg hopens, if_neg hcloses]
  · exact depthBehind_of_ne hk

theorem Token.isCloser_closerOf {opener closer : Token} (ho : opener.isOpener)
    (hc : closer.isOperator (Call.closerOf opener.text)) : closer.isCloser := by
  simp only [isOpener, Bool.or_eq_true, isOperator_iff] at ho
  rcases ho with (⟨-, ht⟩ | ⟨-, ht⟩) | ⟨-, ht⟩ <;> rw [ht] at hc <;>
    simp_all [isCloser, Call.closerOf]

theorem depthBehind_of_forall_ne (h : ∀ t ∈ ts, t.kind ≠ .operator) (depth : Nat) :
    depthBehind depth ts = depth := by
  induction ts with
  | nil => rfl
  | cons t ts ih =>
    rw [depthBehind, List.foldl_cons, Token.depthBehind_of_ne (h t List.mem_cons_self)]
    exact ih fun u hu => h u (List.mem_cons_of_mem t hu)

/-- Layout does not count. -/
theorem depthBehind_filter (depth : Nat) (ts : List Token) :
    depthBehind depth (ts.filter fun t => !t.isLayout) = depthBehind depth ts := by
  induction ts generalizing depth with
  | nil => rfl
  | cons t ts ih =>
    by_cases hl : t.isLayout
    · have hk : t.kind ≠ .operator := by
        intro hk
        simp [Token.isLayout, hk] at hl
      rw [List.filter_cons_of_neg (by simp [hl]), ih]
      simp only [depthBehind, List.foldl_cons, Token.depthBehind_of_ne hk]
    · rw [List.filter_cons_of_pos (by simpa using hl)]
      exact ih _

/-- Matching brackets leave as many open as there were, and never fewer on the way. -/
theorem Matched.depthBehind (h : Matched ts) (depth : Nat) :
    depthBehind depth ts = depth ∧ ∀ init, init <+: ts → depth ≤ depthBehind depth init := by
  induction h generalizing depth with
  | nil =>
    refine ⟨rfl, fun init hinit => ?_⟩
    rw [List.prefix_nil.1 hinit]
    exact Nat.le_refl _
  | @token t ts ho hc _ ih =>
    have ht : t.depthBehind depth = depth := Token.depthBehind_other ho hc
    refine ⟨by simpa only [Python.depthBehind, List.foldl_cons, ht] using (ih depth).1, ?_⟩
    intro init hinit
    rcases List.prefix_cons_iff.1 hinit with rfl | ⟨us, rfl, hus⟩
    · exact Nat.le_refl _
    · simpa only [Python.depthBehind, List.foldl_cons, ht] using (ih depth).2 us hus
  | @group opener closer inner ts ho hc _ _ ihInner ih =>
    have hopener : opener.depthBehind depth = depth + 1 := Token.depthBehind_opener ho
    have hcloser : closer.depthBehind (depth + 1) = depth :=
      Token.depthBehind_closer (Token.isCloser_closerOf ho hc)
    have hgroup (us : List Token) :
        Python.depthBehind depth (opener :: (inner ++ closer :: us)) =
          Python.depthBehind depth us := by
      simp only [Python.depthBehind, List.foldl_cons, hopener, List.foldl_append]
      rw [show inner.foldl Token.depthBehind (depth + 1) = depth + 1 from (ihInner _).1, hcloser]
    refine ⟨(hgroup ts).trans (ih depth).1, fun init hinit => ?_⟩
    rcases List.prefix_cons_iff.1 hinit with rfl | ⟨us, rfl, hus⟩
    · exact Nat.le_refl _
    have hopened : ∀ us, us <+: inner → depth ≤ Python.depthBehind depth (opener :: us) := by
      intro us hus
      have := (ihInner (depth + 1)).2 us hus
      simp only [Python.depthBehind, List.foldl_cons, hopener] at this ⊢
      omega
    rcases List.prefix_or_prefix_of_prefix hus (List.prefix_append inner _) with hus' | ⟨vs, rfl⟩
    · exact hopened us hus'
    rcases List.prefix_cons_iff.1 ((List.prefix_append_right_inj inner).1 hus) with
      rfl | ⟨ws, rfl, hws⟩
    · exact hopened _ (by simp)
    · rw [hgroup]
      exact (ih depth).2 ws hws

/-- Layout between the tokens does not matter. -/
theorem Matched.depthBehind_of_filter (h : Matched (ts.filter fun t => !t.isLayout)) (depth : Nat) :
    Python.depthBehind depth ts = depth ∧
      ∀ init, init <+: ts → depth ≤ Python.depthBehind depth init := by
  refine ⟨?_, fun init hinit => ?_⟩
  · rw [← depthBehind_filter]
    exact (h.depthBehind depth).1
  · rw [← depthBehind_filter]
    exact (h.depthBehind depth).2 _ (hinit.filter _)

end Depth

/-! ### Reading inside of brackets -/

namespace Cursor

variable {c next : Cursor}

theorem depth_take_eq (c : Cursor) (l : Lexeme) (rest : List Char) :
    (c.take l rest).2.depth = depthBehind c.depth (c.take l rest).1 := by
  cases l with
  | lineEnd =>
    refine (depthBehind_of_forall_ne (fun t ht => ?_) _).symm
    rw [List.mem_singleton.1 ht]
    dsimp only
    split <;> simp
  | _ => simp [take, depthBehind, Token.depthBehind]

/-- The depth of the cursor is the number of open brackets. -/
theorem depth_step {first : Char} {rest : List Char} {tokens : List Token}
    (h : c.step first rest = .ok (tokens, next)) : next.depth = depthBehind c.depth tokens := by
  obtain ⟨changes, indents, lexeme, more, hlayout, -, rfl, rfl⟩ := exists_of_step h
  have hchanges : depthBehind c.depth changes = c.depth := by
    refine depthBehind_of_forall_ne (fun t ht => ?_) _
    obtain ⟨-, hk | hk⟩ := of_mem_layout hlayout ht <;> simp [hk]
  rw [depth_take_eq, depthBehind_append, hchanges]

/-- Indentation is only read outside of brackets. -/
theorem depth_of_layout_ne_nil {changes : List Token} {indents : List Nat}
    (h : c.layout = .ok (changes, indents)) (hne : changes ≠ []) : c.depth = 0 := by
  unfold layout at h
  split at h
  · next hc =>
    simp only [Bool.and_eq_true, beq_iff_eq] at hc
    exact hc.1.2
  · cases h
    exact absurd rfl hne

theorem kind_of_mem_take {l : Lexeme} {rest : List Char} {t : Token} (ht : t ∈ (c.take l rest).1) :
    t.kind ≠ .indent ∧ t.kind ≠ .dedent ∧ t.kind ≠ .endMarker := by
  cases l with
  | joint => cases ht
  | lineEnd =>
    rw [List.mem_singleton.1 ht]
    dsimp only
    split <;> simp
  | _ =>
    rw [List.mem_singleton.1 ht]
    simp

/-- No bracket is open where the indentation changes. -/
theorem depthBehind_eq_zero {t : Token} (ht : t.kind = .indent ∨ t.kind = .dedent) (c : Cursor) :
    ∀ us vs, c.lex.tokens = us ++ t :: vs → depthBehind c.depth us = 0 := by
  fun_induction lex c with
  | case1 c hrest =>
    intro us vs h
    have hmem : ∀ u ∈ c.finish.tokens, c.depth = 0 ∧ u.kind ≠ .operator := by
      intro u hu
      obtain ⟨hdepth, -, hk | hk⟩ := of_mem_finish hu <;> simp [hdepth, hk]
    rw [h] at hmem
    rw [depthBehind_of_forall_ne fun u hu => (hmem u (List.mem_append_left _ hu)).2]
    exact (hmem t (by simp)).1
  | case2 c first rest hrest fault hs => simp
  | case3 c first rest hrest tokens next hs _ later ih =>
    intro us vs h
    have hdepth := depth_step hs
    obtain ⟨changes, indents, lexeme, more, hlayout, -, htokens, -⟩ := exists_of_step hs
    rcases List.append_eq_append_iff.1 h with ⟨ws, rfl, hws⟩ | ⟨ws, hws, hlater⟩
    · rw [depthBehind_append, ← hdepth]
      exact ih _ _ hws
    cases ws with
    | nil =>
      rw [List.append_nil] at hws
      rw [← hws, ← hdepth]
      exact ih [] vs hlater.symm
    | cons t' ws =>
      obtain ⟨rfl, -⟩ := List.cons.inj hlater
      -- the change of indentation stands in front of the element
      have hus : us <+: changes ∧ changes ≠ [] := by
        rw [htokens] at hws
        rcases List.append_eq_append_iff.1 hws with ⟨xs, rfl, hxs⟩ | ⟨xs, rfl, hxs⟩
        · have hmem := hxs ▸ List.mem_append_right xs List.mem_cons_self
          have := kind_of_mem_take hmem
          simp [this] at ht
        · refine ⟨List.prefix_append us xs, fun hnil => ?_⟩
          obtain ⟨rfl, rfl⟩ := List.append_eq_nil_iff.1 hnil
          have := kind_of_mem_take (hxs ▸ List.mem_cons_self)
          simp [this] at ht
      rw [depthBehind_of_forall_ne fun u hu => ?_]
      · exact depth_of_layout_ne_nil hlayout hus.2
      · obtain ⟨-, hk | hk⟩ := of_mem_layout hlayout (hus.1.subset hu) <;> simp [hk]

end Cursor

/-- Behind an open bracket the indentation does not change up to the bracket that closes it. -/
theorem not_dedent_of_matched {source : String} {before body after : List Token}
    (htokens : (tokenize source).tokens = before ++ (body ++ after))
    (hopen : 0 < depthBehind 0 before) (hbody : Matched (body.filter fun t => !t.isLayout)) :
    ∀ t ∈ body, t.kind ≠ .dedent := by
  intro t ht hk
  obtain ⟨us, vs, rfl⟩ := List.append_of_mem ht
  have hzero : depthBehind 0 (before ++ us) = 0 :=
    Cursor.depthBehind_eq_zero (.inr hk) { rest := source.toList } (before ++ us) (vs ++ after) (by
      rw [tokenize] at htokens
      simpa using htokens)
  rw [depthBehind_append] at hzero
  have hle := (hbody.depthBehind_of_filter (depthBehind 0 before)).2 us (List.prefix_append us _)
  omega

end PotExtract.Python
