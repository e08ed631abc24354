import PotExtract.Python.Expression
import PotExtract.Proofs.Outcome
import PotExtract.Proofs.Text.Trim
import PotExtract.Proofs.Python.Lexing

/-! A closing brace ends every expression in front of it: a text that goes on with one behind an
expression is none, unless a comment takes the brace. -/

namespace PotExtract.Python

open Text

/-! ### White space is foreign to expressions -/

theorem standsApart_of_blank {c : Char} (h : isBlank c) : Lexeme.standsApart c := by
  apply forall_isBlank _ h
  decide +kernel

theorem isBlank_of_isGap {c : Char} (h : Cursor.isGap c) : isBlank c := by
  simp only [Cursor.isGap, Bool.or_eq_true, beq_iff_eq] at h
  rcases h with (rfl | rfl) | rfl <;> decide

/-- White space that is no gap and ends no line begins no token. -/
theorem read_of_blank {c : Char} (h : isBlank c) (hgap : Cursor.isGap c = false)
    (hend : Lexeme.isLineEnd c = false) (s : List Char) :
    Lexeme.read c s = some (.stray [c], s) := by
  let isOther (c : Char) : Bool :=
    Cursor.isGap c || Lexeme.isLineEnd c ||
      (c ≠ '#' && c ≠ '\\' && !c.isDigit && c ≠ '.' && !Lexeme.isNameStart c && c ≠ '"' &&
        c ≠ '\'' && c ∉ Lexeme.singleOperators &&
        Lexeme.longOperators.all (·.head? ≠ some c) && Lexeme.pairOperators.all (·.head? ≠ some c))
  have hother : isOther c := by
    apply forall_isBlank _ h
    decide +kernel
  simp only [isOther, hgap, hend, Bool.false_or, Bool.and_eq_true, decide_eq_true_eq,
    Bool.not_eq_true', List.all_eq_true] at hother
  obtain ⟨⟨⟨⟨⟨⟨⟨⟨⟨hhash, hslash⟩, hdigit⟩, hdot⟩, hname⟩, hdouble⟩, hsingle⟩, hop⟩, hlong⟩, hpair⟩ :=
    hother
  have hread : Lexeme.readOperator c s = (.stray [c], s) := by
    rw [Lexeme.readOperator, if_neg fun hc => hlong _ hc rfl, if_neg fun hc => hpair _ hc rfl,
      if_neg hop]
  simp [Lexeme.read, hhash, hslash, hend, hdigit, hdot, hname, hdouble, hsingle, hread]

namespace Beginning

/-- No expression goes on with a token that is foreign to expressions. -/
theorem foldlM_of_isForeign {ts : List Token} {t : Token} (ht : t ∈ ts) (hforeign : t.isForeign)
    (b : Beginning) : ts.foldlM take? b = none := by
  induction ts generalizing b with
  | nil => cases ht
  | cons u ts ih =>
    rw [List.foldlM_cons]
    rcases List.mem_cons.1 ht with rfl | ht
    · simp [take?, hforeign]
    · cases hu : b.take? u with
      | none => rfl
      | some b => exact ih ht b

/-- Outside of brackets no expression goes on with a closing brace. -/
theorem take?_brace {b : Beginning} (h : b.closers = []) (line : Nat) :
    b.take? ⟨.operator, "\x7d", line⟩ = none := by
  unfold take?
  split
  · rfl
  split
  · next hcounts => simp [Token.counts] at hcounts
  split
  · simp [closersBehind?, Token.isOperator, Token.isCloser, h]
  · rfl

end Beginning

namespace Cursor

variable {c : Cursor} {b : Beginning}

theorem isForeign_of_layout {changes : List Token} {indents : List Nat}
    (h : c.layout = .ok (changes, indents)) : ∀ t ∈ changes, t.isForeign := by
  intro t ht
  obtain ⟨-, hk | hk⟩ := of_mem_layout h ht <;> simp [Token.isForeign, hk]

theorem foldTokens?_of_error {σ : Type} {f : σ → Token → Option σ} {state : σ} {first : Char}
    {rest : List Char} {fault : LexFault} (h : c.rest.dropWhile isGap = first :: rest)
    (hs : c.step first rest = .error fault) : c.foldTokens? f state = none := by
  simp [foldTokens?_eq, lex_of_error h hs, Except.isOk, Except.toBool]

theorem foldTokens?_of_step {σ : Type} {f : σ → Token → Option σ} {state : σ} {first : Char}
    {rest : List Char} {tokens : List Token} {next : Cursor}
    (h : c.rest.dropWhile isGap = first :: rest) (hs : c.step first rest = .ok (tokens, next)) :
    c.foldTokens? f state = (tokens.foldlM f state).bind fun state => next.foldTokens? f state := by
  rw [foldTokens?_eq, lex_of_step h hs]
  simp only [foldTokens?_eq, List.foldlM_append]
  cases tokens.foldlM f state with
  | none => simp
  | some state => split <;> simp_all

/-- No expression goes on with an element that it does not go on with at the start of a line. -/
theorem foldTokens?_of_read {first : Char} {rest more : List Char} {lexeme : Lexeme}
    (h : c.rest.dropWhile isGap = first :: rest)
    (hread : Lexeme.read first rest = some (lexeme, more))
    (hrefused : ∀ d : Cursor, (d.take lexeme more).1.foldlM Beginning.take? b = none) :
    c.foldTokens? Beginning.take? b = none := by
  cases hs : c.step first rest with
  | error fault => exact foldTokens?_of_error h hs
  | ok result =>
    obtain ⟨tokens, next⟩ := result
    obtain ⟨changes, indents, lexeme', more', hlayout, hread', rfl, rfl⟩ := exists_of_step hs
    obtain ⟨rfl, rfl⟩ := Prod.mk.inj (Option.some.inj (hread.symm.trans hread'))
    rw [foldTokens?_of_step h hs, List.foldlM_append]
    cases changes with
    | nil => simp [hrefused]
    | cons t changes =>
      rw [Beginning.foldlM_of_isForeign List.mem_cons_self (isForeign_of_layout hlayout t (by simp))]
      rfl

theorem exists_step_lineEnd {d : Char} {s : List Char} (hend : Lexeme.isLineEnd d)
    (h : c.rest.dropWhile isGap = d :: s) :
    ∃ tokens next, c.step d s = .ok (tokens, next) ∧ next.rest = Lexeme.afterLineEnd (d :: s) ∧
      ∀ b, tokens.foldlM Beginning.take? b = some b := by
  have hlayout : c.layout = .ok ([], c.indents) := by
    simp [layout, h, startsStatement, hend]
  refine ⟨_, _, step_of_isSettled hlayout (Lexeme.read_lineEnd hend s), rfl, fun b => ?_⟩
  by_cases hs : c.depth = 0 ∧ c.inStatement
  · simp [Beginning.take?, Token.isForeign, Token.counts, hs]
  · simp [Beginning.take?, Token.isForeign, Token.counts, hs]

theorem afterLineEnd_blank (d : Char) (blank rest : List Char) :
    ∃ blank', Lexeme.afterLineEnd (d :: blank ++ '\x7d' :: rest) = blank' ++ '\x7d' :: rest ∧
      blank' <:+ blank := by
  cases blank with
  | nil => exact ⟨[], by simp [Lexeme.afterLineEnd], List.suffix_rfl⟩
  | cons e blank =>
    by_cases hpair : d = '\r' ∧ e = '\n'
    · obtain ⟨rfl, rfl⟩ := hpair
      exact ⟨blank, rfl, List.suffix_cons _ _⟩
    · refine ⟨e :: blank, ?_, List.suffix_rfl⟩
      rw [Lexeme.afterLineEnd.eq_def]
      split <;> simp_all

/-- Outside of brackets no expression goes on with white space and a closing brace. -/
theorem foldTokens?_brace {blank rest : List Char} (hb : b.closers = [])
    (hrest : c.rest = blank ++ '}' :: rest) (hblank : ∀ d ∈ blank, isBlank d) :
    c.foldTokens? Beginning.take? b = none := by
  induction h : blank.length using Nat.strong_induction_on generalizing c blank with
  | _ n ih =>
    have hdrop : c.rest.dropWhile isGap = blank.dropWhile isGap ++ '\x7d' :: rest := by
      rw [hrest]
      exact Lexeme.dropWhile_append_of_head (by simp [isGap]) blank
    have hsuffix := List.dropWhile_suffix isGap (l := blank)
    cases hd : blank.dropWhile isGap with
    | nil =>
      rw [hd] at hdrop
      exact foldTokens?_of_read hdrop (Lexeme.read_bracket (by simp) rest) fun e => by
        simp [take, Beginning.take?_brace hb]
    | cons d blank' =>
      rw [hd] at hdrop hsuffix
      have hgap : isGap d = false := by
        have := List.head?_dropWhile_not isGap blank
        rw [hd] at this
        exact this
      have hdblank : isBlank d := hblank d (hsuffix.subset List.mem_cons_self)
      by_cases hend : Lexeme.isLineEnd d
      · obtain ⟨blank'', hafter, hsuffix''⟩ := afterLineEnd_blank d blank' rest
        obtain ⟨tokens, next, hstep, hnext, htokens⟩ := exists_step_lineEnd hend hdrop
        rw [foldTokens?_of_step hdrop hstep, htokens]
        have hlt : blank''.length < n := by
          have h1 := hsuffix.length_le
          have h2 := hsuffix''.length_le
          rw [List.length_cons] at h1
          omega
        refine ih _ hlt (hnext.trans hafter) (fun e he => hblank e (hsuffix.subset ?_)) rfl
        exact List.mem_cons_of_mem d (hsuffix''.subset he)
      · exact foldTokens?_of_read hdrop (read_of_blank hdblank hgap (by simpa using hend) _) fun e =>
          Beginning.foldlM_of_isForeign List.mem_cons_self rfl b

/-! ### What follows an expression -/

theorem getLast?_of_suffix {α : Type} {s t : List α} (h : s <:+ t) (hs : s ≠ []) :
    t.getLast? = s.getLast? := by
  obtain ⟨u, rfl⟩ := h
  rw [List.getLast?_append_of_ne_nil _ hs]

theorem eq_nil_of_dropWhile_isGap (h : c.rest.dropWhile isGap = [])
    (hlast : ∀ d ∈ c.rest.getLast?, isBlank d = false) : c.rest = [] := by
  by_contra hne
  have hmem := List.getLast_mem hne
  have hblank := isBlank_of_isGap (List.dropWhile_eq_nil_iff.1 h _ hmem)
  rw [hlast _ (List.getLast?_eq_some_getLast hne)] at hblank
  cases hblank

/-- The end of a text leaves an expression as it is. -/
theorem foldlM_finish {b' : Beginning} (h : c.finish.tokens.foldlM Beginning.take? b = some b') :
    b' = b := by
  unfold finish at h
  split at h
  · cases h
    rfl
  cases hi : c.indents with
  | cons width indents =>
    rw [hi, Beginning.foldlM_of_isForeign (t := ⟨.dedent, "", c.line⟩) (by simp) rfl] at h
    cases h
  | nil =>
    rw [hi] at h
    split at h
    · cases h
      rfl
    · cases h
      rfl

/-- A text that goes on behind an expression with white space and a closing brace is no expression.
-/
theorem foldTokens?_append_brace {blank : List Char} (rest : List Char) {b' : Beginning}
    (hblank : ∀ d ∈ blank, isBlank d) (hfold : c.foldTokens? Beginning.take? b = some b')
    (hb' : b'.closers = []) (hhash : '#' ∉ c.rest)
    (hlast : ∀ d ∈ c.rest.getLast?, isBlank d = false) :
    ({ c with rest := c.rest ++ (blank ++ '\x7d' :: rest) } : Cursor).foldTokens?
      Beginning.take? b = none := by
  have hapart : Lexeme.IsApart (blank ++ '\x7d' :: rest) := by
    intro d hd
    rcases blank_or_eq_of_head hblank hd with h | rfl
    · exact standsApart_of_blank h
    · decide
  fun_induction foldTokens? Beginning.take? b c with
  | case1 b c h hok =>
    obtain rfl := foldlM_finish hfold
    exact foldTokens?_brace hb' (by rw [eq_nil_of_dropWhile_isGap h hlast]; rfl) hblank
  | case2 b c h hok => cases hfold
  | case3 b c first rest' h fault hs => cases hfold
  | case4 b c first rest' h tokens next hs _ ih =>
    obtain ⟨changes, indents, lexeme, more, hlayout, hread, htokens, hnext⟩ := exists_of_step hs
    have hsuffix : first :: rest' <:+ c.rest := h ▸ List.dropWhile_suffix isGap
    have hfirst : first ≠ '#' := by
      rintro rfl
      exact hhash (hsuffix.subset List.mem_cons_self)
    cases ht : tokens.foldlM Beginning.take? b with
    | none =>
      rw [ht] at hfold
      cases hfold
    | some b₁ =>
      rw [ht] at hfold
      have hopen : lexeme.isOpen = false := by
        by_contra hopen
        obtain ⟨text, rfl⟩ := Lexeme.eq_stray_of_read hread hfirst (by simpa using hopen)
        have hmem : (⟨.stray, String.ofList text, c.line⟩ : Token) ∈ tokens := by
          rw [htokens]
          exact List.mem_append_right changes List.mem_cons_self
        rw [Beginning.foldlM_of_isForeign hmem rfl] at ht
        cases ht
      have hlast' := getLast?_of_suffix hsuffix (List.cons_ne_nil _ _)
      have hread' := Lexeme.read_append hapart (fun hr => ?_) hread hopen
      · have hstep := step_append h hread hread' hs
        rw [foldTokens?_of_step (layout_append h _).2 hstep, ht]
        have hmore : next.rest <:+ rest' := by
          rw [hnext, take_rest]
          exact Lexeme.read_suffix hread
        have hmore := hmore.trans ((List.suffix_cons _ _).trans hsuffix)
        refine ih b₁ hfold (fun hmem => hhash (hmore.subset hmem)) fun d hd => ?_
        have hne : next.rest ≠ [] := by
          rintro hnil
          simp [hnil] at hd
        exact hlast d (getLast?_of_suffix hmore hne ▸ hd)
      · have := hlast '\r' (hlast' ▸ hr)
        simp [isBlank] at this

end Cursor

theorem isExpression_of_trim_eq {code code' : String} (h : trim code.toList = trim code'.toList) :
    isExpression code = isExpression code' := by
  rw [isExpression, isExpression, h]

/-- A text that goes on with a closing brace behind an expression is none. -/
theorem isExpression_append_brace {u v : List Char} (hu : isExpression (String.ofList u))
    (hhash : '#' ∉ u) : isExpression (String.ofList (u ++ '\x7d' :: v)) = false := by
  unfold isExpression at hu ⊢
  rw [String.toList_ofList] at hu ⊢
  cases hb : Cursor.foldTokens? Beginning.take? {} { rest := trim u } with
  | none =>
    rw [hb] at hu
    cases hu
  | some b =>
    rw [hb] at hu
    have hclosers : b.closers = [] := by
      simp only [Option.any_some, Beginning.isWhole, Bool.and_eq_true, List.isEmpty_iff] at hu
      exact hu.1
    obtain ⟨w, hw, hblank⟩ := exists_trimRight_append (trimLeft u)
    have hmem : '#' ∉ trim u := fun h => hhash (mem_of_mem_trim h)
    have htrim : trim (u ++ '\x7d' :: v) = trim u ++ (w ++ '\x7d' :: trimRight v) := by
      rw [trim_append_cons (by decide), hw, List.append_assoc]
      rfl
    have hnone := Cursor.foldTokens?_append_brace (trimRight v) hblank hb hclosers hmem
      fun d hd => getLast?_trimRight hd
    rw [htrim, hnone]
    rfl

end PotExtract.Python
