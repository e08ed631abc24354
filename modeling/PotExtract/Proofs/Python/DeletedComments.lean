import Mathlib.Data.List.DropRight
import PotExtract.Proofs.Python.Lexing
import PotExtract.Proofs.Python.ParedText

/-! Deleting the comments of a text. The tokens of what is left are those of the text without the
comments, on the same lines, unless a comment stands where its deletion makes another element:
behind a backslash, which takes the line end with it, or between a carriage return and a line feed.
-/

namespace PotExtract.Python

open Lexeme

/-- The characters in front of a comment and behind it. -/
structure CommentEdge where
  before : Option Char
  after : Option Char
  deriving DecidableEq, Repr

/-- Whether no element is made where the comment is deleted. -/
def CommentEdge.isFree (e : CommentEdge) : Bool :=
  e.before != some '\\' && !(e.before == some '\r' && e.after == some '\n')

/-- Whether the element is a comment. -/
def Lexeme.isComment : Lexeme → Bool
  | .comment _ => true
  | _ => false

theorem Lexeme.length_read_lt {c : Char} {s rest : List Char} {l : Lexeme}
    (h : read c s = some (l, rest)) : rest.length < (c :: s).length :=
  Nat.lt_succ_of_le (length_read_le h)

theorem Lexeme.length_lt_cons (c : Char) (s : List Char) : s.length < (c :: s).length :=
  Nat.lt_succ_self s.length

/-- The text without its comments. The text behind triple quotes that stay open is not read, and
kept. -/
def withoutComments : List Char → List Char
  | [] => []
  | c :: s =>
    if Cursor.isGap c then c :: withoutComments s
    else
      match h : read c s with
      | none => c :: s
      | some (l, rest) =>
        have := length_read_lt h
        if l.isComment then withoutComments rest
        else (c :: s).take (s.length + 1 - rest.length) ++ withoutComments rest
  termination_by s => s.length
  decreasing_by
    · exact length_lt_cons c s
    · assumption
    · assumption

/-- The edges of the comments of a text behind the character `previous`. -/
def commentEdges (previous : Option Char) : List Char → List CommentEdge
  | [] => []
  | c :: s =>
    if Cursor.isGap c then commentEdges (some c) s
    else
      match h : read c s with
      | none => []
      | some (l, rest) =>
        have := length_read_lt h
        (if l.isComment then [⟨previous, rest.head?⟩] else []) ++
          commentEdges ((c :: s).take (s.length + 1 - rest.length)).getLast? rest
  termination_by s => s.length
  decreasing_by
    · exact length_lt_cons c s
    · assumption

variable {c : Char} {s rest written : List Char} {l : Lexeme}

theorem withoutComments_gap (hc : Cursor.isGap c) (s : List Char) :
    withoutComments (c :: s) = c :: withoutComments s := by
  rw [withoutComments, if_pos hc]

theorem commentEdges_gap (hc : Cursor.isGap c) (previous : Option Char) (s : List Char) :
    commentEdges previous (c :: s) = commentEdges (some c) s := by
  rw [commentEdges, if_pos hc]

theorem withoutComments_none (hc : Cursor.isGap c = false) (h : read c s = none) :
    withoutComments (c :: s) = c :: s := by
  rw [withoutComments, if_neg (by simp [hc])]
  split <;> simp_all

theorem take_of_append (hs : c :: s = written ++ rest) :
    (c :: s).take (s.length + 1 - rest.length) = written := by
  have hlength := congrArg List.length hs
  rw [List.length_cons, List.length_append] at hlength
  rw [hs, List.take_append_of_le_length (by omega), List.take_of_length_le (by omega)]

theorem withoutComments_read (hc : Cursor.isGap c = false) (h : read c s = some (l, rest))
    (hs : c :: s = written ++ rest) :
    withoutComments (c :: s) = (if l.isComment then [] else written) ++ withoutComments rest := by
  rw [withoutComments, if_neg (by simp [hc])]
  split
  · simp_all
  · next l' rest' h' =>
    rw [h] at h'
    cases h'
    rw [take_of_append hs]
    split <;> rfl

theorem commentEdges_read (hc : Cursor.isGap c = false) (h : read c s = some (l, rest))
    (hs : c :: s = written ++ rest) (previous : Option Char) :
    commentEdges previous (c :: s) =
      (if l.isComment then [⟨previous, rest.head?⟩] else []) ++
        commentEdges written.getLast? rest := by
  rw [commentEdges, if_neg (by simp [hc])]
  split
  · simp_all
  · next l' rest' h' =>
    rw [h] at h'
    cases h'
    rw [take_of_append hs]

theorem isComment_iff (h : read c s = some (l, rest)) : l.isComment ↔ c = '#' := by
  constructor
  · intro hl
    cases l with
    | comment text => exact (isReadAt_of_read h).1
    | _ => cases hl
  · rintro rfl
    cases h
    rfl

/-- A comment leads up to a line end, or to the end of the text. -/
theorem isLineEnd_of_read_comment (h : read '#' s = some (l, rest)) :
    ∀ d ∈ rest.head?, isLineEnd d := by
  cases h
  intro d hd
  have hstop := List.head?_dropWhile_not (fun d => !isLineEnd d) s
  rw [hd] at hstop
  simpa using hstop

theorem isGap_of_isLineEnd {d : Char} (hd : isLineEnd d) : Cursor.isGap d = false := by
  simp only [isLineEnd, Bool.or_eq_true, beq_iff_eq] at hd
  rcases hd with rfl | rfl <;> decide

theorem head?_withoutComments_of_isLineEnd (h : ∀ d ∈ s.head?, isLineEnd d) :
    (withoutComments s).head? = s.head? := by
  cases s with
  | nil => rw [withoutComments]
  | cons d s =>
    have hd := h d rfl
    have hread := read_lineEnd hd s
    obtain ⟨written, hw, hl⟩ := exists_afterLineEnd hd s
    rw [withoutComments_read (isGap_of_isLineEnd hd) hread hw]
    rcases hl with rfl | rfl
    · rfl
    · obtain ⟨rfl, -⟩ := List.cons.inj hw
      rfl

/-- A comment that stands free can be pared off. -/
theorem precedes_of_isFree {previous : Option Char} (h : read '#' s = some (l, rest))
    (hfree : CommentEdge.isFree ⟨previous, rest.head?⟩) :
    ∀ d ∈ previous, Precedes d ('#' :: s) (withoutComments rest) := by
  rintro d rfl
  simp only [CommentEdge.isFree, Bool.and_eq_true, bne_iff_ne, Bool.not_eq_true',
    Bool.and_eq_false_iff, beq_eq_false_iff_ne] at hfree
  have hhead := head?_withoutComments_of_isLineEnd (isLineEnd_of_read_comment h)
  refine ⟨fun hd => absurd (congrArg some hd) hfree.1, fun hd hfeed => ?_⟩
  rcases hfree.2 with hreturn | hafter
  · exact absurd (congrArg some hd) hreturn
  · exact absurd (hhead.symm.trans hfeed) hafter

theorem head?_withoutComments_of_ne (hc : c ≠ '#') (s : List Char) :
    (withoutComments (c :: s)).head? = some c := by
  cases hgap : Cursor.isGap c with
  | true =>
    rw [withoutComments_gap hgap]
    rfl
  | false =>
    cases h : read c s with
    | none =>
      rw [withoutComments_none hgap h]
      rfl
    | some r =>
      obtain ⟨l, rest⟩ := r
      obtain ⟨written, hw, -⟩ := isWritten_of_read h
      have hl : l.isComment = false := by simp [← Bool.not_eq_true, isComment_iff h, hc]
      rw [withoutComments_read hgap h hw, hl]
      obtain ⟨w, rfl, -⟩ := exists_cons_of_read h hw
      rfl

/-- Where all comments stand free, the text without them is the text up to its first comment. -/
theorem pared_withoutComments (previous : Option Char) (s : List Char)
    (hfree : ∀ e ∈ commentEdges previous s, e.isFree) :
    Pared s (withoutComments s) ∧ ∀ d ∈ previous, Precedes d s (withoutComments s) := by
  -- Elements are taken as a whole, so the induction is on the length of the text.
  induction hn : s.length using Nat.strong_induction_on generalizing s previous with
  | _ n ih =>
    cases s with
    | nil =>
      rw [withoutComments]
      exact ⟨.refl [], fun d _ => .of_head? rfl⟩
    | cons c s =>
      subst hn
      have hne : c ≠ '#' → ∀ d ∈ previous, Precedes d (c :: s) (withoutComments (c :: s)) :=
        fun hc d _ => .of_head? (head?_withoutComments_of_ne hc s).symm
      cases hgap : Cursor.isGap c with
      | true =>
        rw [commentEdges_gap hgap] at hfree
        have hc : c ≠ '#' := by
          rintro rfl
          cases hgap
        refine ⟨?_, hne hc⟩
        obtain ⟨hpared, hprecedes⟩ := ih s.length (by simp) (some c) s hfree rfl
        rw [withoutComments_gap hgap]
        exact .cons (hprecedes c rfl) hpared
      | false =>
        cases h : read c s with
        | none =>
          rw [withoutComments_none hgap h]
          exact ⟨.refl _, fun d _ => .of_head? rfl⟩
        | some r =>
          obtain ⟨l, rest⟩ := r
          obtain ⟨written, hw, -⟩ := isWritten_of_read h
          rw [commentEdges_read hgap h hw] at hfree
          have hrest := fun e he => hfree e (List.mem_append_right _ he)
          have hle := length_read_le h
          obtain ⟨hpared, hprecedes⟩ := ih rest.length (by simpa using Nat.lt_succ_of_le hle)
            written.getLast? rest hrest rfl
          by_cases hc : c = '#'
          · subst hc
            have hl := (isComment_iff h).2 rfl
            rw [withoutComments_read hgap h hw, hl]
            have hends := isLineEnd_of_read_comment h
            rw [← head?_withoutComments_of_isLineEnd hends] at hends
            refine ⟨.comment hends, precedes_of_isFree h (hfree _ ?_)⟩
            simp [hl]
          · refine ⟨?_, hne hc⟩
            have hl : l.isComment = false := by simp [← Bool.not_eq_true, isComment_iff h, hc]
            rw [withoutComments_read hgap h hw, hl, hw]
            exact hpared.append written hprecedes

/-! ### The tokens that are left -/

theorem dropWhile_withoutComments (s : List Char) :
    (withoutComments s).dropWhile Cursor.isGap = withoutComments (s.dropWhile Cursor.isGap) := by
  induction s with
  | nil => simp [withoutComments]
  | cons c s ih =>
    cases hgap : Cursor.isGap c with
    | true => simp [withoutComments_gap hgap, hgap, ih]
    | false =>
      rw [List.dropWhile_cons_of_neg (by simp [hgap])]
      have hhead : ∀ d ∈ (withoutComments (c :: s)).head?, Cursor.isGap d = false := by
        by_cases hc : c = '#'
        · subst hc
          cases h : read '#' s with
          | none => cases h
          | some r =>
            obtain ⟨l, rest⟩ := r
            obtain ⟨written, hw, -⟩ := isWritten_of_read h
            have hends := isLineEnd_of_read_comment h
            rw [withoutComments_read hgap h hw, (isComment_iff h).2 rfl]
            intro d hd
            simp only [if_true, List.nil_append,
              head?_withoutComments_of_isLineEnd hends] at hd
            exact isGap_of_isLineEnd (hends d hd)
        · rw [head?_withoutComments_of_ne hc]
          rintro d ⟨⟩
          exact hgap
      cases ht : withoutComments (c :: s) with
      | nil => rfl
      | cons d t =>
        rw [ht] at hhead
        simp [hhead d rfl]

theorem exists_commentEdges_dropWhile (previous : Option Char) (s : List Char) :
    ∃ previous', commentEdges previous s = commentEdges previous' (s.dropWhile Cursor.isGap) := by
  induction s generalizing previous with
  | nil => exact ⟨previous, rfl⟩
  | cons c s ih =>
    cases hgap : Cursor.isGap c with
    | true =>
      obtain ⟨previous', h⟩ := ih (some c)
      refine ⟨previous', ?_⟩
      rw [commentEdges_gap hgap, h, List.dropWhile_cons_of_pos hgap]
    | false =>
      refine ⟨previous, ?_⟩
      rw [List.dropWhile_cons_of_neg (by simp [hgap])]

namespace Cursor

theorem isGap_ends : Pared.Ends isGap := by
  apply Pared.ends_of <;> decide

theorem startsStatement_pared {t : List Char} (h : Pared s t) :
    startsStatement t = startsStatement s := by
  cases h with
  | refl => rfl
  | cons => rfl
  | comment ends =>
    cases t with
    | nil => rfl
    | cons d t => simp [startsStatement, ends d rfl]

theorem layout_pared {c : Cursor} {t : List Char} (h : Pared c.rest t) :
    ({ c with rest := t } : Cursor).layout = c.layout := by
  simp only [layout, startsStatement_pared (h.dropWhile isGap_ends), h.takeWhile_eq isGap_ends]

theorem filter_eq_self {ts : List Token} (h : ∀ t ∈ ts, t.kind ≠ .comment) :
    ts.filter (·.kind ≠ .comment) = ts :=
  List.filter_eq_self.2 fun t ht => by simpa using h t ht

theorem kind_ne_of_step {c next : Cursor} {first : Char} {tokens : List Token}
    (h : c.step first rest = .ok (tokens, next)) (hc : first ≠ '#') :
    ∀ t ∈ tokens, t.kind ≠ .comment := by
  obtain ⟨changes, indents, l, more, hlayout, hread, rfl, -⟩ := exists_of_step h
  have hl : ¬l.isComment := fun hl => hc ((isComment_iff hread).1 hl)
  intro t ht
  rcases List.mem_append.1 ht with ht | ht
  · rcases (of_mem_layout hlayout ht).2 with hk | hk <;> simp [hk]
  · cases l with
    | comment text => exact absurd rfl hl
    | joint => cases ht
    | lineEnd =>
      rw [List.mem_singleton.1 ht]
      dsimp only
      split <;> simp
    | _ => simp [List.mem_singleton.1 ht]

theorem kind_ne_of_finish (c : Cursor) : ∀ t ∈ c.finish.tokens, t.kind ≠ .comment := by
  intro t ht
  obtain ⟨-, -, hk | hk⟩ := of_mem_finish ht <;> simp [hk]

theorem error_of_step {c : Cursor} {first : Char} {fault : LexFault}
    (h : c.step first rest = .error fault) :
    c.layout = .error fault ∨
      (∃ changes, c.layout = .ok changes) ∧ read first rest = none ∧ fault = .openString := by
  unfold step at h
  cases hlayout : c.layout with
  | error e =>
    rw [hlayout] at h
    cases h
    exact .inl rfl
  | ok changes =>
    rw [hlayout] at h
    simp only [bind, Except.bind] at h
    split at h
    · next hread =>
      cases h
      exact .inr ⟨⟨changes, rfl⟩, hread, rfl⟩
    · cases h

theorem step_of_layout_error {c : Cursor} {fault : LexFault} (h : c.layout = .error fault)
    (first : Char) (rest : List Char) : c.step first rest = .error fault := by
  rw [step, h]
  rfl

theorem step_of_read_none {c : Cursor} {changes : List Token × List Nat} {first : Char}
    (h : c.layout = .ok changes) (hread : read first rest = none) :
    c.step first rest = .error .openString := by
  simp [step, h, hread, bind, Except.bind]

/-- A step depends on the text by the indentation and the element that are read of it. -/
theorem step_congr {c next : Cursor} {tokens : List Token} {first : Char} {b : Bool}
    {r more rest' more' : List Char} (hs : c.step first rest = .ok (tokens, next))
    (hlayout : ({ c with rest := r, atLineStart := b } : Cursor).layout = c.layout)
    (hread : read first rest = some (l, more)) (hread' : read first rest' = some (l, more')) :
    ({ c with rest := r, atLineStart := b } : Cursor).step first rest' =
      .ok (tokens, { next with rest := more' }) := by
  obtain ⟨changes, indents, l', more'', hl, hread'', rfl, rfl⟩ := exists_of_step hs
  rw [hread] at hread''
  cases hread''
  rw [step_of_read (hlayout.trans hl) hread']
  cases l <;> rfl

theorem layout_of_comment {c : Cursor} (h : c.rest.dropWhile isGap = '#' :: rest) :
    c.layout = .ok ([], c.indents) := by
  simp [layout, h, startsStatement]

/-- The tokens of a text without its comments are its tokens but the comments. -/
theorem lex_withoutComments (c : Cursor) (previous : Option Char) (r : List Char) (b : Bool)
    (hfree : ∀ e ∈ commentEdges previous (c.rest.dropWhile isGap), e.isFree)
    (hrest : r.dropWhile isGap = withoutComments (c.rest.dropWhile isGap))
    (hlayout : ({ c with rest := r, atLineStart := b } : Cursor).layout = c.layout) :
    ({ c with rest := r, atLineStart := b } : Cursor).lex =
      ⟨c.lex.tokens.filter (·.kind ≠ .comment), c.lex.ending⟩ := by
  fun_induction lex c generalizing previous r b with
  | case1 c h =>
    rw [h, withoutComments] at hrest
    rw [lex_of_nil (c := { c with rest := r, atLineStart := b }) hrest,
      filter_eq_self c.kind_ne_of_finish]
    rfl
  | case2 c first rest h fault hs =>
    rw [h] at hrest
    rcases error_of_step hs with hl | ⟨⟨changes, hl⟩, hread, rfl⟩
    · have hc : first ≠ '#' := by
        rintro rfl
        rw [layout_of_comment h] at hl
        cases hl
      have hhead := head?_withoutComments_of_ne hc rest
      rw [← hrest] at hhead
      obtain ⟨u, hu⟩ := List.head?_eq_some_iff.1 hhead
      exact lex_of_error (c := { c with rest := r, atLineStart := b }) hu
        (step_of_layout_error (hlayout.trans hl) first u)
    · have hgap := isGap_of_dropWhile h
      rw [withoutComments_none hgap hread] at hrest
      exact lex_of_error (c := { c with rest := r, atLineStart := b }) hrest
        (step_of_read_none (hlayout.trans hl) hread)
  | case3 c first rest h tokens next hs _ later ih =>
    have hgap := isGap_of_dropWhile h
    obtain ⟨changes, indents, l, more, hl, hread, htokens, hnext⟩ := exists_of_step hs
    obtain ⟨written, hw, -⟩ := isWritten_of_read hread
    rw [h, withoutComments_read hgap hread hw] at hrest
    rw [h, commentEdges_read hgap hread hw] at hfree
    have hmore := fun e he => hfree e (List.mem_append_right _ he)
    obtain ⟨previous', hedges⟩ := exists_commentEdges_dropWhile written.getLast? more
    by_cases hc : first = '#'
    · -- The comment is a token of the text only, and both go on at the same place.
      subst hc
      have hcomment := (isComment_iff hread).2 rfl
      rw [layout_of_comment h] at hl
      cases hl
      cases l with
      | comment text =>
        subst htokens hnext
        have hlex := ih previous' r b (hedges ▸ hmore) ?_ ?_
        · rw [List.filter_append]
          exact hlex
        · have hdrop := congrArg (List.dropWhile isGap) hrest
          rw [List.dropWhile_idempotent] at hdrop
          rw [hdrop]
          exact dropWhile_withoutComments more
        · refine (hlayout.trans (layout_of_comment h)).trans ?_
          simp [layout, take]
      | _ => cases hcomment
    · have hcomment : l.isComment = false := by simp [← Bool.not_eq_true, isComment_iff hread, hc]
      obtain ⟨hpared, hprecedes⟩ := pared_withoutComments written.getLast? more hmore
      obtain ⟨w, rfl, hrest'⟩ := exists_cons_of_read hread hw
      have hread' := read_pared hread hc hrest' hpared hprecedes
      have hstep := step_congr hs hlayout hread hread'
      have hnext' : next.rest = more := by rw [hnext, take_rest]
      rw [hcomment] at hrest
      rw [lex_of_step (c := { c with rest := r, atLineStart := b }) hrest hstep, List.filter_append,
        filter_eq_self (kind_ne_of_step hs hc)]
      have hlex := ih previous' (withoutComments more) next.atLineStart ?_ ?_ ?_
      · exact congrArg (fun lexed : Lexed => Lexed.mk (tokens ++ lexed.tokens) lexed.ending) hlex
      · rw [hnext', ← hedges]
        exact hmore
      · rw [hnext']
        exact dropWhile_withoutComments more
      · apply layout_pared
        rw [hnext']
        exact hpared

end Cursor

theorem tokenize_withoutComments {source : String}
    (hfree : ∀ e ∈ commentEdges none source.toList, e.isFree) :
    tokenize (String.ofList (withoutComments source.toList)) =
      ⟨(tokenize source).tokens.filter (·.kind ≠ .comment), (tokenize source).ending⟩ := by
  obtain ⟨previous, hedges⟩ := exists_commentEdges_dropWhile none source.toList
  have hpared := (pared_withoutComments none source.toList hfree).1
  unfold tokenize
  rw [String.toList_ofList]
  exact Cursor.lex_withoutComments { rest := source.toList } previous _ true (hedges ▸ hfree)
    (dropWhile_withoutComments _) (Cursor.layout_pared hpared)

end PotExtract.Python
