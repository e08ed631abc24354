import PotExtract.Proofs.Python.CommentPlaces
import PotExtract.Proofs.Python.FindingLines
import PotExtract.Proofs.Python.InertComments

/-! Comments behind the closing parenthesis of a call. Such a comment goes to the message of the call
if the function of the call stands on the line of the parenthesis. If the call goes over several
lines, or gives no message, the comment goes to the last message that a call on its line gave, and
waits for a call on the line below if there is none. -/

namespace PotExtract.Python

open CommentCollector (note?)

/-! ### The lines of comments -/

namespace Cursor

variable {c next : Cursor}

/-- Behind the end of a line, comments stand on later lines. -/
theorem lt_line_of_lineEnd (h : ∀ d ∈ (c.rest.dropWhile isGap).head?, Lexeme.isLineEnd d) :
    ∀ t ∈ c.lex.tokens, t.kind = .comment → c.line < t.line := by
  intro t ht hk
  cases hrest : c.rest.dropWhile isGap with
  | nil =>
    rw [lex_of_nil hrest] at ht
    exact absurd hk (kind_ne_of_finish c t ht)
  | cons first rest =>
    have hfirst := h first (by rw [hrest]; rfl)
    have hlayout : c.layout = .ok ([], c.indents) := by
      simp [layout, hrest, startsStatement, hfirst]
    rw [lex_of_step hrest (step_of_read hlayout (Lexeme.read_lineEnd hfirst rest))] at ht
    rcases List.mem_append.1 ht with ht | ht
    · simp only [List.nil_append, take, List.mem_singleton] at ht
      rw [ht] at hk
      dsimp only at hk
      split at hk <;> cases hk
    · exact (lines_lex _).1 t ht

/-- A comment takes the rest of its line. -/
theorem pairwise_comments (c : Cursor) : c.lex.tokens.Pairwise fun t u =>
    t.kind = .comment → u.kind = .comment → t.line < u.line := by
  fun_induction lex c with
  | case1 c h =>
    refine List.pairwise_of_forall_mem_list fun t ht u _ hk => ?_
    exact absurd hk (kind_ne_of_finish c t ht)
  | case2 => exact .nil
  | case3 c first rest h tokens next hs _ later ih =>
    by_cases hfirst : first = '#'
    · subst hfirst
      obtain ⟨changes, indents, l, more, hlayout, hread, rfl, hnext⟩ := exists_of_step hs
      rw [layout_of_comment h] at hlayout
      cases hlayout
      have hends := isLineEnd_of_read_comment hread
      have hgap : more.dropWhile isGap = more := by
        cases more with
        | nil => rfl
        | cons d more =>
          exact List.dropWhile_cons_of_neg (by simp [isGap_of_isLineEnd (hends d rfl)])
      have hnextEnds : ∀ d ∈ (next.rest.dropWhile isGap).head?, Lexeme.isLineEnd d := by
        rwa [hnext, take_rest, hgap]
      cases l with
      | comment text =>
        have hline : next.line = c.line := by rw [hnext]; rfl
        refine List.pairwise_append.2 ⟨List.pairwise_singleton _ _, ih, fun t ht u hu _ hk => ?_⟩
        rw [List.mem_singleton.1 ht]
        exact hline ▸ lt_line_of_lineEnd hnextEnds u hu hk
      | _ => cases (isComment_iff hread).2 rfl
    · have htokens := kind_ne_of_step hs hfirst
      refine List.pairwise_append.2 ⟨?_, ih, fun t ht u _ hk => absurd hk (htokens t ht)⟩
      exact List.pairwise_of_forall_mem_list fun t ht u _ hk => absurd hk (htokens t ht)

end Cursor

/-! ### Ledgers with a message changed -/

namespace Ledger

variable {ctx : ScanContext} {l : Ledger} {fs : List Finding}

theorem modify_append_of_lt {α : Type} {xs : List α} {j : Nat} (hj : j < xs.length) (g : α → α)
    (ys : List α) : (xs ++ ys).modify j g = xs.modify j g ++ ys := by
  induction xs generalizing j with
  | nil => cases hj
  | cons x xs ih =>
    cases j with
    | zero => simp
    | succ j => simp [ih (Nat.lt_of_succ_lt_succ hj)]

theorem length_le_add (ctx : ScanContext) (l : Ledger) (f : Finding) :
    l.messages.length ≤ (l.add ctx f).messages.length := by
  cases f with
  | comment text line =>
    by_cases h : l.lastLine = some line
    · simp [add_beside h, annotateLast]
    · simp [add_loose h]
  | call line r =>
    by_cases hr : ctx.wants r <;> simp [add, hr]

theorem length_le_foldl (ctx : ScanContext) (l : Ledger) (fs : List Finding) :
    l.messages.length ≤ (fs.foldl (add ctx) l).messages.length := by
  induction fs generalizing l with
  | nil => exact Nat.le_refl _
  | cons f fs ih => exact (length_le_add ctx l f).trans (ih _)

/-- The ledger with one of its messages changed. -/
def change (l : Ledger) (j : Nat) (g : Message → Message) : Ledger :=
  { l with messages := l.messages.modify j g }

/-- Findings are entered alike in a ledger with a message changed, unless it is the last one and a
comment stands beside it. -/
theorem add_change {j : Nat} (g : Message → Message) (f : Finding) (hj : j < l.messages.length)
    (hlast : j + 1 = l.messages.length →
      ∀ text line, f = .comment text line → l.lastLine ≠ some line) :
    (l.change j g).add ctx f = (l.add ctx f).change j g := by
  cases f with
  | comment text line =>
    by_cases h : l.lastLine = some line
    · have hne : j ≠ l.messages.length - 1 := by
        intro heq
        exact hlast (by omega) text line rfl h
      have hchange : (l.change j g).lastLine = some line := h
      rw [add_beside hchange, add_beside h]
      simp only [change, annotateLast, List.length_modify]
      rw [List.modify_modify_ne _ _ _ hne]
    · have hchange : (l.change j g).lastLine ≠ some line := h
      rw [add_loose hchange, add_loose h]
      rfl
  | call line r =>
    by_cases hr : ctx.wants r
    · simp only [add, hr, if_true, change, modify_append_of_lt hj]
    · simp only [add, hr, change]
      rfl

theorem foldl_change {j : Nat} (g : Message → Message) (hj : j < l.messages.length)
    (hlast : j + 1 = l.messages.length →
      ∀ text line, .comment text line ∈ fs → l.lastLine ≠ some line) :
    fs.foldl (add ctx) (l.change j g) = (fs.foldl (add ctx) l).change j g := by
  induction fs generalizing l with
  | nil => rfl
  | cons f fs ih =>
    rw [List.foldl_cons, List.foldl_cons, add_change g f hj fun h text line hf =>
      hlast h text line (hf ▸ List.mem_cons_self)]
    refine ih (Nat.lt_of_lt_of_le hj (length_le_add ctx l f)) fun h text line hmem => ?_
    cases f with
    | comment text' line' =>
      have hkept : (l.add ctx (.comment text' line')).lastLine = l.lastLine ∧
          (l.add ctx (.comment text' line')).messages.length = l.messages.length := by
        by_cases hl : l.lastLine = some line'
        · simp [add_beside hl, annotateLast]
        · simp [add_loose hl]
      rw [hkept.1]
      exact hlast (hkept.2 ▸ h) text line (List.mem_cons_of_mem _ hmem)
    | call line' r =>
      by_cases hr : ctx.wants r
      · -- a message behind it is the last one now
        simp only [add, hr, if_true, List.length_append, List.length_singleton] at h
        omega
      · simp only [add, hr] at h ⊢
        exact hlast h text line (List.mem_cons_of_mem _ hmem)

/-- A message that no comment stands beside stays as it is. -/
theorem getElem?_foldl {j : Nat} {m : Message} (hm : l.messages[j]? = some m)
    (hlast : j + 1 = l.messages.length →
      ∀ text line, .comment text line ∈ fs → l.lastLine ≠ some line) :
    (fs.foldl (add ctx) l).messages[j]? = some m := by
  obtain ⟨hj, hget⟩ := List.getElem?_eq_some_iff.1 hm
  have hsame : l.change j (fun _ => m) = l := by
    have : l.messages.modify j (fun _ => m) = l.messages := by
      apply List.ext_getElem?
      intro i
      by_cases hi : j = i
      · subst hi
        simp [hm]
      · simp [hi]
    rw [change, this]
  have hfold : fs.foldl (add ctx) (l.change j fun _ => m) = _ := foldl_change _ hj hlast
  rw [hsame] at hfold
  have hlength := Nat.lt_of_lt_of_le hj (length_le_foldl ctx l fs)
  rw [hfold, change, List.getElem?_modify]
  simp [List.getElem?_eq_getElem hlength]

/-- A message is the last one that a call on the line of a comment gave only if there is one. -/
theorem ne_nil_of_lastLine (hl : l.lastLine.isSome → l.messages ≠ [])
    (h : (fs.foldl (add ctx) l).lastLine.isSome) : (fs.foldl (add ctx) l).messages ≠ [] := by
  induction fs generalizing l with
  | nil => exact hl h
  | cons f fs ih =>
    refine ih (fun hadd => ?_) h
    cases f with
    | comment text line =>
      have hlength := length_le_add ctx l (.comment text line)
      have hkept : (l.add ctx (.comment text line)).lastLine = l.lastLine := by
        by_cases hline : l.lastLine = some line
        · simp [add_beside hline]
        · simp [add_loose hline]
      have := List.length_pos_iff.2 (hl (hkept ▸ hadd))
      exact List.length_pos_iff.1 (Nat.lt_of_lt_of_le this hlength)
    | call line r =>
      by_cases hr : ctx.wants r
      · simp [add, hr]
      · simp only [add, hr] at hadd ⊢
        exact hl hadd

end Ledger

/-! ### Behind the parenthesis that closes a call -/

namespace ScanState

variable {ctx : ScanContext} {s s' : ScanState} {t : Token} {ts us : List Token}

/-- The scan is in no call in front of the tokens, among them, or behind them. -/
def StaysOutside (ctx : ScanContext) : ScanState → List Token → Prop
  | s, [] => ∀ c, s.mode ≠ .inCall c
  | s, t :: ts => (∀ c, s.mode ≠ .inCall c) ∧ ∀ s', s.take ctx t = .ok s' → StaysOutside ctx s' ts

theorem isNested_of_ne_inCall (h : ∀ c, s.mode ≠ .inCall c) : s.isNested = false := by
  cases hm : s.mode with
  | inCall c => exact absurd hm (h c)
  | _ => simp [isNested, hm]

/-- Outside of calls every token is taken. -/
theorem exists_take (h : ∀ c, s.mode ≠ .inCall c) (ctx : ScanContext) (t : Token) :
    ∃ s', s.take ctx t = .ok s' := by
  have hsignificant : ∃ s', s.takeSignificant ctx t = .ok s' := by
    unfold takeSignificant
    cases hm : s.mode with
    | inCall c => exact absurd hm (h c)
    | _ => exact ⟨_, rfl⟩
  unfold take
  simp only [isNested_of_ne_inCall h]
  split
  · exact hsignificant
  split
  · exact ⟨_, rfl⟩
  split
  · exact ⟨_, rfl⟩
  split
  · exact ⟨_, rfl⟩
  · exact hsignificant

/-- Outside of calls only comments are found. -/
theorem finding?_of_ne_inCall (h : ∀ c, s.mode ≠ .inCall c) (ctx : ScanContext) (t : Token) :
    s.finding? ctx t = if t.kind = .comment then some (.comment t.text t.line) else none := by
  simp only [finding?, isNested_of_ne_inCall h]
  split
  · contradiction
  split
  · rfl
  · cases hm : s.mode with
    | inCall c => exact absurd hm (h c)
    | _ => rfl

/-- Tokens outside of calls that are no comments leave the ledger as it is. -/
theorem exists_takeAll (h : StaysOutside ctx s ts) (hts : ∀ t ∈ ts, t.kind ≠ .comment) :
    ∃ s', takeAll ctx s ts = (s', none) ∧ s'.ledger = s.ledger ∧ ∀ c, s'.mode ≠ .inCall c := by
  induction ts generalizing s with
  | nil => exact ⟨s, rfl, rfl, h⟩
  | cons t ts ih =>
    obtain ⟨ht, hts⟩ := List.forall_mem_cons.1 hts
    obtain ⟨hs, hlater⟩ := h
    obtain ⟨s₁, hs₁⟩ := exists_take hs ctx t
    obtain ⟨s', htake, hledger, hmode⟩ := ih (hlater s₁ hs₁) hts
    refine ⟨s', by rw [takeAll_cons hs₁, htake], hledger.trans ?_, hmode⟩
    rw [ledger_take hs₁, finding?_of_ne_inCall hs, if_neg ht]
    rfl

/-- A comment outside of calls is entered in the ledger, and nothing else changes. -/
theorem exists_take_outside (h : ∀ c, s.mode ≠ .inCall c) (ht : t.kind = .comment) :
    ∃ s', s.take ctx t = .ok s' ∧ s'.control = s.control ∧
      s'.ledger = s.ledger.add ctx (.comment t.text t.line) := by
  have hsettle : s.settleName t = s := by
    unfold settleName
    split
    · next c hc => exact absurd hc (h c)
    · rfl
  refine ⟨s.takeComment t, ?_, control_takeComment s t, ledger_takeComment ctx s t⟩
  rw [take_comment (isNested_of_ne_inCall h) ht, hsettle]

theorem kind_of_finding? {text : String} {line : Nat}
    (h : s.finding? ctx t = some (.comment text line)) : t.kind = .comment := by
  unfold finding? at h
  split at h
  · cases h
  split at h
  · assumption
  split at h
  · split at h
    · unfold callFinding? at h
      split at h
      · split at h <;> cases h
      · cases h
    · cases h
  · cases h

theorem mem_of_comment_mem_findings {text : String} {line : Nat}
    (h : .comment text line ∈ findings ctx s ts) :
    ∃ t ∈ ts, t.kind = .comment ∧ t.line = line := by
  induction ts generalizing s with
  | nil => cases h
  | cons t ts ih =>
    unfold findings at h
    split at h
    · next s' hs' =>
      rcases List.mem_append.1 h with h | h
      · have hfinding := Option.mem_toList.1 h
        rcases line_finding? hfinding with heq | ⟨line, r, heq, -⟩
        · cases heq
          exact ⟨t, List.mem_cons_self, kind_of_finding? hfinding, rfl⟩
        · cases heq
      · obtain ⟨u, hu, hk⟩ := ih h
        exact ⟨u, List.mem_cons_of_mem t hu, hk⟩
    · cases h

theorem policy_takeAll (h : takeAll ctx s ts = (s', none)) :
    s'.comments.policy = s.comments.policy := by
  induction ts generalizing s with
  | nil =>
    cases h
    rfl
  | cons t ts ih =>
    cases ht : s.take ctx t with
    | error e => simp [takeAll, ht] at h
    | ok s₁ =>
      rw [takeAll_cons ht] at h
      exact (ih h).trans (policy_take ht)

/-- The function of the call that a scan comes to or is in stands on the line of a token. -/
theorem functionLine?_takeAll {line : Nat} (h : takeAll ctx s ts = (s', none))
    (hline : s'.functionLine? = some line) :
    s.functionLine? = some line ∨ ∃ t ∈ ts, t.line = line := by
  induction ts generalizing s with
  | nil =>
    cases h
    exact .inl hline
  | cons t ts ih =>
    cases ht : s.take ctx t with
    | error e => simp [takeAll, ht] at h
    | ok s₁ =>
      rw [takeAll_cons ht] at h
      rcases ih h with hs₁ | ⟨u, hu, hline⟩
      · rcases functionLine?_take ht with hnone | hsame | htoken
        · rw [hnone] at hs₁
          cases hs₁
        · exact .inl (hsame.symm.trans hs₁)
        · rw [htoken] at hs₁
          exact .inr ⟨t, List.mem_cons_self, Option.some.inj hs₁⟩
      · exact .inr ⟨u, List.mem_cons_of_mem t hu, hline⟩

/-- A call that is closed gives a message, which is the last one then, or changes nothing. -/
theorem ledger_of_closed {c d : Call} (hs : s.mode = .inCall c) (hd : c.take t = .ok (.closed d))
    (h : s.take ctx t = .ok s') :
    (∃ m, s'.messages = s.messages ++ [m] ∧ s'.lastLine = some c.line ∧
        s'.comments = s.comments) ∨ s'.ledger = s.ledger := by
  have hfinding : s.finding? ctx t = callFinding? ctx d := by
    obtain ⟨hparen, hphase⟩ := Call.take_closed hd
    have hk : t.kind ≠ .comment := by simp [(Token.isOperator_iff.1 hparen).1]
    have hnested : s.isNested = false := by
      rw [Bool.eq_false_iff, Ne, isNested_iff hs]
      rintro ⟨opener, closer, depth, hp⟩
      rcases hphase with ⟨hp', -⟩ | ⟨_, _, hp', -⟩ <;> simp [hp] at hp'
    simp [finding?, hnested, hk, hs, hd]
  have hledger := ledger_take h
  rw [hfinding] at hledger
  cases hcall : callFinding? ctx d with
  | none =>
    rw [hcall] at hledger
    exact .inr hledger
  | some f =>
    obtain ⟨r, rfl⟩ : ∃ r, f = .call c.line r := by
      unfold callFinding? at hcall
      split at hcall
      · split at hcall
        · cases hcall
        · cases hcall
          exact ⟨_, by rw [Call.line_of_closed hd]⟩
      · cases hcall
    rw [hcall] at hledger
    by_cases hr : ctx.wants r
    · left
      simp only [Option.toList_some, List.foldl_cons, List.foldl_nil, Ledger.add, hr, if_true]
        at hledger
      exact ⟨_, congrArg Ledger.messages hledger, congrArg Ledger.lastLine hledger,
        congrArg Ledger.comments hledger⟩
    · right
      simpa [Ledger.add, hr] using hledger

end ScanState

theorem messages_of_scan {ctx : ScanContext} {source : String} {messages : List Message}
    (h : scan ctx source = .ok messages) :
    messages = (ScanState.takeAll ctx (.start ctx) (tokenize source).tokens).1.messages := by
  rw [scan_eq] at h
  split at h
  · cases h
  · cases h
    have hledger := ScanState.ledger_takeAll ctx (.start ctx) (tokenize source).tokens
    exact (congrArg Ledger.messages hledger).symm

theorem forCall_join {c : CommentCollector} {pending : Option Note} {note : Note}
    (h : c.pending = CommentCollector.join pending note) :
    c.forCall (note.line + 1) = CommentCollector.join pending note := by
  rw [CommentCollector.forCall, h]
  cases pending with
  | none => simp [CommentCollector.join]
  | some p =>
    by_cases hp : p.line + 1 = note.line
    · simp [CommentCollector.join, hp, CommentCollector.extend]
    · simp [CommentCollector.join, hp]

/-- A comment that follows the parenthesis which closes a call, on its line, with no other call
between them. -/
structure TrailingComment (ctx : ScanContext) (source : String) where
  front : List Token
  paren : Token
  between : List Token
  comment : Token
  back : List Token
  before : ScanState
  call : Call
  closed : Call
  after : ScanState
  tokens_eq : (tokenize source).tokens = front ++ paren :: (between ++ comment :: back)
  takeAll_front : ScanState.takeAll ctx (.start ctx) front = (before, none)
  isOpen : before.mode = .inCall call
  closes : call.take paren = .ok (.closed closed)
  take_paren : before.take ctx paren = .ok after
  staysOutside : after.StaysOutside ctx between
  isComment : comment.kind = .comment
  sameLine : comment.line = paren.line

namespace TrailingComment

variable {ctx : ScanContext} {source : String} {messages : List Message} {note : Note}

/-- The messages that the source has without the comment. -/
def messagesWithout (k : TrailingComment ctx source) : List Message :=
  (ScanState.takeAll ctx k.after (k.between ++ k.back)).1.messages

/-- Behind the comment, a note is that of a call on the line below, with the comment that waits in
front of it. -/
def Waits (k : TrailingComment ctx source) (note : Note) : Prop :=
  (ScanState.takeAll ctx k.after (k.between ++ [k.comment])).1.comments.forCall
    (k.comment.line + 1) = CommentCollector.join k.before.comments.pending note

/-- Of the tokens in front of the comment none is a comment behind the parenthesis, and those behind
it stand on later lines. -/
theorem comments (k : TrailingComment ctx source) :
    (∀ t ∈ k.between, t.kind ≠ .comment) ∧
      ∀ t ∈ k.back, t.kind = .comment → k.comment.line < t.line := by
  have hcomments := Cursor.pairwise_comments { rest := source.toList }
  have hlines := lines_tokenize source
  change (tokenize source).tokens.Pairwise _ at hcomments
  rw [k.tokens_eq] at hcomments hlines
  obtain ⟨-, hcomments, -⟩ := List.pairwise_append.1 hcomments
  obtain ⟨-, hlines, -⟩ := List.pairwise_append.1 hlines
  obtain ⟨-, hback, hbetween⟩ := List.pairwise_append.1 (List.pairwise_cons.1 hcomments).2
  refine ⟨fun t ht hk => ?_, fun t ht hk => (List.pairwise_cons.1 hback).1 t ht k.isComment hk⟩
  have hlt := hbetween t ht k.comment List.mem_cons_self hk k.isComment
  have hle := (List.pairwise_cons.1 hlines).1 t (List.mem_append_left _ ht)
  rw [k.sameLine] at hlt
  omega

theorem call_line_le (k : TrailingComment ctx source) : k.call.line ≤ k.comment.line := by
  have hline : k.before.functionLine? = some k.call.line := by
    simp [ScanState.functionLine?, k.isOpen]
  have hlines := lines_tokenize source
  rw [k.tokens_eq] at hlines
  rcases ScanState.functionLine?_takeAll k.takeAll_front hline with hstart | ⟨t, ht, hline⟩
  · cases hstart
  · rw [← hline, k.sameLine]
    exact (List.pairwise_append.1 hlines).2.2 t ht k.paren List.mem_cons_self

/-- The messages with the comment and without it are those of the same findings, entered in the
ledger with the comment and without it. -/
theorem exists_findings (k : TrailingComment ctx source)
    (hscan : scan ctx source = .ok messages) :
    ∃ fs : List Finding, (∀ text line, .comment text line ∈ fs → k.comment.line < line) ∧
      messages = (fs.foldl (Ledger.add ctx)
        (k.after.ledger.add ctx (.comment k.comment.text k.comment.line))).messages ∧
      k.messagesWithout = (fs.foldl (Ledger.add ctx) k.after.ledger).messages ∧
      (ScanState.takeAll ctx k.after (k.between ++ [k.comment])).1.ledger =
        k.after.ledger.add ctx (.comment k.comment.text k.comment.line) := by
  obtain ⟨hbetween, hback⟩ := k.comments
  obtain ⟨s, hs, hledger, hmode⟩ := ScanState.exists_takeAll k.staysOutside hbetween
  obtain ⟨s', hs', hcontrol, hledger'⟩ := ScanState.exists_take_outside hmode k.isComment
  rw [hledger] at hledger'
  refine ⟨ScanState.findings ctx s k.back, fun text line hf => ?_, ?_, ?_, ?_⟩
  · obtain ⟨t, ht, hkind, rfl⟩ := ScanState.mem_of_comment_mem_findings hf
    exact hback t ht hkind
  · have hmessages := messages_of_scan hscan
    rw [k.tokens_eq, ScanState.takeAll_append k.takeAll_front, ScanState.takeAll_cons k.take_paren,
      ScanState.takeAll_append hs, ScanState.takeAll_cons hs'] at hmessages
    have hkeywords : ctx.options.keywords = ctx.options.keywords := rfl
    have hfindings := (ScanState.findings_congr hkeywords hcontrol k.back).1
    rw [hmessages, ← hledger', ← hfindings]
    exact congrArg Ledger.messages (ScanState.ledger_takeAll ctx s' k.back)
  · rw [messagesWithout, ScanState.takeAll_append hs, ← hledger]
    exact congrArg Ledger.messages (ScanState.ledger_takeAll ctx s k.back)
  · rw [ScanState.takeAll_append hs, ScanState.takeAll_singleton hs', hledger']

theorem note?_after (k : TrailingComment ctx source)
    (hnote : note? ctx.options.comments k.comment.text k.comment.line = some note) :
    note? k.after.ledger.comments.policy k.comment.text k.comment.line = some note := by
  have hfront := ScanState.policy_takeAll k.takeAll_front
  have hparen := ScanState.policy_take k.take_paren
  show note? k.after.comments.policy _ _ = _
  rw [hparen, hfront]
  exact hnote

/-- If the last message comes from a call on the line of the comment, the comment is noted on it, and
changes nothing else. -/
theorem messages_of_beside (k : TrailingComment ctx source)
    (hnote : note? ctx.options.comments k.comment.text k.comment.line = some note)
    (hscan : scan ctx source = .ok messages) (hnil : k.after.messages ≠ [])
    (hlast : k.after.lastLine = some k.comment.line) :
    messages =
      k.messagesWithout.modify (k.after.messages.length - 1) (ScanState.annotate note) := by
  obtain ⟨fs, hfs, rfl, hwithout, -⟩ := k.exists_findings hscan
  have hadd : k.after.ledger.add ctx (.comment k.comment.text k.comment.line) =
      k.after.ledger.change (k.after.messages.length - 1) (ScanState.annotate note) := by
    rw [Ledger.add_beside hlast, k.note?_after hnote]
    rfl
  have hj : k.after.messages.length - 1 < k.after.ledger.messages.length :=
    Nat.sub_lt (List.length_pos_iff.2 hnil) Nat.one_pos
  have hlater : ∀ text line, .comment text line ∈ fs → k.after.ledger.lastLine ≠ some line := by
    intro text line hf heq
    have hline : k.comment.line = line := Option.some.inj (hlast.symm.trans heq)
    exact absurd (hfs text line hf) (hline ▸ Nat.lt_irrefl _)
  rw [hadd, Ledger.foldl_change _ hj fun _ => hlater, hwithout]
  rfl

/-- If the last message comes from a call on another line, the comment waits for a call on the line
below. -/
theorem waits_of_ne (k : TrailingComment ctx source)
    (hnote : note? ctx.options.comments k.comment.text k.comment.line = some note)
    (hscan : scan ctx source = .ok messages) (hlast : k.after.lastLine ≠ some k.comment.line)
    (hcomments : k.after.comments = k.before.comments) : k.Waits note := by
  obtain ⟨-, -, -, -, hledger⟩ := k.exists_findings hscan
  rw [Ledger.add_loose hlast, k.note?_after hnote] at hledger
  have hpending := congrArg (fun l : Ledger => l.comments.pending) hledger
  have hjoin : (ScanState.takeAll ctx k.after (k.between ++ [k.comment])).1.comments.pending =
      CommentCollector.join k.before.comments.pending note :=
    hpending.trans (by rw [← hcomments]; rfl)
  rw [Waits, ← CommentCollector.line_of_note? hnote]
  exact forCall_join hjoin

/-- If the last message comes from a call on an earlier line, the comment does not change it. -/
theorem getElem?_of_lt (k : TrailingComment ctx source) {j line : Nat} {m : Message}
    (hscan : scan ctx source = .ok messages) (hlast : k.after.lastLine = some line)
    (hline : line < k.comment.line) (hm : k.after.messages[j]? = some m) :
    messages[j]? = some m := by
  obtain ⟨fs, hfs, rfl, -, -⟩ := k.exists_findings hscan
  have hne : k.after.ledger.lastLine ≠ some k.comment.line := by
    intro heq
    have : line = k.comment.line := Option.some.inj (hlast.symm.trans heq)
    omega
  rw [Ledger.add_loose hne]
  refine Ledger.getElem?_foldl hm fun _ text later hf heq => ?_
  have : line = later := Option.some.inj (hlast.symm.trans heq)
  have := hfs text later hf
  omega

theorem before_messages_ne_nil (k : TrailingComment ctx source)
    (h : k.before.lastLine.isSome) : k.before.messages ≠ [] := by
  have hledger := ScanState.ledger_takeAll ctx (.start ctx) k.front
  rw [k.takeAll_front] at hledger
  have hstart : (ScanState.start ctx).ledger.lastLine.isSome →
      (ScanState.start ctx).ledger.messages ≠ [] := fun h => nomatch h
  have hnil : k.before.ledger.lastLine.isSome → k.before.ledger.messages ≠ [] := by
    rw [show k.before.ledger = _ from hledger]
    exact Ledger.ne_nil_of_lastLine hstart
  exact hnil h

/-- An accepted comment behind a call: if the call gives a message and its function stands on the
line of the comment, the comment is noted on that message and changes nothing else. If the function
stands on an earlier line, the message is left as it is, and the comment waits for a call on the line
below. If the call gives no message, the comment is noted on the last message that a call on its line
gave, and waits if there is none. -/
theorem messages_cases (k : TrailingComment ctx source)
    (hnote : note? ctx.options.comments k.comment.text k.comment.line = some note)
    (hscan : scan ctx source = .ok messages) :
    (∃ m, k.after.messages = k.before.messages ++ [m] ∧
      (k.call.line = k.comment.line → messages =
        k.messagesWithout.modify k.before.messages.length (ScanState.annotate note)) ∧
      (k.call.line ≠ k.comment.line →
        messages[k.before.messages.length]? = some m ∧ k.Waits note)) ∨
    (k.after.messages = k.before.messages ∧
      (k.before.lastLine = some k.comment.line → messages =
        k.messagesWithout.modify (k.before.messages.length - 1) (ScanState.annotate note)) ∧
      (k.before.lastLine ≠ some k.comment.line → k.Waits note)) := by
  rcases ScanState.ledger_of_closed k.isOpen k.closes k.take_paren with
    ⟨m, hmessages, hlast, hcomments⟩ | hledger
  · refine .inl ⟨m, hmessages, fun hline => ?_, fun hline => ⟨?_, ?_⟩⟩
    · have hbeside := k.messages_of_beside hnote hscan (by simp [hmessages]) (hline ▸ hlast)
      rwa [hmessages, List.length_append, List.length_singleton, Nat.add_sub_cancel] at hbeside
    · exact k.getElem?_of_lt hscan hlast (Nat.lt_of_le_of_ne k.call_line_le hline)
        (by simp [hmessages])
    · refine k.waits_of_ne hnote hscan (fun heq => hline ?_) hcomments
      exact Option.some.inj (hlast.symm.trans heq)
  · have hmessages : k.after.messages = k.before.messages := congrArg Ledger.messages hledger
    have hlast : k.after.lastLine = k.before.lastLine := congrArg Ledger.lastLine hledger
    refine .inr ⟨hmessages, fun hline => ?_, fun hline => ?_⟩
    · have hnil := k.before_messages_ne_nil (by simp [hline])
      rw [← hmessages] at hnil ⊢
      exact k.messages_of_beside hnote hscan hnil (hlast.trans hline)
    · exact k.waits_of_ne hnote hscan (hlast ▸ hline) (congrArg Ledger.comments hledger)

end TrailingComment

/-! ### A call over several lines -/

/-- A scan that keeps all comments. -/
def allComments : ScanContext :=
  ⟨{ comments := .all }, "a.py", 0⟩

namespace WrappedCall

/-- A call over several lines with a comment behind it, and a call on the next line. -/
def source : String :=
  "_(\n'a'\n) # note\n_('b')"

/-- The tokens in front of the parenthesis that closes the first call. -/
def front : List Token :=
  (tokenize source).tokens.take 5

/-- The first call once its text is read. -/
def call : Call :=
  { function := "_"
    line := 1
    arguments := [⟨none, .text "a"⟩]
    inArgument := true
    inString := true }

/-- The scan in front of the parenthesis. -/
def before : ScanState :=
  { mode := .inCall call, comments := { policy := .all } }

/-- The scan behind the parenthesis. -/
def after : ScanState :=
  { comments := { policy := .all }
    messages := [{ id := "a", location := ⟨"a.py", 1⟩ }]
    lastLine := some 1 }

theorem scan_steps :
    (tokenize source).tokens = front ++ ⟨.operator, ")", 3⟩ ::
        ([] ++ ⟨.comment, "# note", 3⟩ :: (tokenize source).tokens.drop 7) ∧
      ScanState.takeAll allComments (.start allComments) front = (before, none) ∧
      call.take ⟨.operator, ")", 3⟩ = .ok (.closed { call with inString := false }) ∧
      before.take allComments ⟨.operator, ")", 3⟩ = .ok after := by
  decide +kernel

theorem staysOutside_after : after.StaysOutside allComments [] :=
  fun _ h => nomatch h

/-- The comment behind the first call. -/
def comment : TrailingComment allComments source where
  front := front
  paren := ⟨.operator, ")", 3⟩
  between := []
  comment := ⟨.comment, "# note", 3⟩
  back := (tokenize source).tokens.drop 7
  before := before
  call := call
  closed := { call with inString := false }
  after := after
  tokens_eq := scan_steps.1
  takeAll_front := scan_steps.2.1
  isOpen := rfl
  closes := scan_steps.2.2.1
  take_paren := scan_steps.2.2.2
  staysOutside := staysOutside_after
  isComment := rfl
  sameLine := rfl

/-- The first call gives its message without the comment, which waits. -/
theorem messages_comment : ∃ note messages,
    note? allComments.options.comments comment.comment.text comment.comment.line = some note ∧
      scan allComments source = .ok messages ∧ comment.call.line ≠ comment.comment.line ∧
      messages[0]? = some { id := "a", location := ⟨"a.py", 1⟩ } ∧ comment.Waits note := by
  have hnote : note? allComments.options.comments comment.comment.text comment.comment.line =
      some ⟨3, "note", []⟩ := by decide +kernel
  have hscan : scan allComments source = .ok [{ id := "a", location := ⟨"a.py", 1⟩ },
      { id := "b", comment := "note", location := ⟨"a.py", 4⟩ }] := by decide +kernel
  have hline : comment.call.line ≠ comment.comment.line := by decide
  refine ⟨_, _, hnote, hscan, hline, rfl, ?_⟩
  rcases comment.messages_cases hnote hscan with ⟨m, -, -, hwaits⟩ | ⟨hsame, -, -⟩
  · exact (hwaits hline).2
  · exact absurd hsame (by decide)

/-- The comment behind the first call goes to the second one. -/
theorem scan_source : scan allComments source =
    .ok [{ id := "a", location := ⟨"a.py", 1⟩ },
      { id := "b", comment := "note", location := ⟨"a.py", 4⟩ }] := by
  decide +kernel

end WrappedCall

end PotExtract.Python
