import PotExtract.Proofs.Python.DeletedComments
import PotExtract.Proofs.Python.PositionalCalls

/-! Comments under the policy that keeps none. A scan makes nothing of them, with one exception: a
comment directly behind a name in the arguments of a call settles the name as a value of its own,
even where it would go on with a parenthesis, a bracket, an equals sign or a dot. -/

namespace PotExtract.Python

/-- Whether a name goes on with the token. -/
def Token.continuesName (t : Token) : Bool :=
  t.isOperator "(" || t.isOperator "[" || t.isOperator "=" || t.isOperator "."

/-- A name that is not continued is settled by the token behind it as it is by a comment. -/
theorem Call.take_settled {c : Call} {t : Token} {name : String} {line : Nat}
    (hp : c.phase = .afterName name line) (ht : t.continuesName = false) :
    c.settled.take t = c.take t := by
  simp only [Token.continuesName, Bool.or_eq_false_iff] at ht
  obtain ⟨⟨⟨hparen, hbracket⟩, hequals⟩, hdot⟩ := ht
  have hphase : c.settled.phase = .arguments := by
    rw [settled_of_afterName hp]
    rfl
  unfold take
  rw [hphase, hp, hparen, hbracket, hequals, endName_eq_settled hp hdot]
  rfl

/-- Whether two scans end alike: with the same messages, and the same failure now or at the end of
the source. -/
structure EndsAlike (r r' : ScanState × Option ScanFailure) : Prop where
  failure : r.2 = r'.2
  messages : r.1.messages = r'.1.messages
  atEnd : ∀ line, r.1.failureAtEnd line = r'.1.failureAtEnd line

namespace EndsAlike

variable {r r' r'' : ScanState × Option ScanFailure}

theorem refl (r : ScanState × Option ScanFailure) : EndsAlike r r :=
  ⟨rfl, rfl, fun _ => rfl⟩

theorem trans (h : EndsAlike r r') (h' : EndsAlike r' r'') : EndsAlike r r'' :=
  ⟨h.failure.trans h'.failure, h.messages.trans h'.messages,
    fun line => (h.atEnd line).trans (h'.atEnd line)⟩

end EndsAlike

namespace ScanState

variable {ctx : ScanContext} {s s' : ScanState} {t : Token}

/-- Whether the scan has just read a name in the arguments of a call. -/
def isAfterName (s : ScanState) : Bool :=
  match s.mode with
  | .inCall c =>
    match c.phase with
    | .afterName _ _ => true
    | _ => false
  | _ => false

/-- The tokens that follow comments directly behind names in the arguments of calls, in a scan that
passes over the comments. -/
def behindCommentedNames (ctx : ScanContext) : ScanState → List Token → List Token
  | _, [] => []
  | s, t :: ts =>
    if t.kind = .comment then
      (if s.isAfterName then (ts.find? Token.isSignificant).toList else []) ++
        behindCommentedNames ctx s ts
    else
      match s.take ctx t with
      | .ok s => behindCommentedNames ctx s ts
      | .error _ => []

/-! ### The policy -/

theorem policy_collect (c : CommentCollector) (raw : String) (line : Nat) (previous : Option Nat) :
    (c.collect raw line previous).1.policy = c.policy := by
  unfold CommentCollector.collect
  split
  · rfl
  · split <;> rfl

theorem policy_add (ctx : ScanContext) (l : Ledger) (f : Finding) :
    (l.add ctx f).comments.policy = l.comments.policy := by
  cases f with
  | comment text line =>
    have hpolicy := policy_collect l.comments text line l.lastLine
    unfold Ledger.add
    dsimp only
    split <;> next h => simpa [h] using hpolicy
  | call line r =>
    unfold Ledger.add
    dsimp only
    split <;> rfl

theorem policy_take (h : s.take ctx t = .ok s') : s'.comments.policy = s.comments.policy := by
  have hledger := congrArg (fun l : Ledger => l.comments.policy) (ledger_take h)
  refine hledger.trans ?_
  cases s.finding? ctx t with
  | none => rfl
  | some f => exact policy_add ctx s.ledger f

theorem takeComment_of_none (h : s.comments.policy = .none) (t : Token) : s.takeComment t = s := by
  have hnote : CommentCollector.note? s.comments.policy t.text t.line = none := by
    rw [h]
    rfl
  simp [takeComment, CommentCollector.collect, hnote]

/-! ### Passing over a comment -/

/-- Inside of nested brackets the next token decides whether a definition follows. -/
theorem endsAlike_nested (hs : s.isNested) (b : Bool) (ts : List Token) :
    EndsAlike (takeAll ctx { s with inDefinition := b } ts) (takeAll ctx s ts) := by
  have hs' : ({ s with inDefinition := b } : ScanState).isNested := hs
  cases ts with
  | nil => exact ⟨rfl, rfl, fun _ => rfl⟩
  | cons t ts =>
    have htake : ({ s with inDefinition := b } : ScanState).take ctx t = s.take ctx t := by
      simp only [take, hs, hs']
      rfl
    rw [takeAll, takeAll, htake]
    split
    · exact .refl _
    · exact ⟨rfl, rfl, fun _ => rfl⟩

/-- A name that a comment settles is settled by the next significant token as well. -/
theorem endsAlike_settled {c : Call} {name : String} {line : Nat} (hm : s.mode = .inCall c)
    (hp : c.phase = .afterName name line) (hpolicy : s.comments.policy = .none) (ts : List Token)
    (hnext : ∀ u ∈ ts.find? Token.isSignificant, u.continuesName = false) :
    EndsAlike (takeAll ctx { s with mode := .inCall c.settled } ts) (takeAll ctx s ts) := by
  have hs : s.isNested = false := by simp [isNested, hm, hp]
  let s₁ : ScanState := { s with mode := .inCall c.settled }
  have hphase : c.settled.phase = .arguments := by
    rw [Call.settled_of_afterName hp]
    rfl
  have hline : c.settled.line = c.line := by
    rw [Call.settled_of_afterName hp]
    rfl
  have hs₁ : s₁.isNested = false := by simp [isNested, s₁, hphase]
  have hatEnd : ∀ line, s₁.failureAtEnd line = s.failureAtEnd line := by
    intro line
    simp only [failureAtEnd, hm, hs, hs₁, s₁, hline]
  induction ts with
  | nil => exact ⟨rfl, rfl, hatEnd⟩
  | cons t ts ih =>
    -- Layout is passed over, a further comment settles the name, and any other token does as well.
    by_cases hlayout : t.isLayout
    · have hk : t.kind ≠ .comment := by
        intro hk
        simp [Token.isLayout, hk] at hlayout
      have htake : s.take ctx t = .ok s := by simp [take, hs, hk, hlayout]
      have htake₁ : s₁.take ctx t = .ok s₁ := by simp [take, hs₁, hk, hlayout]
      rw [takeAll_cons htake, takeAll_cons htake₁]
      refine ih fun u hu => hnext u ?_
      simpa [Token.isSignificant, hlayout] using hu
    by_cases hk : t.kind = .comment
    · have hdot : t.isOperator "." = false := by simp [Token.isOperator, hk]
      have hsettle : s.settleName t = s₁ := by
        simp only [settleName, hm, hp, Call.endName_eq_settled hp hdot]
        rfl
      have hpolicy₁ : s₁.comments.policy = .none := hpolicy
      have htake : s.take ctx t = .ok s₁ := by
        simp [take, hs, hk, hsettle, takeComment_of_none hpolicy₁]
      have htake₁ : s₁.take ctx t = .ok s₁ := by
        have hsettle₁ : s₁.settleName t = s₁ := by simp only [settleName, s₁, hphase]
        simp [take, hs₁, hk, hsettle₁, takeComment_of_none hpolicy₁]
      rw [takeAll_cons htake, takeAll_cons htake₁]
      exact .refl _
    · have hlayout : t.isLayout = false := by simpa using hlayout
      have hcontinues : t.continuesName = false := by
        refine hnext t ?_
        simp [Token.isSignificant, hlayout, hk]
      have htake : s₁.take ctx t = s.take ctx t := by
        simp only [take, hs, hs₁, hk, hlayout, if_false, Bool.false_eq_true]
        rw [if_neg (by simp [s₁]), if_neg (by simp [hm])]
        simp only [takeSignificant, hm, takeInCall, s₁, Call.take_settled hp hcontinues]
      show EndsAlike (takeAll ctx s₁ (t :: ts)) _
      rw [takeAll, takeAll, htake]
      split
      · exact .refl _
      · exact ⟨rfl, rfl, hatEnd⟩

theorem isAfterName_iff : s.isAfterName ↔
    ∃ c name line, s.mode = .inCall c ∧ c.phase = .afterName name line := by
  unfold isAfterName
  cases hm : s.mode with
  | inCall c => cases hp : c.phase <;> simp [hp]
  | _ => simp

theorem take_comment_of_isNested (ctx : ScanContext) (hs : s.isNested) (hk : t.kind = .comment) :
    ∃ b, s.take ctx t = .ok { s with inDefinition := b } := by
  cases hm : s.mode with
  | outside => simp [isNested, hm] at hs
  | named function line => simp [isNested, hm] at hs
  | inCall c =>
    obtain ⟨opener, closer, depth, hp⟩ := (isNested_iff hm).1 hs
    have hcall : c.take t = .ok (.more c) := by
      simp [Call.take, hp, Call.takeNested, hk, Token.isOperator, Except.map, Except.mapError]
    simp only [take, hs, if_true, takeSignificant, hm, takeInCall, hcall]
    exact ⟨_, rfl⟩

theorem take_comment (hs : s.isNested = false) (hk : t.kind = .comment) :
    s.take ctx t = .ok ((s.settleName t).takeComment t) := by
  simp [take, hs, hk]

/-- A comment changes nothing of how a scan ends, unless a name goes on behind it. -/
theorem endsAlike_comment (hk : t.kind = .comment) (hpolicy : s.comments.policy = .none)
    (h : s.take ctx t = .ok s') (ts : List Token)
    (hnext : s.isAfterName → ∀ u ∈ ts.find? Token.isSignificant, u.continuesName = false) :
    EndsAlike (takeAll ctx s' ts) (takeAll ctx s ts) := by
  cases hs : s.isNested with
  | true =>
    obtain ⟨b, htake⟩ := take_comment_of_isNested ctx hs hk
    obtain rfl := Except.ok.inj (htake.symm.trans h)
    exact endsAlike_nested hs b ts
  | false =>
  obtain rfl := Except.ok.inj ((take_comment hs hk).symm.trans h)
  by_cases hname : s.isAfterName
  · obtain ⟨c, name, line, hm, hp⟩ := isAfterName_iff.1 hname
    have hdot : t.isOperator "." = false := by simp [Token.isOperator, hk]
    have hsettle : s.settleName t = { s with mode := .inCall c.settled } := by
      simp only [settleName, hm, hp, Call.endName_eq_settled hp hdot]
    have hkeep := takeComment_of_none (s := { s with mode := .inCall c.settled }) hpolicy t
    rw [hsettle, hkeep]
    exact endsAlike_settled hm hp hpolicy ts (hnext hname)
  · have hsettle : s.settleName t = s := by
      unfold settleName
      split
      · next c hm =>
        split
        · next name line hp => exact absurd (isAfterName_iff.2 ⟨c, name, line, hm, hp⟩) hname
        · rfl
      · rfl
    rw [hsettle, takeComment_of_none hpolicy]
    exact .refl _

theorem exists_take_comment (ctx : ScanContext) (s : ScanState) (hk : t.kind = .comment) :
    ∃ s', s.take ctx t = .ok s' := by
  cases hs : s.isNested with
  | true =>
    obtain ⟨b, htake⟩ := take_comment_of_isNested ctx hs hk
    exact ⟨_, htake⟩
  | false => exact ⟨_, take_comment hs hk⟩

/-- Without its comments a row of tokens ends a scan alike, unless a name goes on behind one. -/
theorem endsAlike_filter (ctx : ScanContext) (s : ScanState) (ts : List Token)
    (hpolicy : s.comments.policy = .none)
    (hnext : ∀ u ∈ behindCommentedNames ctx s ts, u.continuesName = false) :
    EndsAlike (takeAll ctx s ts) (takeAll ctx s (ts.filter (·.kind ≠ .comment))) := by
  induction ts generalizing s with
  | nil => exact .refl _
  | cons t ts ih =>
    rw [behindCommentedNames] at hnext
    by_cases hk : t.kind = .comment
    · rw [if_pos hk] at hnext
      obtain ⟨s', htake⟩ := exists_take_comment ctx s hk
      have hcomment := endsAlike_comment hk hpolicy htake ts fun hname u hu => ?_
      · rw [takeAll_cons htake, List.filter_cons_of_neg (by simp [hk])]
        exact hcomment.trans (ih s hpolicy fun u hu => hnext u (List.mem_append_right _ hu))
      · refine hnext u (List.mem_append_left _ ?_)
        rw [if_pos hname]
        exact Option.mem_toList.2 hu
    · rw [if_neg hk] at hnext
      rw [List.filter_cons_of_pos (by simp [hk]), takeAll, takeAll]
      cases htake : s.take ctx t with
      | error e => exact .refl _
      | ok s' =>
        rw [htake] at hnext
        exact ih s' ((policy_take htake).trans hpolicy) hnext

end ScanState

/-- The tokens that follow comments directly behind names in the arguments of the calls of a source.
The calls are those of the source without its comments. -/
def behindCommentedNames (ctx : ScanContext) (source : String) : List Token :=
  ScanState.behindCommentedNames ctx (.start ctx) (tokenize source).tokens

/-- Under the policy that keeps no comments, a source without its comments is scanned alike, if no
comment stands where its deletion makes another element, and none directly behind a name that goes
on behind it. -/
theorem scan_withoutComments (ctx : ScanContext) (source : String)
    (hpolicy : ctx.options.comments = .none)
    (hfree : ∀ e ∈ commentEdges none source.toList, e.isFree)
    (hnames : ∀ t ∈ behindCommentedNames ctx source, t.continuesName = false) :
    scan ctx (String.ofList (withoutComments source.toList)) = scan ctx source := by
  obtain ⟨hfailure, hmessages, hatEnd⟩ :=
    ScanState.endsAlike_filter ctx (.start ctx) (tokenize source).tokens hpolicy hnames
  simp only [scan, scanWithRemarks, scanTokens, tokenize_withoutComments hfree]
  cases htake : ScanState.takeAll ctx (.start ctx) (tokenize source).tokens with
  | mk s e =>
    cases htake' : ScanState.takeAll ctx (.start ctx)
        ((tokenize source).tokens.filter (·.kind ≠ .comment)) with
    | mk s' e' =>
      rw [htake, htake'] at hfailure hmessages hatEnd
      obtain rfl : e = e' := hfailure
      cases e with
      | some e => rfl
      | none =>
        cases (tokenize source).ending with
        | error e => rfl
        | ok line =>
          dsimp only
          rw [← hatEnd line]
          cases s.failureAtEnd line with
          | some e => rfl
          | none => exact congrArg Except.ok hmessages.symm

/-- Comments of all kinds are passed over: above a call, in the row of its arguments, behind a name
that ends there, inside of nested brackets and behind the call. -/
theorem scan_withoutComments_places :
    scan ⟨{}, "a.py", 0⟩ (String.ofList (withoutComments
        "# above\n_('a', # row\n b # name\n, c[ # nested\n 0]) # behind".toList)) =
      scan ⟨{}, "a.py", 0⟩ "# above\n_('a', # row\n b # name\n, c[ # nested\n 0]) # behind" :=
  scan_withoutComments _ _ rfl (by decide +kernel) (by decide +kernel)

/-- A comment between the name of an argument and its equals sign has the scan refused. -/
theorem scan_withoutComments_ne : ¬∀ (ctx : ScanContext) (source : String),
    ctx.options.comments = .none →
      scan ctx (String.ofList (withoutComments source.toList)) = scan ctx source := by
  intro hall
  have hsame := hall ⟨{}, "a.py", 0⟩ "_('a', default # c\n='x')" rfl
  have hok : (scan ⟨{}, "a.py", 0⟩ "_('a', default # c\n='x')").isOk = false := by decide +kernel
  have hok' : (scan ⟨{}, "a.py", 0⟩ (String.ofList (withoutComments
      "_('a', default # c\n='x')".toList))).isOk := by decide +kernel
  rw [hsame, hok] at hok'
  cases hok'

end PotExtract.Python
