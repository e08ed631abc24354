import PotExtract.Proofs.Python.CallSteps
import PotExtract.Proofs.Python.Scanning

/-! What a scan finds in a source: comments, and calls with the fields of a message. The findings
depend on the keywords alone. The wanted domain and the kept comments only decide which messages
come of them, and what is noted on these. -/

namespace PotExtract.Python

/-- A comment outside of nested brackets, or a closed call whose message has an id. -/
inductive Finding where
  | comment (text : String) (line : Nat)
  | call (line : Nat) (fields : Resolved)
  deriving DecidableEq, Repr

/-- What has come of the findings so far. -/
structure Ledger where
  comments : CommentCollector
  messages : List Message := []
  lastLine : Option Nat := none

/-- Whether a call is one of those whose messages are wanted in `domain`. -/
def Resolved.isWanted (r : Resolved) (domain : Option String) : Bool :=
  match domain, r.domain with
  | some target, some domain => domain.isEmpty || target == domain
  | _, _ => true

/-- Whether a scan wants the messages of the domain that a call names. -/
def ScanContext.wants (ctx : ScanContext) (r : Resolved) : Bool :=
  r.isWanted ctx.options.domain

namespace Ledger

/-- Enters a finding. -/
def add (ctx : ScanContext) (l : Ledger) : Finding → Ledger
  | .comment text line =>
    match l.comments.collect text line l.lastLine with
    | (comments, some (.previous note)) =>
      { l with
        comments := comments
        messages := l.messages.modify (l.messages.length - 1) (ScanState.annotate note) }
    | (comments, _) => { l with comments := comments }
  | .call line r =>
    if ctx.wants r then
      { l with
        messages := l.messages ++ [ScanState.messageOf ctx l.comments line r]
        lastLine := some line }
    else l

end Ledger

variable {ctx : ScanContext}

namespace ScanState

variable {s s' : ScanState} {t : Token}

/-- The ledger of a scan. -/
def ledger (s : ScanState) : Ledger :=
  { comments := s.comments, messages := s.messages, lastLine := s.lastLine }

/-- What a closed call adds to the findings. -/
def callFinding? (ctx : ScanContext) (c : Call) : Option Finding :=
  match resolve ctx c with
  | .ok (.fields r) => if r.id.isEmpty then none else some (.call c.line r)
  | _ => none

/-- What a token adds to the findings. -/
def finding? (ctx : ScanContext) (s : ScanState) (t : Token) : Option Finding :=
  if s.isNested then none
  else if t.kind = .comment then some (.comment t.text t.line)
  else
    match s.mode with
    | .inCall c =>
      match c.take t with
      | .ok (.closed c) => callFinding? ctx c
      | _ => none
    | _ => none

/-- The findings in tokens, up to the first that is not understood. -/
def findings (ctx : ScanContext) : ScanState → List Token → List Finding
  | _, [] => []
  | s, t :: ts =>
    match s.take ctx t with
    | .ok s' => (s.finding? ctx t).toList ++ findings ctx s' ts
    | .error _ => []

/-! ### A scan enters its findings -/

theorem ledger_settleName (s : ScanState) (t : Token) : (s.settleName t).ledger = s.ledger := by
  unfold settleName
  split
  · split <;> rfl
  · rfl

theorem ledger_takeComment (ctx : ScanContext) (s : ScanState) (t : Token) :
    (s.takeComment t).ledger = s.ledger.add ctx (.comment t.text t.line) := by
  unfold takeComment Ledger.add
  dsimp only [ledger]
  split <;> simp_all

theorem ledger_emit (s : ScanState) (c : Call) (r : Resolved) :
    (s.emit ctx c r).ledger =
      if r.id.isEmpty then s.ledger else s.ledger.add ctx (.call c.line r) := by
  unfold emit
  by_cases hid : r.id.isEmpty
  · rw [if_pos hid, if_pos hid]
    rfl
  · rw [if_neg hid, if_neg hid]
    show (if ctx.wants r then _ else s).ledger = if _ then _ else _
    split <;> rfl

theorem ledger_close {c : Call} (h : s.close ctx c = .ok s') :
    s'.ledger = (callFinding? ctx c).toList.foldl (Ledger.add ctx) s.ledger := by
  unfold close at h
  unfold callFinding?
  cases hr : resolve ctx c with
  | error fault =>
    rw [hr] at h
    cases h
  | ok resolution =>
    rw [hr] at h
    cases resolution with
    | wrongCount given expected =>
      cases h
      rfl
    | noMessage =>
      cases h
      rfl
    | fields r =>
      cases h
      rw [ledger_emit]
      by_cases hid : r.id.isEmpty
      · simp [hid]
      · simp [hid]

end ScanState

namespace ScanState

variable {s s' : ScanState} {t : Token}

theorem isNested_iff {c : Call} (h : s.mode = .inCall c) :
    s.isNested = true ↔ ∃ opener closer depth, c.phase = .nested opener closer depth := by
  simp only [isNested, h]
  cases c.phase <;> simp

/-- A token goes to an open call, and what follows is up to the call. -/
theorem takeInCall_cases {c : Call} (h : s.takeInCall ctx c t = .ok s') :
    (∃ d, c.take t = .ok (.more d) ∧ s' = { s with mode := .inCall d }) ∨
      ∃ d, c.take t = .ok (.closed d) ∧
        ({ s with mode := .outside } : ScanState).close ctx d = .ok s' := by
  obtain ⟨step, hstep, h⟩ := bind_eq_ok.1 h
  cases step with
  | more d => exact .inl ⟨d, hstep, (pure_eq_ok.1 h).symm⟩
  | closed d => exact .inr ⟨d, hstep, h⟩

theorem ledger_takeSignificant (hnested : s.isNested = false → t.kind ≠ .comment)
    (h : s.takeSignificant ctx t = .ok s') :
    s'.ledger = (s.finding? ctx t).toList.foldl (Ledger.add ctx) s.ledger := by
  unfold takeSignificant at h
  dsimp only at h
  cases hm : s.mode with
  | outside =>
    rw [hm] at h
    cases h
    have : s.isNested = false := by simp [isNested, hm]
    simp [finding?, this, hnested this, hm]
    rfl
  | named function line =>
    rw [hm] at h
    cases h
    have : s.isNested = false := by simp [isNested, hm]
    simp [finding?, this, hnested this, hm]
    rfl
  | inCall c =>
    rw [hm] at h
    rcases takeInCall_cases h with ⟨d, hd, rfl⟩ | ⟨d, hd, h⟩
    · have : s.finding? ctx t = none := by
        unfold finding?
        split
        · rfl
        · next hn =>
          rw [if_neg (hnested (by simpa using hn))]
          simp [hm, hd]
      rw [this]
      rfl
    · have hn : s.isNested = false := by
        rw [Bool.eq_false_iff, Ne, isNested_iff hm]
        rintro ⟨opener, closer, depth, hp⟩
        obtain ⟨-, ⟨hp', -⟩ | ⟨_, _, hp', -⟩⟩ := Call.take_closed hd <;> simp [hp] at hp'
      have : s.finding? ctx t = callFinding? ctx d := by
        simp [finding?, hn, hnested hn, hm, hd]
      rw [this, ledger_close h]
      rfl

/-- Each token enters what it adds to the findings. -/
theorem ledger_take (h : s.take ctx t = .ok s') :
    s'.ledger = (s.finding? ctx t).toList.foldl (Ledger.add ctx) s.ledger := by
  unfold take at h
  split at h
  · next hn => exact ledger_takeSignificant (by simp [hn]) h
  next hn =>
  have hn : s.isNested = false := by simpa using hn
  split at h
  · next hk =>
    cases h
    rw [ledger_takeComment ctx, ledger_settleName]
    simp [finding?, hn, hk]
  next hk =>
  split at h
  · next hl =>
    cases h
    have : s.finding? ctx t = none := by
      simp only [finding?, hn, hk, if_false, Bool.false_eq_true]
      split
      · split
        · next hd =>
          have hoperator := (Token.isOperator_iff.1 (Call.take_closed hd).1).1
          simp [Token.isLayout, hoperator] at hl
        · rfl
      · rfl
    rw [this]
    rfl
  split at h
  · next hs =>
    cases h
    simp [finding?, hn, hk, hs.1]
    rfl
  · exact ledger_takeSignificant (fun _ => hk) h

/-- A scan of tokens enters its findings in order. -/
theorem ledger_takeAll (ctx : ScanContext) (s : ScanState) (ts : List Token) :
    (takeAll ctx s ts).1.ledger = (findings ctx s ts).foldl (Ledger.add ctx) s.ledger := by
  induction ts generalizing s with
  | nil => rfl
  | cons t ts ih =>
    cases ht : s.take ctx t with
    | error e => simp [takeAll, findings, ht]
    | ok s₁ =>
      simp only [takeAll, findings, ht, List.foldl_append]
      rw [ih, ledger_take ht]

/-! ### The findings depend on the keywords alone -/

/-- The part of a state that decides what the next token is taken for. -/
def control (s : ScanState) : ScanMode × Bool :=
  (s.mode, s.inDefinition)

theorem control_takeComment (s : ScanState) (t : Token) : (s.takeComment t).control = s.control := by
  unfold takeComment
  split <;> rfl

theorem control_emit (s : ScanState) (c : Call) (r : Resolved) :
    (s.emit ctx c r).control = s.control := by
  unfold emit
  split
  · rfl
  · dsimp only
    split <;> rfl

variable {ctx' : ScanContext}

theorem control_close {c : Call} (h : s.close ctx c = .ok s') : s'.control = s.control := by
  unfold close at h
  split at h
  · cases h
  · cases h
    rfl
  · cases h
    rfl
  · cases h
    exact control_emit s c _

theorem resolve_congr (hk : ctx.options.keywords = ctx'.options.keywords) :
    resolve ctx = resolve ctx' := by
  funext c
  simp only [resolve, hk]

theorem close_congr (hk : ctx.options.keywords = ctx'.options.keywords)
    (hs : s.control = s'.control) (c : Call) :
    (s.close ctx c).map control = (s'.close ctx' c).map control := by
  unfold close
  rw [resolve_congr hk]
  cases resolve ctx' c with
  | error fault => rfl
  | ok resolution =>
    cases resolution with
    | wrongCount given expected => exact congrArg Except.ok hs
    | noMessage => exact congrArg Except.ok hs
    | fields r =>
      show Except.ok (control _) = Except.ok (control _)
      rw [control_emit, control_emit, hs]

theorem takeInCall_congr (hk : ctx.options.keywords = ctx'.options.keywords)
    (hs : s.inDefinition = s'.inDefinition) (c : Call) (t : Token) :
    (s.takeInCall ctx c t).map control = (s'.takeInCall ctx' c t).map control := by
  unfold takeInCall
  cases c.take t with
  | error e => rfl
  | ok step =>
    cases step with
    | more d => exact congrArg (fun inDefinition => Except.ok (ScanMode.inCall d, inDefinition)) hs
    | closed d =>
      apply close_congr hk
      exact congrArg (Prod.mk ScanMode.outside) hs

theorem takeSignificant_congr (hk : ctx.options.keywords = ctx'.options.keywords)
    (hs : s.control = s'.control) (t : Token) :
    (s.takeSignificant ctx t).map control = (s'.takeSignificant ctx' t).map control := by
  obtain ⟨hmode, -⟩ := Prod.mk.inj hs
  unfold takeSignificant
  dsimp only
  rw [← hmode]
  cases s.mode with
  | outside => rfl
  | named function line => rfl
  | inCall c =>
    apply takeInCall_congr hk
    rfl

theorem isNested_congr (hs : s.control = s'.control) : s.isNested = s'.isNested := by
  simp only [isNested, show s.mode = s'.mode from (Prod.mk.inj hs).1]

theorem settleName_congr (hs : s.control = s'.control) (t : Token) :
    (s.settleName t).control = (s'.settleName t).control := by
  obtain ⟨hmode, hdef⟩ := Prod.mk.inj hs
  unfold settleName
  rw [hmode]
  split
  · split
    · exact congrArg (Prod.mk _) hdef
    · exact hs
  · exact hs

/-- Scans with the same keywords take a token for the same, or refuse it alike. -/
theorem take_congr (hk : ctx.options.keywords = ctx'.options.keywords)
    (hs : s.control = s'.control) (t : Token) :
    (s.take ctx t).map control = (s'.take ctx' t).map control := by
  obtain ⟨hmode, hdef⟩ := Prod.mk.inj hs
  have hstarts : s.startsCall ctx t = s'.startsCall ctx' t := by simp only [startsCall, hk, hdef]
  unfold take
  rw [isNested_congr hs, hmode, hstarts]
  split
  · exact takeSignificant_congr hk hs t
  split
  · show Except.ok (control _) = Except.ok (control _)
    rw [control_takeComment, control_takeComment, settleName_congr hs]
  split
  · exact congrArg Except.ok hs
  split
  · rfl
  · exact takeSignificant_congr hk hs t

theorem finding?_congr (hk : ctx.options.keywords = ctx'.options.keywords)
    (hs : s.control = s'.control) (t : Token) : s.finding? ctx t = s'.finding? ctx' t := by
  obtain ⟨hmode, -⟩ := Prod.mk.inj hs
  have hcall : callFinding? ctx = callFinding? ctx' := by
    funext c
    simp only [callFinding?, resolve_congr hk]
  simp only [finding?, isNested_congr hs, hmode, hcall]

theorem findings_congr (hk : ctx.options.keywords = ctx'.options.keywords)
    (hs : s.control = s'.control) (ts : List Token) :
    findings ctx s ts = findings ctx' s' ts ∧ (takeAll ctx s ts).2 = (takeAll ctx' s' ts).2 ∧
      (takeAll ctx s ts).1.control = (takeAll ctx' s' ts).1.control := by
  induction ts generalizing s s' with
  | nil => exact ⟨rfl, rfl, hs⟩
  | cons t ts ih =>
    have ht := take_congr hk hs t
    cases h : s.take ctx t with
    | error e =>
      cases h' : s'.take ctx' t with
      | error e' =>
        rw [h, h'] at ht
        cases ht
        simp [findings, takeAll, h, h', hs]
      | ok u' =>
        rw [h, h'] at ht
        cases ht
    | ok u =>
      cases h' : s'.take ctx' t with
      | error e' =>
        rw [h, h'] at ht
        cases ht
      | ok u' =>
        rw [h, h'] at ht
        obtain ⟨hfindings, herror, hcontrol⟩ := ih (Except.ok.inj ht)
        simp only [findings, takeAll, h, h']
        exact ⟨by rw [finding?_congr hk hs, hfindings], herror, hcontrol⟩

end ScanState

/-- The findings in a source. -/
def findings (ctx : ScanContext) (source : String) : List Finding :=
  ScanState.findings ctx (.start ctx) (tokenize source).tokens

/-- How a scan of a source ends: by the failure that it reports, or with the messages that its
findings come to. -/
theorem scan_eq (ctx : ScanContext) (source : String) :
    scan ctx source =
      match (scanTokens ctx (tokenize source)).2 with
      | some e => .error { e with line := ctx.offset + e.line }
      | none => .ok ((findings ctx source).foldl (Ledger.add ctx)
          { comments := { policy := ctx.options.comments } }).messages := by
  have hledger := ScanState.ledger_takeAll ctx (.start ctx) (tokenize source).tokens
  have hmessages : (scanTokens ctx (tokenize source)).1.messages =
      ((findings ctx source).foldl (Ledger.add ctx)
        { comments := { policy := ctx.options.comments } }).messages := by
    refine Eq.trans ?_ (congrArg Ledger.messages hledger)
    unfold scanTokens
    split
    · next h => rw [h]; rfl
    · next h =>
      rw [h]
      split <;> rfl
  rw [← hmessages]
  unfold scan scanWithRemarks
  cases scanTokens ctx (tokenize source) with
  | mk s e => cases e <;> rfl

/-- Scans with the same keywords end alike. -/
theorem scanTokens_congr {ctx' : ScanContext} (hk : ctx.options.keywords = ctx'.options.keywords)
    (source : Lexed) : (scanTokens ctx source).2 = (scanTokens ctx' source).2 := by
  have hstart : (ScanState.start ctx).control = (ScanState.start ctx').control := rfl
  obtain ⟨-, herror, hcontrol⟩ := ScanState.findings_congr hk hstart source.tokens
  unfold scanTokens
  cases h : ScanState.takeAll ctx (.start ctx) source.tokens with
  | mk s e =>
    cases h' : ScanState.takeAll ctx' (.start ctx') source.tokens with
    | mk s' e' =>
      rw [h, h'] at herror hcontrol
      obtain rfl : e = e' := herror
      obtain ⟨hmode, -⟩ := Prod.mk.inj hcontrol
      cases e with
      | some e => rfl
      | none =>
        cases source.ending with
        | error e => rfl
        | ok line =>
          show s.failureAtEnd line = s'.failureAtEnd line
          have hmode : s.mode = s'.mode := hmode
          simp only [ScanState.failureAtEnd, ScanState.isNested_congr hcontrol, hmode]

end PotExtract.Python
