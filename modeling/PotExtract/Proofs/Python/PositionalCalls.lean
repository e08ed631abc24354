import PotExtract.Proofs.Python.ArgumentValues

/-! Calls of a keyword whose arguments are given by position. The scan of such a call makes of it
what the keyword says: no message, an error, or the message that is written at its positions. -/

namespace PotExtract.Python

/-! ### The arguments -/

/-- Values between commas, with or without a comma behind the last one. -/
inductive ArgumentRow : List Token → List Value → Prop
  | nil : ArgumentRow [] []
  | last {ts : List Token} {v : Value} (h : Denotes ts v) : ArgumentRow ts [v]
  | cons {ts us : List Token} {comma : Token} {v : Value} {vs : List Value} (h : Denotes ts v)
    (hcomma : comma.isOperator ",") (hus : ArgumentRow us vs) :
    ArgumentRow (ts ++ comma :: us) (v :: vs)

theorem ArgumentRow.matched {ts : List Token} {vs : List Value} (h : ArgumentRow ts vs) :
    Matched ts := by
  induction h with
  | nil => exact .nil
  | last h => exact h.matched
  | cons h hcomma _ ih =>
    obtain ⟨ho, hc⟩ := Token.not_bracket_of_isOperator hcomma (by decide)
    exact h.matched.append (.token ho hc ih)

/-- The arguments of a row follow those that the call has. -/
theorem Call.run?_argumentRow {c : Call} {ts : List Token} {vs : List Value}
    (h : ArgumentRow ts vs) (hdedent : ∀ t ∈ ts, t.kind ≠ .dedent) (hp : c.phase = .arguments)
    (hname : c.pendingName = none) (ha : c.inArgument = false) (hs : c.inString = false) :
    ∃ d, c.run? ts = some d ∧ d.phase.isNested = false ∧
      { d.settled with inArgument := false, inString := false } =
        { c with arguments := c.arguments ++ vs.map fun v => ⟨none, v⟩ } := by
  induction h generalizing c with
  | nil =>
    refine ⟨c, rfl, by simp [hp, CallPhase.isNested], ?_⟩
    rw [settled_of_arguments hp]
    cases c
    simp_all
  | last h =>
    obtain ⟨d, hrun, hn, hd⟩ := run?_denotes h hdedent hp hs fun _ _ => ha
    refine ⟨d, hrun, hn, ?_⟩
    have := congrArg (fun e : Call => { e with inArgument := false, inString := false }) hd
    simpa [addArgument, hname, ha, hs] using this
  | @cons ts us comma v vs h hcomma _ ih =>
    obtain ⟨d, hrun, hn, hd⟩ :=
      run?_denotes h (fun t ht => hdedent t (by simp [ht])) hp hs fun _ _ => ha
    have hinside : d.settled.inArgument = true := congrArg Call.inArgument hd
    have hcall : ({ d.settled with inArgument := false, inString := false } : Call) =
        { c with arguments := c.arguments ++ [⟨none, v⟩] } := by
      have := congrArg (fun e : Call => { e with inArgument := false, inString := false }) hd
      simpa [addArgument, hname, ha, hs] using this
    obtain ⟨e, hrun', hn', he⟩ := ih (c := { c with arguments := c.arguments ++ [⟨none, v⟩] })
      (fun t ht => hdedent t (by simp [ht])) hp hname ha hs
    refine ⟨e, ?_, hn', ?_⟩
    · rw [run?_append hrun, run?_cons (step?_comma hn hinside hcomma), hcall, hrun']
    · simpa using he

/-! ### The positions of a keyword -/

/-- The places that a keyword uses, each with the argument that an error names. -/
def places (k : Keyword) : List (String × Nat) :=
  (k.domain.toList.map fun p => ("Domain", p)) ++ [("Message", k.msgid)] ++
    (k.plural.toList.map fun p => ("Plural message", p)) ++
    k.context.toList.map fun p => ("Context", p)

/-- Whether a call has as many arguments as its keyword asks for, and one at each place. -/
def Fits (k : Keyword) (values : List Value) : Prop :=
  (∀ n ∈ k.required, n = values.length) ∧ ∀ place ∈ places k, place.2 ≤ values.length

/-- The argument at a position is a text. -/
def IsTextAt (values : List Value) (position : Nat) (s : String) : Prop :=
  values[position - 1]? = some (.text s)

/-- The fields are the texts at the positions of a keyword. -/
structure AreAt (k : Keyword) (values : List Value) (r : Resolved) : Prop where
  domain : Option.Rel (IsTextAt values) k.domain r.domain
  id : IsTextAt values k.msgid r.id
  pluralId : Option.Rel (IsTextAt values) k.plural r.pluralId
  context : Option.Rel (IsTextAt values) k.context r.context
  comment : r.comment = k.comment

section Resolution

variable {k : Keyword} {values : List Value}

theorem positions_eq (k : Keyword) : positions k = (places k).map Prod.snd := by
  simp [positions, places, Function.comp_def]

theorem textAt_cases (values : List Value) (what : String) (position : Nat) :
    (∃ s, textAt values what position = .ok s ∧ IsTextAt values position s) ∨
      textAt values what position = .error (.notText what) ∧
        ∀ s, ¬IsTextAt values position s := by
  unfold textAt IsTextAt
  split
  · next s h => exact .inl ⟨s, rfl, h⟩
  · next h => exact .inr ⟨rfl, h⟩

theorem optionalTextAt_cases (values : List Value) (what : String) (position : Option Nat) :
    (∃ s, optionalTextAt values what position = .ok s ∧ Option.Rel (IsTextAt values) position s) ∨
      optionalTextAt values what position = .error (.notText what) ∧
        ∃ p ∈ position, ∀ s, ¬IsTextAt values p s := by
  cases position with
  | none => exact .inl ⟨none, rfl, .none⟩
  | some p =>
    rcases textAt_cases values what p with ⟨s, hs, htext⟩ | ⟨herror, htext⟩
    · exact .inl ⟨some s, by simp [optionalTextAt, hs], .some htext⟩
    · exact .inr ⟨by simp [optionalTextAt, herror], p, rfl, htext⟩

/-- A keyword finds a text at each of its positions, or the error names an argument that is none. -/
theorem fieldsOf_cases (k : Keyword) (values : List Value) :
    (∃ r, fieldsOf k values = .ok r ∧ AreAt k values r) ∨
      ∃ place ∈ places k, (∀ s, ¬IsTextAt values place.2 s) ∧
        fieldsOf k values = .error (.notText place.1) := by
  unfold fieldsOf
  rcases optionalTextAt_cases values "Domain" k.domain with ⟨domain, hd, hdomain⟩ | ⟨hd, p, hp, hno⟩
  case inr => exact .inr ⟨("Domain", p), by simp_all [places], hno, by rw [hd]; rfl⟩
  rcases textAt_cases values "Message" k.msgid with ⟨id, hi, hid⟩ | ⟨hi, hno⟩
  case inr => exact .inr ⟨("Message", k.msgid), by simp [places], hno, by rw [hd, hi]; rfl⟩
  rcases optionalTextAt_cases values "Plural message" k.plural with
    ⟨plural, hl, hplural⟩ | ⟨hl, p, hp, hno⟩
  case inr =>
    exact .inr ⟨("Plural message", p), by simp_all [places], hno, by rw [hd, hi, hl]; rfl⟩
  rcases optionalTextAt_cases values "Context" k.context with ⟨context, hc, hcontext⟩ | ⟨hc, p, hp, hno⟩
  case inr => exact .inr ⟨("Context", p), by simp_all [places], hno, by rw [hd, hi, hl, hc]; rfl⟩
  exact .inl ⟨⟨domain, context, id, plural, k.comment⟩, by rw [hd, hi, hl, hc]; rfl,
    hdomain, hid, hplural, hcontext, rfl⟩

theorem AreAt.exists_isTextAt {r : Resolved} (h : AreAt k values r) {place : String × Nat}
    (hplace : place ∈ places k) : ∃ s, IsTextAt values place.2 s := by
  have hoptional {position : Option Nat} {text : Option String} {p : Nat}
      (hrel : Option.Rel (IsTextAt values) position text) (hp : position = some p) :
      ∃ s, IsTextAt values p s := by
    cases hrel with
    | none => cases hp
    | some hs =>
      cases hp
      exact ⟨_, hs⟩
  simp only [places, List.mem_append, List.mem_map, Option.mem_toList, List.mem_singleton] at hplace
  rcases hplace with ((⟨p, hp, rfl⟩ | rfl) | ⟨p, hp, rfl⟩) | ⟨p, hp, rfl⟩
  · exact hoptional h.domain hp
  · exact ⟨_, h.id⟩
  · exact hoptional h.pluralId hp
  · exact hoptional h.context hp

theorem resolveKeyword_of_not_fits {c : Call} (h : ¬Fits k c.positional) :
    resolveKeyword k c = .ok .noMessage ∨
      ∃ n, resolveKeyword k c = .ok (.wrongCount c.positional.length n) := by
  unfold resolveKeyword
  dsimp only
  split
  · exact .inr ⟨_, rfl⟩
  · next hcount =>
    refine .inl (if_pos ?_)
    by_contra hany
    refine h ⟨fun n hn => ?_, fun place hplace => ?_⟩
    · have hn : k.required = some n := hn
      simpa [hn, Option.filter] using hcount
    · rw [positions_eq] at hany
      simp only [List.any_eq_true, List.mem_map, decide_eq_true_eq, not_exists, not_and] at hany
      exact Nat.le_of_not_lt fun hlt => hany place.2 ⟨place, hplace, rfl⟩ hlt

theorem resolveKeyword_of_fits {c : Call} (h : Fits k c.positional) :
    resolveKeyword k c = (fieldsOf k c.positional).map .fields := by
  have hcount : k.required.filter (· != c.positional.length) = none := by
    cases hr : k.required with
    | none => rfl
    | some n => simp [h.1 n hr]
  have hplaces : ¬(positions k).any (c.positional.length < ·) := by
    rw [positions_eq]
    simpa using fun what p hp => h.2 (what, p) hp
  simp only [resolveKeyword, hcount, if_neg hplaces]

end Resolution

/-! ### Functions that are not being defined -/

/-- Whether a token counts for the scan outside of brackets. -/
def Token.isSignificant (t : Token) : Bool :=
  !t.isLayout && t.kind != .comment

/-- Whether the last token that counts is a word that begins a definition. -/
def EndsInDefinition (ts : List Token) : Prop :=
  ∃ t ∈ (ts.filter Token.isSignificant).getLast?, t.text = "def" ∨ t.text = "class"

namespace ScanState

variable {ctx : ScanContext} {s s' : ScanState} {t : Token}

theorem inDefinition_takeSignificant (h : s.takeSignificant ctx t = .ok s') :
    s'.inDefinition = (t.text == "def" || t.text == "class") := by
  unfold takeSignificant at h
  dsimp only at h
  split at h
  · cases h
    rfl
  · cases h
    rfl
  · rcases takeInCall_cases h with ⟨d, -, rfl⟩ | ⟨d, -, hclose⟩
    · rfl
    · exact (Prod.mk.inj (control_close hclose)).2

/-- Nested brackets are only left at a bracket. -/
theorem isSignificant_of_leave (hs : s.isNested) (hs' : s'.isNested = false)
    (h : s.take ctx t = .ok s') : t.isSignificant := by
  have hoperator (hk : t.kind = .operator) : t.isSignificant := by
    simp [Token.isSignificant, Token.isLayout, hk]
  rw [take, if_pos hs] at h
  cases hm : s.mode with
  | inCall c =>
    obtain ⟨opener, closer, depth, hp⟩ := (isNested_iff hm).1 hs
    simp only [takeSignificant, hm] at h
    rcases takeInCall_cases h with ⟨d, hd, rfl⟩ | ⟨d, hd, -⟩
    · cases Call.takes_of_take hd with
      | nested hp' hd' =>
        cases hd' with
        | opens ht => exact hoperator (Token.isOperator_iff.1 ht).1
        | closes ho ht hd => exact hoperator (Token.isOperator_iff.1 ht).1
        | leaves ho ht hd => exact hoperator (Token.isOperator_iff.1 ht).1
        | other ho ht => simp [isNested, hp] at hs'
      | part hp' hstep => simp [hp] at hp'
      | opens hp' ht => simp [hp] at hp'
      | label hp' ht hc => simp [hp] at hp'
      | settles hp' ho he hstep => simp [hp] at hp'
    · exact hoperator (Token.isOperator_iff.1 (Call.take_closed hd).1).1
  | _ => simp [isNested, hm] at hs

/-- Outside of nested brackets, a function is being defined only behind a word that says so. -/
theorem endsInDefinition_take {init : List Token}
    (hs : s.isNested = false → s.inDefinition → EndsInDefinition init)
    (h : s.take ctx t = .ok s') (hn' : s'.isNested = false) (hd : s'.inDefinition) :
    EndsInDefinition (init ++ [t]) := by
  have hlast (ht : t.isSignificant) (h : s.takeSignificant ctx t = .ok s') :
      EndsInDefinition (init ++ [t]) := by
    rw [inDefinition_takeSignificant h] at hd
    exact ⟨t, by simp [ht], by simpa using hd⟩
  have hidle (ht : t.isSignificant = false) (hn : s.isNested = false) (hd : s.inDefinition) :
      EndsInDefinition (init ++ [t]) := by
    simpa [EndsInDefinition, List.filter_append, ht] using hs hn hd
  by_cases hn : s.isNested
  · have ht := isSignificant_of_leave hn hn' h
    rw [take, if_pos hn] at h
    exact hlast ht h
  have hn : s.isNested = false := by simpa using hn
  simp only [take, hn, Bool.false_eq_true, if_false] at h
  split at h
  · next hk =>
    cases h
    refine hidle (by simp [Token.isSignificant, hk]) hn ?_
    have hcontrol := (Prod.mk.inj (control_takeComment (s.settleName t) t)).2
    rw [hcontrol] at hd
    unfold settleName at hd
    split at hd
    · split at hd <;> exact hd
    · exact hd
  next hk =>
  split at h
  · next hl =>
    cases h
    exact hidle (by simp [Token.isSignificant, hl]) hn hd
  next hl =>
  split at h
  · cases h
    cases hd
  · exact hlast (by simp [Token.isSignificant, hl, hk]) h

theorem endsInDefinition_takeAll {init ts : List Token}
    (hs : s.isNested = false → s.inDefinition → EndsInDefinition init)
    (h : takeAll ctx s ts = (s', none)) (hn' : s'.isNested = false) (hd : s'.inDefinition) :
    EndsInDefinition (init ++ ts) := by
  induction ts generalizing s init with
  | nil =>
    cases h
    rw [List.append_nil]
    exact hs hn' hd
  | cons t ts ih =>
    cases ht : s.take ctx t with
    | error e => simp [takeAll, ht] at h
    | ok s₁ =>
      rw [takeAll_cons ht] at h
      rw [show init ++ t :: ts = init ++ [t] ++ ts by simp]
      exact ih (fun hn hd => endsInDefinition_take hs ht hn hd) h

/-- The state behind the parenthesis that follows the name of a function. -/
theorem take_parenthesis {function : String} {line : Nat} (hs : s.mode = .named function line)
    (ht : t.isOperator "(") :
    s.take ctx t = .ok { s with mode := .inCall { function, line }, inDefinition := false } := by
  obtain ⟨hk, htext⟩ := Token.isOperator_iff.1 ht
  simp [take, isNested, hs, hk, htext, Token.isLayout, takeSignificant, ht]

theorem messages_emit (s : ScanState) (c : Call) (r : Resolved) :
    (s.emit ctx c r).messages = s.messages ++
      if r.id.isEmpty ∨ ctx.wants r = false then []
      else [messageOf ctx s.comments c.line r] := by
  have hwants : (messageOf ctx s.comments c.line r).matchesDomain ctx.options.domain =
      ctx.wants r := rfl
  unfold emit
  by_cases hid : r.id.isEmpty
  · simp [hid, remark]
  · by_cases hw : ctx.wants r
    · simp [hid, hw, hwants]
    · simp [hid, hw, hwants]

end ScanState

/-! ### The call -/

/-- A call of a keyword in a source whose arguments are given by position. It does not stand behind a
word that begins a definition. -/
structure PositionalCall (ctx : ScanContext) (source : String) where
  keyword : Keyword
  values : List Value
  before : List Token
  function : Token
  gap : List Token
  opening : Token
  body : List Token
  closing : Token
  after : List Token
  entry : ScanState
  tokens_eq : (tokenize source).tokens =
    before ++ (function :: (gap ++ opening :: body) ++ closing :: after)
  takeAll_before : ScanState.takeAll ctx (.start ctx) before = (entry, none)
  not_endsInDefinition : ¬EndsInDefinition before
  kind_function : function.kind = .name
  get?_function : ctx.options.keywords.get? function.text = some keyword
  isLayout_gap : ∀ t ∈ gap, t.isLayout
  isOperator_opening : opening.isOperator "("
  arguments : ArgumentRow (body.filter fun t => !t.isLayout) values
  isOperator_closing : closing.isOperator ")"

namespace PositionalCall

variable {ctx : ScanContext} {source : String} (k : PositionalCall ctx source)

/-- The tokens of the call in front of its closing parenthesis. -/
def front : List Token :=
  k.function :: (k.gap ++ k.opening :: k.body)

/-- The call behind its opening parenthesis. -/
def opened : Call :=
  { function := k.function.text, line := k.function.line }

/-- The scan of the source comes out of the call in this state. -/
def LeadsTo (exit : ScanState) : Prop :=
  ScanState.takeAll ctx (.start ctx) (k.before ++ (k.front ++ [k.closing])) = (exit, none) ∧
    exit.mode = .outside

/-- The call is resolved by its keyword: it gives no message unless its arguments fit, fails on the
line of the call if one of the places holds no text, and gives otherwise the message with the texts at
the places, if there is an id and the domain is wanted. -/
structure Resolves : Prop where
  misfit : ¬Fits k.keyword k.values →
    ∃ exit, k.LeadsTo exit ∧ exit.messages = k.entry.messages
  notText : Fits k.keyword k.values →
    (∃ place ∈ places k.keyword, ∀ s, ¬IsTextAt k.values place.2 s) →
    ∃ place ∈ places k.keyword, (∀ s, ¬IsTextAt k.values place.2 s) ∧
      scan ctx source = .error ⟨.notText place.1, ctx.offset + k.function.line⟩
  texts : Fits k.keyword k.values →
    (∀ place ∈ places k.keyword, ∃ s, IsTextAt k.values place.2 s) →
    ∃ r exit, AreAt k.keyword k.values r ∧ k.LeadsTo exit ∧
      exit.messages = k.entry.messages ++
        if r.id.isEmpty ∨ ctx.wants r = false then []
        else [ScanState.messageOf ctx k.entry.comments k.function.line r]

theorem tokens_eq_append :
    (tokenize source).tokens = k.before ++ (k.front ++ [k.closing]) ++ k.after := by
  simpa [front] using k.tokens_eq

theorem inDefinition_entry (hmode : k.entry.mode = .outside) : k.entry.inDefinition = false := by
  by_contra hd
  apply k.not_endsInDefinition
  show EndsInDefinition ([] ++ k.before)
  refine ScanState.endsInDefinition_takeAll ?_ k.takeAll_before ?_ (by simpa using hd)
  · intro _ hstart
    cases hstart
  · simp [ScanState.isNested, hmode]

/-- The indentation does not change between the parentheses. -/
theorem not_dedent : ∀ t ∈ k.body, t.kind ≠ .dedent := by
  have htokens : (tokenize source).tokens =
      (k.before ++ k.function :: (k.gap ++ [k.opening])) ++ (k.body ++ k.closing :: k.after) := by
    simpa using k.tokens_eq
  refine not_dedent_of_matched htokens ?_ k.arguments.matched
  have hopener : k.opening.isOpener := Token.isOpener_of_isOperator k.isOperator_opening (by decide)
  rw [show k.before ++ k.function :: (k.gap ++ [k.opening]) =
    (k.before ++ k.function :: k.gap) ++ [k.opening] by simp, depthBehind_append]
  simp only [depthBehind, List.foldl_cons, List.foldl_nil, Token.depthBehind_opener hopener]
  omega

/-- In front of the closing parenthesis the call is open and has the arguments that are written. -/
theorem exists_takeAll_front (hmode : k.entry.mode = .outside) :
    ∃ c inDefinition, ScanState.takeAll ctx (.start ctx) (k.before ++ k.front) =
        ({ k.entry with mode := .inCall c, inDefinition := inDefinition }, none) ∧
      c.phase.isNested = false ∧
      { c.settled with inArgument := false, inString := false } =
        { k.opened with arguments := k.values.map fun v => ⟨none, v⟩ } := by
  have hcontains : ctx.options.keywords.contains k.function.text := by
    simp [Keywords.contains, k.get?_function]
  let named : ScanState :=
    { k.entry with mode := .named k.function.text k.function.line, inDefinition := false }
  let inside : ScanState := { k.entry with mode := .inCall k.opened, inDefinition := false }
  have hname : k.entry.take ctx k.function = .ok named := by
    simp [ScanState.take, ScanState.isNested, hmode, k.kind_function, Token.isLayout,
      ScanState.startsCall, k.inDefinition_entry hmode, hcontains, named]
  have hgap : ScanState.takeAll ctx named k.gap = (named, none) :=
    ScanState.takeAll_layout rfl k.isLayout_gap
  have hopen : named.take ctx k.opening = .ok inside :=
    ScanState.take_parenthesis rfl k.isOperator_opening
  obtain ⟨c, hrun, hn, hc⟩ := Call.run?_argumentRow (c := k.opened) k.arguments
    (fun t ht => k.not_dedent t (List.mem_of_mem_filter ht)) rfl rfl rfl rfl
  rw [Call.run?_filter k.not_dedent] at hrun
  obtain ⟨inDefinition, hbody⟩ := ScanState.takeAll_of_run? ctx (s := inside) rfl hrun
  refine ⟨c, inDefinition, ?_, hn, hc⟩
  rw [ScanState.takeAll_append k.takeAll_before, front, ScanState.takeAll_cons hname,
    ScanState.takeAll_append hgap, ScanState.takeAll_cons hopen, hbody]

/-- A call of a keyword by position is resolved by the keyword, if the scan is outside of any call and
does not wait for the parenthesis of another function. A name that is not followed by one takes the
function of the call with it, whose parenthesis opens no call then. -/
theorem resolves (k : PositionalCall ctx source) :
    (k.entry.mode = .outside → k.Resolves) ∧
      ∀ name line, k.entry.mode = .named name line →
        ∃ exit, ScanState.takeAll ctx (.start ctx)
            (k.before ++ k.function :: (k.gap ++ [k.opening])) = (exit, none) ∧
          exit.mode = .outside ∧ exit.messages = k.entry.messages := by
  refine ⟨fun hmode => ?_, fun name line hmode => ?_⟩
  · obtain ⟨c, inDefinition, htake, hn, hc⟩ := k.exists_takeAll_front hmode
    let closed : Call := { c.settled with inString := false }
    let exit : ScanState := { k.entry with mode := .outside, inDefinition := false }
    have hpositional : closed.positional = k.values := by
      have harguments : closed.arguments = k.values.map fun v => ⟨none, v⟩ :=
        congrArg Call.arguments hc
      simp [Call.positional, harguments, List.filter_map, Function.comp_def]
    have hline : closed.line = k.function.line := congrArg Call.line hc
    have hresolve : ScanState.resolve ctx closed = resolveKeyword k.keyword closed := by
      have hfunction : closed.function = k.function.text := congrArg Call.function hc
      simp only [ScanState.resolve, hfunction, k.get?_function]
    let body : ScanState := { k.entry with mode := .inCall c, inDefinition := inDefinition }
    have hclose : ScanState.takeAll ctx (.start ctx) (k.before ++ (k.front ++ [k.closing])) =
        ScanState.takeAll ctx body [k.closing] := by
      rw [← List.append_assoc, ScanState.takeAll_append htake]
    have hclosing : body.take ctx k.closing = exit.close ctx closed :=
      ScanState.take_close rfl hn k.isOperator_closing
    refine ⟨fun hfits => ?_, fun hfits hno => ?_, fun hfits htexts => ?_⟩
    · rw [← hpositional] at hfits
      rcases resolveKeyword_of_not_fits hfits with hr | ⟨n, hr⟩
      · rw [ScanState.close, hresolve, hr] at hclosing
        exact ⟨_, ⟨hclose.trans (ScanState.takeAll_singleton hclosing), rfl⟩, rfl⟩
      · rw [ScanState.close, hresolve, hr] at hclosing
        exact ⟨_, ⟨hclose.trans (ScanState.takeAll_singleton hclosing), rfl⟩, rfl⟩
    · rw [resolveKeyword_of_fits (hpositional ▸ hfits), hpositional] at hresolve
      rcases fieldsOf_cases k.keyword k.values with ⟨r, -, hat⟩ | ⟨place, hplace, htext, hr⟩
      · obtain ⟨place, hplace, htext⟩ := hno
        obtain ⟨s, hs⟩ := hat.exists_isTextAt hplace
        exact absurd hs (htext s)
      · rw [ScanState.close, hresolve, hr] at hclosing
        refine ⟨place, hplace, htext, ?_⟩
        have hfailure := ScanState.takeAll_append_of_failure
          (hclose.trans (ScanState.takeAll_singleton_error hclosing)) k.after
        rw [← k.tokens_eq_append, hline] at hfailure
        exact scan_of_failure hfailure
    · rw [resolveKeyword_of_fits (hpositional ▸ hfits), hpositional] at hresolve
      rcases fieldsOf_cases k.keyword k.values with ⟨r, hr, hat⟩ | ⟨place, hplace, hno, -⟩
      · rw [ScanState.close, hresolve, hr] at hclosing
        refine ⟨r, _, hat, ⟨hclose.trans (ScanState.takeAll_singleton hclosing), ?_⟩, ?_⟩
        · exact (Prod.mk.inj (ScanState.control_emit exit closed r)).1
        · rw [ScanState.messages_emit, hline]
      · obtain ⟨s, hs⟩ := htexts place hplace
        exact absurd hs (hno s)
  · let exit : ScanState :=
      { k.entry with
        mode := .outside
        inDefinition := k.function.text == "def" || k.function.text == "class" }
    have hname : k.entry.take ctx k.function = .ok exit := by
      simp [ScanState.take, ScanState.isNested, hmode, k.kind_function, Token.isLayout,
        ScanState.takeSignificant, Token.isOperator, exit]
    have hgap : ScanState.takeAll ctx exit k.gap = (exit, none) :=
      ScanState.takeAll_layout rfl k.isLayout_gap
    obtain ⟨hk, htext⟩ := Token.isOperator_iff.1 k.isOperator_opening
    have hopen : exit.take ctx k.opening = .ok { exit with inDefinition := false } := by
      simp [ScanState.take, ScanState.isNested, hk, htext, Token.isLayout, ScanState.startsCall,
        ScanState.takeSignificant, exit]
    refine ⟨{ exit with inDefinition := false }, ?_, rfl, rfl⟩
    rw [ScanState.takeAll_append k.takeAll_before, ScanState.takeAll_cons hname,
      ScanState.takeAll_append hgap]
    exact ScanState.takeAll_singleton hopen

end PositionalCall

/-- Adjacent strings, an attribute that is called and a comma at the end, on lines of their own. -/
def pluralCall : PositionalCall ⟨{}, "a.py", 0⟩ "ngettext('a' 'b',\n'c', x.y([1]),)" where
  keyword := { function := "ngettext", plural := some 2 }
  values := [.text "ab", .text "c", .dynamic]
  before := []
  function := ⟨.name, "ngettext", 1⟩
  gap := []
  opening := ⟨.operator, "(", 1⟩
  body := [⟨.string, "'a'", 1⟩, ⟨.string, "'b'", 1⟩, ⟨.operator, ",", 1⟩, ⟨.lineBreak, "\n", 1⟩,
    ⟨.string, "'c'", 2⟩, ⟨.operator, ",", 2⟩, ⟨.name, "x", 2⟩, ⟨.operator, ".", 2⟩, ⟨.name, "y", 2⟩,
    ⟨.operator, "(", 2⟩, ⟨.operator, "[", 2⟩, ⟨.number, "1", 2⟩, ⟨.operator, "]", 2⟩,
    ⟨.operator, ")", 2⟩, ⟨.operator, ",", 2⟩]
  closing := ⟨.operator, ")", 2⟩
  after := [⟨.newline, "", 2⟩]
  entry := .start ⟨{}, "a.py", 0⟩
  tokens_eq := by decide +kernel
  takeAll_before := rfl
  not_endsInDefinition := by simp [EndsInDefinition]
  kind_function := rfl
  get?_function := by decide +kernel
  isLayout_gap := by simp
  isOperator_opening := rfl
  arguments := by
    have ha : Spells [⟨.string, "'a'", 1⟩] "a" := .one rfl (by decide +kernel)
    have hb : Literal.decode? "'b'" = some "b" := by decide +kernel
    have hab := ha.snoc (t := ⟨.string, "'b'", 1⟩) rfl hb
    rw [show "a" ++ "b" = "ab" by decide] at hab
    have hc : Spells [⟨.string, "'c'", 2⟩] "c" := .one rfl (by decide +kernel)
    have hxy : DottedName [⟨.name, "x", 2⟩, ⟨.operator, ".", 2⟩, ⟨.name, "y", 2⟩] :=
      .cons rfl rfl (.one rfl)
    have hinner := @Matched.group ⟨.operator, "[", 2⟩ ⟨.operator, "]", 2⟩ [⟨.number, "1", 2⟩] []
      rfl rfl (.token rfl rfl .nil) .nil
    have hcall := @Denotes.applied _ _ ⟨.operator, "(", 2⟩ ⟨.operator, ")", 2⟩ hxy (.inl rfl) rfl
      hinner
    exact .cons (.text hab) rfl (.cons (.text hc) rfl (.cons hcall rfl .nil))
  isOperator_closing := rfl

theorem resolves_pluralCall :
    ∃ exit, pluralCall.LeadsTo exit ∧
      exit.messages.map (fun m => (m.id, m.pluralId)) = [("ab", some "c")] := by
  have hfits : Fits pluralCall.keyword pluralCall.values := by
    refine ⟨by simp [pluralCall], ?_⟩
    decide
  have htexts : ∀ place ∈ places pluralCall.keyword, ∃ s, IsTextAt pluralCall.values place.2 s := by
    simp only [places, pluralCall]
    exact List.forall_mem_cons.2 ⟨⟨"ab", rfl⟩, List.forall_mem_cons.2 ⟨⟨"c", rfl⟩, by simp⟩⟩
  obtain ⟨r, exit, hat, hleads, hmessages⟩ :=
    ((PositionalCall.resolves pluralCall).1 rfl).texts hfits htexts
  refine ⟨exit, hleads, ?_⟩
  have hid : r.id = "ab" := by simpa [IsTextAt, pluralCall] using hat.id.symm
  have hplural : r.pluralId = some "c" := by
    cases r with
    | mk domain context id pluralId comment =>
      cases hat.pluralId with
      | some h => simpa [IsTextAt, pluralCall] using h.symm
  have hwants : ScanContext.wants ⟨{}, "a.py", 0⟩ r := rfl
  simp [hmessages, pluralCall, ScanState.start, hid, hwants, ScanState.messageOf, hplural]

theorem not_endsInDefinition_import :
    ¬EndsInDefinition [⟨.name, "from", 1⟩, ⟨.name, "gettext", 1⟩, ⟨.name, "import", 1⟩,
      ⟨.name, "gettext", 1⟩, ⟨.newline, "\n", 1⟩] := by
  simp [EndsInDefinition, Token.isSignificant, Token.isLayout]

/-- An import of the function stands on the line before its call. -/
def callBehindName :
    PositionalCall ⟨{}, "a.py", 0⟩ "from gettext import gettext\ngettext('hello')" where
  keyword := { function := "gettext" }
  values := [.text "hello"]
  before := [⟨.name, "from", 1⟩, ⟨.name, "gettext", 1⟩, ⟨.name, "import", 1⟩, ⟨.name, "gettext", 1⟩,
    ⟨.newline, "\n", 1⟩]
  function := ⟨.name, "gettext", 2⟩
  gap := []
  opening := ⟨.operator, "(", 2⟩
  body := [⟨.string, "'hello'", 2⟩]
  closing := ⟨.operator, ")", 2⟩
  after := [⟨.newline, "", 2⟩]
  entry := { ScanState.start ⟨{}, "a.py", 0⟩ with mode := .named "gettext" 1 }
  tokens_eq := by decide +kernel
  takeAll_before := by decide +kernel
  not_endsInDefinition := not_endsInDefinition_import
  kind_function := rfl
  get?_function := by decide +kernel
  isLayout_gap := by simp
  isOperator_opening := rfl
  arguments := .last (.text (.one rfl (by decide +kernel)))
  isOperator_closing := rfl

theorem not_resolves_callBehindName :
    ¬callBehindName.Resolves ∧
      scan ⟨{}, "a.py", 0⟩ "from gettext import gettext\ngettext('hello')" = .ok [] := by
  refine ⟨fun h => ?_, by decide +kernel⟩
  have hfits : Fits callBehindName.keyword callBehindName.values := by
    refine ⟨by simp [callBehindName], ?_⟩
    decide
  obtain ⟨r, exit, hat, ⟨hexit, -⟩, hmessages⟩ := h.texts hfits (by
    simp only [places, callBehindName]
    exact List.forall_mem_cons.2 ⟨⟨"hello", rfl⟩, by simp⟩)
  have hid : r.id = "hello" := by simpa [IsTextAt, callBehindName] using hat.id.symm
  have hwants : ScanContext.wants ⟨{}, "a.py", 0⟩ r := rfl
  have hnone : (ScanState.takeAll ⟨{}, "a.py", 0⟩ (.start ⟨{}, "a.py", 0⟩) (callBehindName.before ++
      (callBehindName.front ++ [callBehindName.closing]))).1.messages = [] := by decide +kernel
  rw [hexit, hmessages] at hnone
  simp [hid, hwants] at hnone

end PotExtract.Python
