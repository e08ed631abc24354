import PotExtract.Proofs.Python.ArgumentValues
import PotExtract.Proofs.Python.ContinuedText

/-! Arguments given by name. An argument with a name that no field is taken from changes nothing,
unless its value is a number: behind the name an argument is begun, and no number is taken there. -/

namespace PotExtract.Python

/-- The tokens of an argument given by name, behind a comma if an argument is begun. Layout is left
out. -/
inductive NamedRow : (inArgument : Bool) → List Token → String → Value → Prop
  | first {label equals : Token} {ts : List Token} {v : Value} (hlabel : label.kind = .name)
    (hequals : equals.isOperator "=") (h : Denotes ts v) :
    NamedRow false (label :: equals :: ts) label.text v
  | next {comma label equals : Token} {ts : List Token} {v : Value} (hcomma : comma.isOperator ",")
    (hlabel : label.kind = .name) (hequals : equals.isOperator "=") (h : Denotes ts v) :
    NamedRow true (comma :: label :: equals :: ts) label.text v

theorem NamedRow.matched {inArgument : Bool} {ts : List Token} {name : String} {v : Value}
    (h : NamedRow inArgument ts name v) : Matched ts := by
  have hlabelled {label equals : Token} {ts : List Token} (hlabel : label.kind = .name)
      (hequals : equals.isOperator "=") (h : Matched ts) : Matched (label :: equals :: ts) := by
    obtain ⟨ho, hc⟩ := Token.not_bracket (t := label) (by simp [hlabel])
    obtain ⟨ho', hc'⟩ := Token.not_bracket_of_isOperator hequals (by decide)
    exact .token ho hc (.token ho' hc' h)
  cases h with
  | first hlabel hequals h => exact hlabelled hlabel hequals h.matched
  | next hcomma hlabel hequals h =>
    obtain ⟨ho, hc⟩ := Token.not_bracket_of_isOperator hcomma (by decide)
    exact .token ho hc (hlabelled hlabel hequals h.matched)

/-! ### The last token of an argument -/

theorem Spells.getLast?_kind {ts : List Token} {s : String} (h : Spells ts s) :
    ∃ t ∈ ts.getLast?, t.kind = .string := by
  cases h with
  | one ht hs => exact ⟨_, rfl, ht⟩
  | snoc h ht hs => exact ⟨_, by simp, ht⟩

theorem DottedName.getLast?_kind {ts : List Token} (h : DottedName ts) :
    ∃ t ∈ ts.getLast?, t.kind = .name := by
  induction h with
  | one ht => exact ⟨_, rfl, ht⟩
  | @cons t dot ts ht hdot h ih =>
    obtain ⟨u, hu, hk⟩ := ih
    refine ⟨u, ?_, hk⟩
    cases ts with
    | nil => cases hu
    | cons v vs => simpa using hu

theorem Denotes.getLast?_kind {ts : List Token} {v : Value} (h : Denotes ts v) :
    ∃ t ∈ ts.getLast?, t.kind ≠ .comment := by
  cases h with
  | text h =>
    obtain ⟨t, ht, hk⟩ := h.getLast?_kind
    exact ⟨t, ht, by simp [hk]⟩
  | number ht => exact ⟨_, rfl, by simp [ht]⟩
  | name h =>
    obtain ⟨t, ht, hk⟩ := h.getLast?_kind
    exact ⟨t, ht, by simp [hk]⟩
  | @applied ts inner opener closer h ho hc hinner =>
    exact ⟨closer, by simp [List.getLast?_cons], by simp [(Token.isOperator_iff.1 hc).1]⟩
  | @display inner opener closer ho hc hinner =>
    exact ⟨closer, by simp [List.getLast?_cons], by simp [(Token.isOperator_iff.1 hc).1]⟩

theorem NamedRow.getLast?_kind {inArgument : Bool} {ts : List Token} {name : String} {v : Value}
    (h : NamedRow inArgument ts name v) : ∃ t ∈ ts.getLast?, t.kind ≠ .comment := by
  cases h with
  | first hlabel hequals h =>
    obtain ⟨t, ht, hk⟩ := h.getLast?_kind
    exact ⟨t, by simp_all [List.getLast?_cons], hk⟩
  | next hcomma hlabel hequals h =>
    obtain ⟨t, ht, hk⟩ := h.getLast?_kind
    exact ⟨t, by simp_all [List.getLast?_cons], hk⟩

theorem Denotes.exists_of_number {ts : List Token} {v : Value} (h : Denotes ts v) {written : String}
    (hv : v = .number written) : ∃ t, t.kind = .number ∧ t.text = written ∧ ts = [t] := by
  cases h with
  | number ht =>
    cases hv
    exact ⟨_, ht, rfl, rfl⟩
  | _ => cases hv

/-! ### Taking an argument given by name -/

namespace Call

variable {c d : Call} {t : Token} {ts : List Token} {name : String} {v : Value}

theorem step?_equals {line : Nat} (hp : c.phase = .afterName name line)
    (hname : c.pendingName = none) (ht : t.isOperator "=") :
    c.step? t = some { c with pendingName := some name, phase := .arguments } := by
  refine step?_of_take (Token.isLayout_of_isOperator ht) ?_
  have ho : t.isOperator "(" = false ∧ t.isOperator "[" = false :=
    ⟨Token.isOperator_of_ne ht (by decide), Token.isOperator_of_ne ht (by decide)⟩
  simp [take, hp, ho, ht, hname]

/-- The call in front of the value of an argument given by name. -/
theorem run?_label {label equals : Token} (hlabel : label.kind = .name)
    (hequals : equals.isOperator "=") (hp : c.phase = .arguments) (hname : c.pendingName = none) :
    c.run? [label, equals] =
      some { c with pendingName := some label.text, inArgument := true, inString := false } := by
  let named : Call :=
    { c with
      inArgument := true
      inString := false
      phase := .afterName label.text label.line }
  have hstep : named.step? equals = _ := step?_equals rfl hname hequals
  rw [run?_cons (step?_name hp hlabel), run?_singleton hstep]
  simp [named, hp]

/-- The call in front of the value of an argument given by name, behind the others. -/
theorem exists_run?_label {inArgument : Bool} (h : NamedRow inArgument ts name v)
    (hn : c.phase.isNested = false) (hname : c.settled.pendingName = none)
    (hin : c.settled.inArgument = inArgument) (hp : inArgument = false → c.phase = .arguments) :
    ∃ front value, ts = front ++ value ∧ Denotes value v ∧
      c.run? front = some { c.settled with
        pendingName := some name, inArgument := true, inString := false } := by
  cases h with
  | @first label equals ts v hlabel hequals h =>
    have hp := hp rfl
    rw [settled_of_arguments hp] at hname ⊢
    exact ⟨[label, equals], ts, rfl, h, run?_label hlabel hequals hp hname⟩
  | @next comma label equals ts v hcomma hlabel hequals h =>
    let behind : Call := { c.settled with inArgument := false, inString := false }
    have hrun : behind.run? [label, equals] = _ :=
      run?_label hlabel hequals (phase_settled hn) hname
    exact ⟨[comma, label, equals], ts, rfl, h, by rw [run?_cons (step?_comma hn hin hcomma), hrun]⟩

/-- What a call says of a message, apart from the names that it gives no meaning to. -/
structure Agrees (c d : Call) : Prop where
  function : c.function = d.function
  line : c.line = d.line
  positional : c.positional = d.positional
  named : ∀ name ∈ ["msgid", "default", "context"], c.named? name = d.named? name

theorem Agrees.resolve (h : c.Agrees d) (ctx : ScanContext) :
    ScanState.resolve ctx c = ScanState.resolve ctx d := by
  have hid := h.named "msgid" (by simp)
  have hdefault := h.named "default" (by simp)
  have hcontext := h.named "context" (by simp)
  simp only [ScanState.resolve, h.function, resolveKeyword, resolveUnderscore, h.positional, hid,
    hdefault, hcontext]

/-- Calls that say the same are the same to a scan. -/
theorem Agrees.close (h : c.Agrees d) (s : ScanState) (ctx : ScanContext) :
    s.close ctx c = s.close ctx d := by
  simp only [ScanState.close, h.resolve ctx, ScanState.emit, h.function, h.line]

/-- An argument with another name adds nothing. -/
theorem agrees_of_named (hname : name ∉ ["msgid", "default", "context"])
    (hfunction : d.function = c.function) (hline : d.line = c.line)
    (harguments : d.arguments = c.arguments ++ [⟨some name, v⟩]) : d.Agrees c := by
  refine ⟨hfunction, hline, ?_, fun other hother => ?_⟩
  · simp [positional, harguments]
  · have hne : name ≠ other := fun h => hname (h ▸ hother)
    simp [named?, harguments, hne]

/-- The call behind an argument given by name whose value is no number. -/
theorem exists_run?_named {inArgument : Bool} (h : NamedRow inArgument ts name v)
    (hdedent : ∀ t ∈ ts, t.kind ≠ .dedent) (hn : c.phase.isNested = false)
    (hname : c.settled.pendingName = none) (hin : c.settled.inArgument = inArgument)
    (hp : inArgument = false → c.phase = .arguments) (hv : ∀ written, v ≠ .number written) :
    ∃ d, c.run? ts = some d ∧ d.phase.isNested = false ∧ d.settled.function = c.settled.function ∧
      d.settled.line = c.settled.line ∧
      d.settled.arguments = c.settled.arguments ++ [⟨some name, v⟩] := by
  obtain ⟨front, value, rfl, hvalue, hrun⟩ := exists_run?_label h hn hname hin hp
  let labelled : Call :=
    { c.settled with pendingName := some name, inArgument := true, inString := false }
  obtain ⟨d, hrun', hn', hd⟩ := run?_denotes (c := labelled) hvalue
    (fun t ht => hdedent t (by simp [ht])) (phase_settled hn) rfl
    fun written h => absurd h (hv written)
  have hfunction := congrArg Call.function hd
  have hline := congrArg Call.line hd
  have harguments := congrArg Call.arguments hd
  exact ⟨d, by rw [run?_append hrun, hrun'], hn', hfunction, hline, harguments⟩

end Call

/-! ### The scan of a longer call -/

namespace ScanState

variable {ctx : ScanContext} {s s' : ScanState} {c d : Call} {t : Token} {ts : List Token}

/-- Behind a name with an equals sign no number is taken. -/
theorem take_number (hm : s.mode = .inCall c) (hp : c.phase = .arguments) (hc : c.inArgument)
    (ht : t.kind = .number) : s.take ctx t = .error ⟨.unexpectedNumber t.text, t.line⟩ := by
  have hn : s.isNested = false := by simp [isNested, hm, hp]
  simp [take, hn, ht, Token.isLayout, hm, takeSignificant, takeInCall, Call.take, hp, Call.takePart,
    hc, bind, Except.bind, Except.mapError]

/-- A name begins an argument. -/
def BeginsArguments (s : ScanState) : Prop :=
  ∀ c name line, s.mode = .inCall c → c.phase = .afterName name line → c.inArgument

theorem inArgument_of_takesPart (hp : c.phase = .arguments) (h : c.TakesPart t (.more d))
    {name : String} {line : Nat} (hd : d.phase = .afterName name line) : d.inArgument := by
  have hadd (literal : String) : (c.addString literal).phase = c.phase := by
    unfold Call.addString
    dsimp only
    split <;> rfl
  cases h with
  | comma ht hc => simp [hp] at hd
  | opens ht => simp [Call.enter] at hd
  | dot ht => simp [hp] at hd
  | string ht => simp [hadd, hp] at hd
  | number ht hc => simp [Call.addArgument, hp] at hd
  | name ht => rfl

/-- A call starts in front of its arguments. -/
theorem phase_of_enter (hm : ∀ c, s.mode ≠ .inCall c) (h : s.take ctx t = .ok s')
    (hd : s'.mode = .inCall d) : d.phase = .arguments := by
  have hn : s.isNested = false := by
    unfold isNested
    split
    · next c hc => exact absurd hc (hm c)
    · rfl
  have hsettle : s.settleName t = s := by
    unfold settleName
    split
    · next c hc => exact absurd hc (hm c)
    · rfl
  simp only [take, hn, Bool.false_eq_true, if_false, hsettle] at h
  split at h
  · cases h
    rw [(Prod.mk.inj (control_takeComment s t)).1] at hd
    exact absurd hd (hm d)
  split at h
  · cases h
    exact absurd hd (hm d)
  split at h
  · cases h
    cases hd
  · unfold takeSignificant at h
    dsimp only at h
    split at h
    · next ho =>
      cases h
      simp [ho] at hd
    · cases h
      dsimp only at hd
      split at hd
      · cases hd
        rfl
      · cases hd
    · next c hc => exact absurd hc (hm c)

theorem beginsArguments_take (hs : s.BeginsArguments) (h : s.take ctx t = .ok s') :
    s'.BeginsArguments := by
  intro d name line hd hp
  cases hm : s.mode with
  | inCall c =>
    rcases take_of_inCall hm hd h with ⟨-, ht⟩ | ⟨hn, ⟨-, rfl⟩ | ⟨-, rfl⟩⟩
    · cases Call.takes_of_take ht with
      | nested hp' hd' =>
        cases hd' with
        | opens ht => simp at hp
        | closes ho ht hd => simp at hp
        | leaves ho ht hd => simp [Call.addArgument] at hp
        | other ho ht => simp [hp] at hp'
      | part hp' hstep => exact inArgument_of_takesPart hp' hstep hp
      | opens hp' ht => simp [Call.enter] at hp
      | label hp' ht hc => simp at hp
      | settles hp' ho he hstep => exact inArgument_of_takesPart (Call.phase_endName _ _) hstep hp
    · rw [Call.phase_settled hn] at hp
      cases hp
    · exact hs d name line hm hp
  | outside => exact absurd hp (by simp [phase_of_enter (by simp [hm]) h hd])
  | named function line => exact absurd hp (by simp [phase_of_enter (by simp [hm]) h hd])

theorem beginsArguments_takeAll (hs : s.BeginsArguments) (h : takeAll ctx s ts = (s', none)) :
    s'.BeginsArguments := by
  induction ts generalizing s with
  | nil =>
    cases h
    exact hs
  | cons t ts ih =>
    cases ht : s.take ctx t with
    | error e => simp [takeAll, ht] at h
    | ok s₁ =>
      rw [takeAll_cons ht] at h
      exact ih (beginsArguments_take hs ht) h

end ScanState

/-! ### The text of a longer call -/

/-- A text that ends between the parentheses of a call. No quote in it is stray, and no comment takes
what follows. -/
structure CallFront (ctx : ScanContext) (front : String) where
  state : ScanState
  call : Call
  line : Nat
  ending_eq : (tokenize front).ending = .error ⟨.openBracket, line⟩
  takeAll_eq : ScanState.takeAll ctx (.start ctx) (tokenize front).tokens = (state, none)
  mode_eq : state.mode = .inCall call
  isNested_eq : call.phase.isNested = false
  not_stray : ∀ t ∈ (tokenize front).tokens, t.kind ≠ .stray
  not_comment : ∀ t ∈ (tokenize front).tokens.getLast?, t.kind ≠ .comment

/-- A text that goes on with an argument given by name. -/
structure CallFront.Longer {ctx : ScanContext} {front : String} (k : CallFront ctx front)
    (extra name : String) (value : Value) where
  added : List Token
  line : Nat
  tokens_eq : (tokenize (front ++ extra)).tokens = (tokenize front).tokens ++ added
  ending_eq : (tokenize (front ++ extra)).ending = .error ⟨.openBracket, line⟩
  row : NamedRow k.call.settled.inArgument (added.filter fun t => !t.isLayout) name value
  head : ∀ c ∈ extra.toList.head?, c = ',' ∨ Cursor.isGap c
  not_stray : ∀ t ∈ added, t.kind ≠ .stray

namespace CallFront

variable {ctx : ScanContext} {front extra name : String} {value : Value}

theorem getLast?_filter_kind {added : List Token}
    (h : ∃ t ∈ (added.filter fun t => !t.isLayout).getLast?, t.kind ≠ .comment) :
    ∀ t ∈ added.getLast?, t.kind ≠ .comment := by
  intro t ht hk
  obtain ⟨init, rfl⟩ := List.getLast?_eq_some_iff.1 ht
  obtain ⟨u, hu, hne⟩ := h
  have hl : t.isLayout = false := by simp [Token.isLayout, hk]
  rw [List.filter_append, List.filter_cons_of_pos (by simp [hl])] at hu
  simp only [List.filter_nil, List.getLast?_append, List.getLast?_singleton, Option.some_or,
    Option.mem_some_iff] at hu
  exact hne (hu ▸ hk)

/-- The text in front of the closing parenthesis, and the longer one, are read as they are read on
their own, and what follows the parenthesis is read the same behind both, if the added text takes no
line. -/
theorem exists_tokenize (k : CallFront ctx front) (a : k.Longer extra name value) (rest : String) :
    ∃ c d : Cursor,
      tokenize (front ++ ")" ++ rest) =
        ⟨(tokenize front).tokens ++ ⟨.operator, ")", k.line⟩ :: c.lex.tokens, c.lex.ending⟩ ∧
      tokenize (front ++ extra ++ ")" ++ rest) =
        ⟨(tokenize front).tokens ++ (a.added ++ ⟨.operator, ")", a.line⟩ :: d.lex.tokens),
          d.lex.ending⟩ ∧
      (a.line = k.line → c = d) ∧ ∀ t ∈ a.added, t.kind ≠ .dedent := by
  let start : Cursor := { rest := front.toList }
  obtain ⟨d, hd⟩ := start.exists_endsAt k.ending_eq k.not_stray k.not_comment
  have hextra : ∀ c ∈ extra.toList.head?, Lexeme.standsApart c ∧ c ≠ '\n' := by
    intro c hc
    rcases a.head c hc with rfl | hgap
    · decide
    · simp only [Cursor.isGap, Bool.or_eq_true, beq_iff_eq] at hgap
      rcases hgap with (rfl | rfl) | rfl <;> decide
  -- the added text on its own
  let more : Cursor := { d with rest := extra.toList }
  have hmore := hd.yields extra.toList (fun c hc => (hextra c hc).1) fun h => (hextra _ h).2 rfl
  have hlex : tokenize (front ++ extra) =
      ⟨(tokenize front).tokens ++ more.lex.tokens, more.lex.ending⟩ := by
    simp only [tokenize, String.toList_append]
    exact hmore
  have hadded : a.added = more.lex.tokens := by
    have := a.tokens_eq
    rw [hlex] at this
    exact (List.append_cancel_left this).symm
  have hending : more.lex.ending = .error ⟨.openBracket, a.line⟩ := by
    rw [← a.ending_eq, hlex]
  obtain ⟨e, he⟩ := more.exists_endsAt hending (hadded ▸ a.not_stray)
    (hadded ▸ getLast?_filter_kind a.row.getLast?_kind)
  have hmatched := a.row.matched.depthBehind_of_filter d.depth
  rw [hadded] at hmatched
  have hdepth : e.depth = d.depth := he.depth_eq.trans hmatched.1
  have hindents : e.indents = d.indents :=
    he.indents_eq fun init hinit => Nat.lt_of_lt_of_le hd.depth_pos (hmatched.2 init hinit)
  have htail : ∀ c ∈ (extra.toList ++ ')' :: rest.toList).head?,
      Lexeme.standsApart c ∧ c ≠ '\n' := by
    intro c hc
    cases h : extra.toList with
    | nil =>
      rw [h] at hc
      cases hc
      decide
    | cons c' cs =>
      rw [h] at hc hextra
      exact hextra c hc
  refine ⟨d.behindParenthesis rest.toList, e.behindParenthesis rest.toList, ?_, ?_, ?_, ?_⟩
  · have hyields := hd.yields_parenthesis rest.toList
    simp only [tokenize, String.toList_append, List.append_assoc]
    refine Eq.trans (show Cursor.lex _ = _ from hyields) ?_
    simp [start]
  · have hyields := (hd.yields (extra.toList ++ ')' :: rest.toList)
      (fun c hc => (htail c hc).1) fun h => (htail _ h).2 rfl).trans
        (he.yields_parenthesis rest.toList)
    rw [hadded]
    simp only [tokenize, String.toList_append, List.append_assoc]
    refine Eq.trans (show Cursor.lex _ = _ from hyields) ?_
    simp [start]
  · intro hline
    simp only [Cursor.behindParenthesis, hdepth, hindents, he.line_eq, hd.line_eq, hline]
  · have hdepth : 0 < depthBehind 0 (tokenize front).tokens := hd.depth_eq ▸ hd.depth_pos
    have htokens : (tokenize (front ++ extra)).tokens = (tokenize front).tokens ++ (a.added ++ []) := by
      rw [List.append_nil, a.tokens_eq]
    exact not_dedent_of_matched htokens hdepth a.row.matched

/-- A scan that has taken the front of a call is inside of it. -/
theorem phase_of_inArgument (k : CallFront ctx front) (h : k.call.settled.inArgument = false) :
    k.call.phase = .arguments := by
  have hbegins : k.state.BeginsArguments := by
    refine ScanState.beginsArguments_takeAll ?_ k.takeAll_eq
    intro c name line hm
    cases hm
  cases hp : k.call.phase with
  | arguments => rfl
  | afterName name line =>
    have hin := hbegins k.call name line k.mode_eq hp
    rw [Call.settled_of_afterName hp] at h
    exact absurd hin (by simpa [Call.addArgument] using h)
  | nested opener closer depth => simpa [hp, CallPhase.isNested] using k.isNested_eq

/-- An argument given by a name of no meaning leaves the scan of a call as it is, if its value is no
number and no other name waits for a value: the state behind the call is the same, and if the argument
takes no line of its own, so is the scan as a whole. A number is refused. -/
theorem scan_longer (k : CallFront ctx front) (a : k.Longer extra name value)
    (hname : name ∉ ["msgid", "default", "context"]) (hpending : k.call.settled.pendingName = none)
    (rest : String) :
    ((∀ written, value ≠ .number written) →
      (∀ exit, ScanState.takeAll ctx (.start ctx)
          ((tokenize front).tokens ++ [⟨.operator, ")", k.line⟩]) = (exit, none) →
        ScanState.takeAll ctx (.start ctx)
          ((tokenize (front ++ extra)).tokens ++ [⟨.operator, ")", a.line⟩]) = (exit, none)) ∧
      (a.line = k.line →
        scan ctx (front ++ extra ++ ")" ++ rest) = scan ctx (front ++ ")" ++ rest))) ∧
    ∀ written, value = .number written → ∃ line,
      scan ctx (front ++ extra ++ ")" ++ rest) =
        .error ⟨.unexpectedNumber written, ctx.offset + line⟩ := by
  obtain ⟨c, d, hshort, hlong, hcd, hdedent⟩ := k.exists_tokenize a rest
  have htokens : (tokenize (front ++ extra ++ ")" ++ rest)).tokens =
      (tokenize (front ++ extra)).tokens ++ ⟨.operator, ")", a.line⟩ :: d.lex.tokens := by
    rw [hlong, a.tokens_eq, List.append_assoc]
  have hdedent' : ∀ t ∈ a.added.filter fun t => !t.isLayout, t.kind ≠ .dedent :=
    fun t ht => hdedent t (List.mem_of_mem_filter ht)
  refine ⟨fun hvalue => ?_, fun written hwritten => ?_⟩
  · obtain ⟨e, hrun, hn, hfunction, hline, harguments⟩ := Call.exists_run?_named a.row hdedent'
      k.isNested_eq hpending rfl k.phase_of_inArgument hvalue
    rw [Call.run?_filter hdedent] at hrun
    obtain ⟨inDefinition, hadded⟩ := ScanState.takeAll_of_run? ctx k.mode_eq hrun
    have hall : ScanState.takeAll ctx (.start ctx) (tokenize (front ++ extra)).tokens =
        ({ k.state with mode := .inCall e, inDefinition := inDefinition }, none) := by
      rw [a.tokens_eq, ScanState.takeAll_append k.takeAll_eq, hadded]
    have hagrees : ({ e.settled with inString := false } : Call).Agrees
        { k.call.settled with inString := false } :=
      Call.agrees_of_named hname hfunction hline harguments
    have htake : k.state.take ctx ⟨.operator, ")", k.line⟩ =
        ({ k.state with mode := .inCall e, inDefinition := inDefinition } : ScanState).take ctx
          ⟨.operator, ")", a.line⟩ := by
      rw [ScanState.take_close k.mode_eq k.isNested_eq rfl, ScanState.take_close rfl hn rfl,
        hagrees.close]
    refine ⟨fun exit hexit => ?_, fun hsame => ?_⟩
    · rw [ScanState.takeAll_append k.takeAll_eq] at hexit
      rw [ScanState.takeAll_append hall]
      exact ScanState.takeAll_singleton (htake ▸ ScanState.take_of_takeAll_singleton hexit)
    · refine (scan_congr_of_take k.takeAll_eq hall htake (by rw [hshort]) ?_ ?_).symm
      · rw [htokens, hcd hsame]
      · rw [hshort, hlong, hcd hsame]
  · obtain ⟨label, number, hfilter, hnumber, hrun⟩ := Call.exists_run?_label a.row k.isNested_eq
      hpending rfl k.phase_of_inArgument
    obtain ⟨pre, post, hadded, rfl, hpost⟩ := List.filter_eq_append_iff.1 hfilter
    obtain ⟨t, ht, htext, rfl⟩ := hnumber.exists_of_number hwritten
    obtain ⟨gap, behind, rfl, hgap, -, -⟩ := List.filter_eq_cons_iff.1 hpost
    rw [Call.run?_filter fun u hu => hdedent u (by simp [hadded, hu])] at hrun
    obtain ⟨inDefinition, hpre⟩ := ScanState.takeAll_of_run? ctx k.mode_eq hrun
    let labelled : Call :=
      { k.call.settled with pendingName := some name, inArgument := true, inString := false }
    let state : ScanState :=
      { k.state with mode := .inCall labelled, inDefinition := inDefinition }
    have hphase : labelled.phase = .arguments := Call.phase_settled k.isNested_eq
    have hlayout : ScanState.takeAll ctx state gap = (state, none) :=
      ScanState.takeAll_layout (by simp [ScanState.isNested, state, hphase]) (by simpa using hgap)
    have hrefused : state.take ctx t = .error ⟨.unexpectedNumber t.text, t.line⟩ :=
      ScanState.take_number rfl hphase rfl ht
    refine ⟨t.line, ?_⟩
    have hfailure : ScanState.takeAll ctx (.start ctx)
        (tokenize (front ++ extra ++ ")" ++ rest)).tokens =
          (state, some ⟨.unexpectedNumber written, t.line⟩) := by
      rw [hlong, ScanState.takeAll_append k.takeAll_eq, hadded]
      simp only [List.append_assoc, List.cons_append]
      rw [ScanState.takeAll_append hpre, ScanState.takeAll_append hlayout]
      simp [ScanState.takeAll, hrefused, htext]
    exact scan_of_failure hfailure

end CallFront

/-- A call in front of its closing parenthesis. -/
def openCallOfA : CallFront ⟨{}, "a.py", 0⟩ "_('a'" where
  state :=
    { ScanState.start ⟨{}, "a.py", 0⟩ with
      mode := .inCall
        { function := "_"
          line := 1
          arguments := [⟨none, .text "a"⟩]
          inArgument := true
          inString := true } }
  call :=
    { function := "_"
      line := 1
      arguments := [⟨none, .text "a"⟩]
      inArgument := true
      inString := true }
  line := 1
  ending_eq := by decide +kernel
  takeAll_eq := by decide +kernel
  mode_eq := rfl
  isNested_eq := rfl
  not_stray := by decide +kernel
  not_comment := by decide +kernel

/-- The call goes on with the call of a function under a name. -/
def longerByCall : openCallOfA.Longer ", x=f(1)" "x" .dynamic where
  added := [⟨.operator, ",", 1⟩, ⟨.name, "x", 1⟩, ⟨.operator, "=", 1⟩, ⟨.name, "f", 1⟩,
    ⟨.operator, "(", 1⟩, ⟨.number, "1", 1⟩, ⟨.operator, ")", 1⟩]
  line := 1
  tokens_eq := by decide +kernel
  ending_eq := by decide +kernel
  row := by
    have hf : DottedName [⟨.name, "f", 1⟩] := .one rfl
    have hinner : Matched [⟨.number, "1", 1⟩] := .token rfl rfl .nil
    have hcall := @Denotes.applied _ _ ⟨.operator, "(", 1⟩ ⟨.operator, ")", 1⟩ hf (.inl rfl) rfl hinner
    exact @NamedRow.next ⟨.operator, ",", 1⟩ ⟨.name, "x", 1⟩ ⟨.operator, "=", 1⟩ _ _ rfl rfl rfl hcall
  head := by
    intro c hc
    exact .inl (Option.some.inj hc).symm
  not_stray := by decide +kernel

theorem scan_longerByCall :
    scan ⟨{}, "a.py", 0⟩ "_('a', x=f(1))\n" = scan ⟨{}, "a.py", 0⟩ "_('a')\n" :=
  ((openCallOfA.scan_longer longerByCall (by decide) rfl "\n").1 (by simp)).2 rfl

/-- A number is refused behind a name. -/
theorem scan_number_behind_name :
    (scan ⟨{}, "a.py", 0⟩ "_('a')").toOption.map (·.map Message.id) = some ["a"] ∧
      scan ⟨{}, "a.py", 0⟩ "_('a', x=5)" = .error ⟨.unexpectedNumber "5", 1⟩ := by
  decide +kernel

end PotExtract.Python
