import PotExtract.Proofs.Python.Findings

/-! What a scan refuses does not depend on the texts of string literals, but only on which literals
have a text: with all these texts blank the same token fails, for the same reason. -/

namespace PotExtract.Python

/-- The value with a blank text, if it has a text. -/
def Value.blank : Value → Value
  | .text _ => .text ""
  | v => v

theorem Value.append_blank (v w : Value) : (v.append w).blank = v.blank.append w.blank := by
  cases v <;> cases w <;> rfl

/-- The token with a blank literal, if it is a string. -/
def Token.blank (t : Token) : Token :=
  if t.kind = .string then
    { t with text := if (Literal.decode? t.text).isSome then "''" else "f''" }
  else t

/-- The argument with a blank text. -/
def Argument.blank (a : Argument) : Argument :=
  { a with value := a.value.blank }

/-- The call with blank texts. -/
def Call.blank (c : Call) : Call :=
  { c with arguments := c.arguments.map Argument.blank }

/-- The step with blank texts. -/
def CallStep.blank : CallStep → CallStep
  | .more c => .more c.blank
  | .closed c => .closed c.blank

/-- The mode with blank texts. -/
def ScanMode.blank : ScanMode → ScanMode
  | .inCall c => .inCall c.blank
  | m => m

namespace Token

variable (t : Token)

@[simp] theorem kind_blank : t.blank.kind = t.kind := by
  unfold blank
  split <;> rfl

@[simp] theorem line_blank : t.blank.line = t.line := by
  unfold blank
  split <;> rfl

variable {t}

theorem blank_of_kind_ne (h : t.kind ≠ .string) : t.blank = t :=
  if_neg h

@[simp] theorem isOperator_blank (op : String) : t.blank.isOperator op = t.isOperator op := by
  by_cases h : t.kind = .string
  · simp only [isOperator, kind_blank, h]
    rfl
  · rw [blank_of_kind_ne h]

theorem ofLiteral_blank (h : t.kind = .string) :
    Value.ofLiteral t.blank.text = (Value.ofLiteral t.text).blank := by
  have hsome : Value.ofLiteral "''" = .text "" := by decide +kernel
  have hnone : Value.ofLiteral "f''" = .dynamic := by decide +kernel
  unfold blank
  rw [if_pos h]
  cases hd : Literal.decode? t.text with
  | none => simpa [Value.ofLiteral, Value.blank, hd] using hnone
  | some s => simpa [Value.ofLiteral, Value.blank, hd] using hsome

end Token

namespace Call

variable {c : Call} {t : Token}

theorem addArgument_blank (c : Call) (v : Value) :
    (c.addArgument v).blank = c.blank.addArgument v.blank := by
  simp [addArgument, blank, Argument.blank]

theorem addString_blank (c : Call) (ht : t.kind = .string) :
    (c.addString t.text).blank = c.blank.addString t.blank.text := by
  have hlast : c.blank.arguments.getLast? = c.arguments.getLast?.map Argument.blank := by
    simp [blank]
  unfold addString
  dsimp only
  rw [hlast, Token.ofLiteral_blank ht]
  have hin : c.blank.inString = c.inString := rfl
  rw [hin]
  cases c.inString with
  | false => simp [blank, addArgument, Argument.blank]
  | true =>
    cases hl : c.arguments.getLast? with
    | none => simp [blank, addArgument, Argument.blank]
    | some last => simp [blank, Argument.blank, Value.append_blank]

theorem endName_blank (c : Call) (t : Token) : (c.endName t).blank = c.blank.endName t.blank := by
  unfold endName
  rw [Token.isOperator_blank]
  split
  · rfl
  · exact addArgument_blank _ _

theorem takeOperator_blank (c : Call) (op : String) :
    c.blank.takeOperator op = (c.takeOperator op).map CallStep.blank := by
  unfold takeOperator
  dsimp only
  split
  · rfl
  split
  · have hin : c.blank.inArgument = c.inArgument := rfl
    rw [hin]
    split <;> rfl
  split
  · rfl
  split <;> rfl

theorem takePart_blank (c : Call) (t : Token) :
    c.blank.takePart t.blank = (c.takePart t).map CallStep.blank := by
  by_cases hs : t.kind = .string
  · simp [takePart, hs, Except.map, CallStep.blank, addString_blank c hs]
  rw [Token.blank_of_kind_ne hs]
  unfold takePart
  split
  · exact takeOperator_blank c t.text
  · next hk => exact absurd hk hs
  · have hin : c.blank.inArgument = c.inArgument := rfl
    rw [hin]
    split
    · rfl
    · simp [Except.map, CallStep.blank, addArgument, blank, Argument.blank, Value.blank]
  · rfl
  · rfl

theorem takeNested_blank (c : Call) (opener closer : String) (depth : Nat) (t : Token) :
    c.blank.takeNested opener closer depth t.blank =
      (c.takeNested opener closer depth t).map blank := by
  unfold takeNested
  rw [Token.kind_blank, Token.isOperator_blank, Token.isOperator_blank]
  split
  · rfl
  split
  · rfl
  split
  · split
    · simp [Except.map, addArgument, blank, Argument.blank, Value.blank]
    · rfl
  · rfl

theorem take_blank (c : Call) (t : Token) :
    c.blank.take t.blank = (c.take t).map CallStep.blank := by
  have hphase : c.blank.phase = c.phase := rfl
  have hpending : c.blank.pendingName = c.pendingName := rfl
  unfold take
  simp only [hphase, hpending, Token.line_blank, Token.isOperator_blank]
  split
  · rw [takeNested_blank]
    cases c.takeNested _ _ _ t <;> rfl
  · rw [takePart_blank]
    cases c.takePart t <;> rfl
  split
  · next hopens =>
    have hk : t.kind ≠ .string := by
      intro hk
      simp [Token.isOperator, hk] at hopens
    rw [Token.blank_of_kind_ne hk]
    rfl
  split
  · split <;> rfl
  · rw [← endName_blank, takePart_blank]
    cases (c.endName t).takePart t <;> rfl

theorem positional_blank (c : Call) : c.blank.positional = c.positional.map Value.blank := by
  simp [positional, blank, List.filter_map, Argument.blank, Function.comp_def]

end Call

/-! ### Closed calls -/

theorem textAt_blank (arguments : List Value) (what : String) (position : Nat) :
    textAt (arguments.map Value.blank) what position =
      (textAt arguments what position).map fun _ => "" := by
  unfold textAt
  rw [List.getElem?_map]
  cases arguments[position - 1]? with
  | none => rfl
  | some v => cases v <;> rfl

theorem optionalTextAt_blank (arguments : List Value) (what : String) (position : Option Nat) :
    optionalTextAt (arguments.map Value.blank) what position =
      (optionalTextAt arguments what position).map (Option.map fun _ => "") := by
  cases position with
  | none => rfl
  | some position =>
    simp only [optionalTextAt, textAt_blank]
    cases textAt arguments what position <;> rfl

/-- Whether fields are found, and what is missing, does not depend on the texts. -/
theorem fieldsOf_blank (k : Keyword) (arguments : List Value) :
    (fieldsOf k (arguments.map Value.blank)).map (fun _ => ()) =
      (fieldsOf k arguments).map fun _ => () := by
  simp only [fieldsOf, textAt_blank, optionalTextAt_blank]
  cases optionalTextAt arguments "Domain" k.domain with
  | error e => rfl
  | ok domain =>
    cases textAt arguments "Message" k.msgid with
    | error e => rfl
    | ok id =>
      cases optionalTextAt arguments "Plural message" k.plural with
      | error e => rfl
      | ok plural => cases optionalTextAt arguments "Context" k.context <;> rfl

theorem resolveKeyword_blank (k : Keyword) (c : Call) :
    (resolveKeyword k c.blank).map (fun _ => ()) = (resolveKeyword k c).map fun _ => () := by
  have hfields := fieldsOf_blank k c.positional
  unfold resolveKeyword
  dsimp only
  rw [c.positional_blank, List.length_map]
  split
  · rfl
  split
  · rfl
  · revert hfields
    cases fieldsOf k (c.positional.map Value.blank) <;> cases fieldsOf k c.positional <;>
      exact fun h => h

namespace ScanState

variable {ctx : ScanContext} {s s' : ScanState} {t : Token}

theorem resolve_blank (ctx : ScanContext) (c : Call) :
    (resolve ctx c.blank).map (fun _ => ()) = (resolve ctx c).map fun _ => () := by
  have hfunction : c.blank.function = c.function := rfl
  unfold resolve
  rw [hfunction]
  cases ctx.options.keywords.get? c.function with
  | some k => exact resolveKeyword_blank k c
  | none => rfl

/-- The part of a state that decides what the next token is taken for, with blank texts. -/
def blankControl (s : ScanState) : ScanMode × Bool :=
  (s.mode.blank, s.inDefinition)

/-- What closing a call leaves is as before, unless the call is refused. -/
theorem map_control_close (s : ScanState) (c : Call) :
    (s.close ctx c).map control =
      (((resolve ctx c).map fun _ => ()).mapError (ScanFailure.mk · c.line)).map
        fun _ => s.control := by
  unfold close
  cases resolve ctx c with
  | error fault => rfl
  | ok resolution =>
    cases resolution with
    | wrongCount given expected => rfl
    | noMessage => rfl
    | fields r => exact congrArg Except.ok (control_emit s c r)

theorem map_blankControl {ε : Type} (x : Except ε ScanState) :
    x.map blankControl = (x.map control).map fun p => (p.1.blank, p.2) := by
  cases x <;> rfl

theorem close_blank (hs : s'.control = s.blankControl) (c : Call) :
    (s'.close ctx c.blank).map control = (s.close ctx c).map blankControl := by
  have hline : c.blank.line = c.line := rfl
  rw [map_blankControl, map_control_close, map_control_close, resolve_blank, hline, hs]
  cases resolve ctx c <;> rfl

theorem takeInCall_blank (hs : s'.inDefinition = s.inDefinition) (c : Call) (t : Token) :
    (s'.takeInCall ctx c.blank t.blank).map control =
      (s.takeInCall ctx c t).map blankControl := by
  unfold takeInCall
  rw [Call.take_blank]
  cases c.take t with
  | error e => rfl
  | ok step =>
    cases step with
    | more d =>
      exact congrArg (fun inDefinition => Except.ok (ScanMode.inCall d.blank, inDefinition)) hs
    | closed d =>
      apply close_blank
      exact congrArg (Prod.mk ScanMode.outside) hs

/-- Whether a token is a string that could be taken for the start of a definition. -/
def IsPlainString (t : Token) : Prop :=
  t.kind = .string → t.text ≠ "def" ∧ t.text ≠ "class"

theorem startsDefinition_blank (ht : IsPlainString t) :
    (t.blank.text == "def" || t.blank.text == "class") =
      (t.text == "def" || t.text == "class") := by
  by_cases hk : t.kind = .string
  · obtain ⟨hdef, hclass⟩ := ht hk
    have hblank : t.blank.text = "''" ∨ t.blank.text = "f''" := by
      unfold Token.blank
      rw [if_pos hk]
      dsimp only
      split
      · exact .inl rfl
      · exact .inr rfl
    rw [beq_false_of_ne hdef, beq_false_of_ne hclass]
    rcases hblank with h | h <;> rw [h] <;> rfl
  · rw [Token.blank_of_kind_ne hk]

theorem takeSignificant_blank (hs : s'.control = s.blankControl) (ht : IsPlainString t) :
    (s'.takeSignificant ctx t.blank).map control =
      (s.takeSignificant ctx t).map blankControl := by
  obtain ⟨hmode, -⟩ := Prod.mk.inj hs
  unfold takeSignificant
  dsimp only
  rw [hmode, startsDefinition_blank ht, Token.isOperator_blank]
  cases s.mode with
  | outside => rfl
  | named function line =>
    refine congrArg Except.ok (Prod.ext ?_ rfl)
    show (if _ then _ else _) = ScanMode.blank (if _ then _ else _)
    split <;> rfl
  | inCall c =>
    apply takeInCall_blank
    rfl

theorem isNested_blank (hs : s'.control = s.blankControl) : s'.isNested = s.isNested := by
  obtain ⟨hmode, -⟩ := Prod.mk.inj hs
  unfold isNested
  rw [hmode]
  cases s.mode <;> rfl

theorem settleName_blank (hs : s'.control = s.blankControl) (t : Token) :
    (s'.settleName t.blank).control = (s.settleName t).blankControl := by
  obtain ⟨hmode, hdef⟩ := Prod.mk.inj hs
  unfold settleName
  rw [hmode]
  cases hm : s.mode with
  | outside => exact hs
  | named function line => exact hs
  | inCall c =>
    have hphase : c.blank.phase = c.phase := rfl
    simp only [ScanMode.blank, hphase]
    split
    · exact Prod.ext (congrArg ScanMode.inCall (c.endName_blank t).symm) hdef
    · exact hs

theorem startsCall_blank (hs : s'.control = s.blankControl) (t : Token) :
    s'.startsCall ctx t.blank = s.startsCall ctx t := by
  obtain ⟨-, hdef⟩ := Prod.mk.inj hs
  by_cases hk : t.kind = .string
  · simp only [startsCall, Token.kind_blank, hk]
    rfl
  · simp only [startsCall, Token.blank_of_kind_ne hk, hdef]

theorem outside_blank (hs : s'.control = s.blankControl) :
    s'.mode = .outside ↔ s.mode = .outside := by
  obtain ⟨hmode, -⟩ := Prod.mk.inj hs
  rw [hmode]
  cases s.mode <;> simp [ScanMode.blank]

theorem take_blank (ctx : ScanContext) (hs : s'.control = s.blankControl) (ht : IsPlainString t) :
    (s'.take ctx t.blank).map control = (s.take ctx t).map blankControl := by
  have hlayout : t.blank.isLayout = t.isLayout := by simp [Token.isLayout]
  unfold take
  simp only [isNested_blank hs, Token.kind_blank, hlayout, outside_blank hs, startsCall_blank hs]
  split
  · exact takeSignificant_blank hs ht
  split
  · show Except.ok (control _) = Except.ok (blankControl _)
    rw [control_takeComment, settleName_blank hs]
    have hcontrol := congrArg (fun p : ScanMode × Bool => (p.1.blank, p.2))
      (control_takeComment (s.settleName t) t)
    exact congrArg Except.ok hcontrol.symm
  split
  · exact congrArg Except.ok hs
  split
  · next hstarts =>
    have hk : t.kind ≠ .string := by
      intro hk
      have hname := hstarts.2
      simp [startsCall, hk] at hname
    rw [Token.blank_of_kind_ne hk]
    rfl
  · exact takeSignificant_blank hs ht

/-- With blank texts a row of tokens fails at the same token, for the same reason, or not at all. -/
theorem takeAll_blank (ctx : ScanContext) {ts : List Token} (hs : s'.control = s.blankControl)
    (hts : ∀ t ∈ ts, IsPlainString t) :
    (takeAll ctx s' (ts.map Token.blank)).2 = (takeAll ctx s ts).2 ∧
      (takeAll ctx s' (ts.map Token.blank)).1.control = (takeAll ctx s ts).1.blankControl := by
  induction ts generalizing s s' with
  | nil => exact ⟨rfl, hs⟩
  | cons t ts ih =>
    have ht := take_blank ctx hs (hts t List.mem_cons_self)
    have hrest : ∀ u ∈ ts, IsPlainString u := fun u hu => hts u (List.mem_cons_of_mem t hu)
    simp only [List.map_cons, takeAll]
    cases h : s.take ctx t with
    | error e =>
      cases h' : s'.take ctx t.blank with
      | error e' =>
        rw [h, h'] at ht
        cases ht
        exact ⟨rfl, hs⟩
      | ok u' =>
        rw [h, h'] at ht
        cases ht
    | ok u =>
      cases h' : s'.take ctx t.blank with
      | error e' =>
        rw [h, h'] at ht
        cases ht
      | ok u' =>
        rw [h, h'] at ht
        exact ih (Except.ok.inj ht) hrest

end ScanState

/-- A scan ends in the same failure, or in none, when all texts of literals are blank. -/
theorem scanTokens_blank (ctx : ScanContext) (source : Lexed)
    (h : ∀ t ∈ source.tokens, ScanState.IsPlainString t) :
    (scanTokens ctx ⟨source.tokens.map Token.blank, source.ending⟩).2 =
      (scanTokens ctx source).2 := by
  have hstart : (ScanState.start ctx).control = (ScanState.start ctx).blankControl := rfl
  obtain ⟨hfailure, hcontrol⟩ := ScanState.takeAll_blank ctx hstart h
  unfold scanTokens
  dsimp only
  cases htake : ScanState.takeAll ctx (.start ctx) source.tokens with
  | mk s e =>
    cases htake' : ScanState.takeAll ctx (.start ctx) (source.tokens.map Token.blank) with
    | mk s' e' =>
      rw [htake, htake'] at hfailure hcontrol
      obtain rfl : e' = e := hfailure
      cases e' with
      | some e => rfl
      | none =>
        cases source.ending with
        | error e => rfl
        | ok line =>
          show s'.failureAtEnd line = s.failureAtEnd line
          have hmode : s'.mode = s.mode.blank := (Prod.mk.inj hcontrol).1
          unfold ScanState.failureAtEnd
          rw [hmode, ScanState.isNested_blank hcontrol]
          cases s.mode <;> rfl

end PotExtract.Python
