import PotExtract.Proofs.Outcome
import PotExtract.Python.Call

/-! What a token does to an open call: the rules by which it is taken, each with the guard under
which it applies. -/

namespace PotExtract.Python

theorem Token.isOperator_iff {t : Token} {op : String} :
    t.isOperator op ↔ t.kind = .operator ∧ t.text = op := by
  simp [isOperator]

namespace Call

variable {c d : Call} {t : Token} {step : CallStep}

/-- The rules for a token that is a part of the arguments. -/
inductive TakesPart (c : Call) (t : Token) : CallStep → Prop
  | closes (ht : t.isOperator ")") : TakesPart c t (.closed { c with inString := false })
  | comma (ht : t.isOperator ",") (hc : c.inArgument) :
    TakesPart c t (.more { c with inArgument := false, inString := false })
  | opens (ht : t.isOperator "(" ∨ t.isOperator "[" ∨ t.isOperator "\x7b") :
    TakesPart c t (.more ({ c with inArgument := true, inString := false }.enter t.text))
  | dot (ht : t.isOperator ".") : TakesPart c t (.more { c with inString := false })
  | string (ht : t.kind = .string) : TakesPart c t (.more (c.addString t.text))
  | number (ht : t.kind = .number) (hc : c.inArgument = false) :
    TakesPart c t (.more
      { c.addArgument (.number t.text) with inArgument := true, inString := false })
  | name (ht : t.kind = .name) :
    TakesPart c t (.more
      { c with inArgument := true, inString := false, phase := .afterName t.text t.line })

/-- The rules for a token inside of nested brackets. -/
inductive TakesNested (c : Call) (opener closer : String) (depth : Nat) (t : Token) : Call → Prop
  | opens (ht : t.isOperator opener) :
    TakesNested c opener closer depth t { c with phase := .nested opener closer (depth + 1) }
  | closes (ho : t.isOperator opener = false) (ht : t.isOperator closer) (hd : 1 < depth) :
    TakesNested c opener closer depth t { c with phase := .nested opener closer (depth - 1) }
  | leaves (ho : t.isOperator opener = false) (ht : t.isOperator closer) (hd : depth ≤ 1) :
    TakesNested c opener closer depth t ({ c with phase := .arguments }.addArgument .dynamic)
  | other (ho : t.isOperator opener = false) (ht : t.isOperator closer = false) :
    TakesNested c opener closer depth t c

/-- The rules for a token, by what the tokens of the call are read as. -/
inductive Takes (c : Call) (t : Token) : CallStep → Prop
  | nested {opener closer : String} {depth : Nat} {d : Call}
    (hp : c.phase = .nested opener closer depth) (hd : c.TakesNested opener closer depth t d) :
    Takes c t (.more d)
  | part {step : CallStep} (hp : c.phase = .arguments) (hstep : c.TakesPart t step) : Takes c t step
  | opens {name : String} {line : Nat} (hp : c.phase = .afterName name line)
    (ht : t.isOperator "(" ∨ t.isOperator "[") : Takes c t (.more (c.enter t.text))
  | label {name : String} {line : Nat} (hp : c.phase = .afterName name line)
    (ht : t.isOperator "=") (hc : c.pendingName = none) :
    Takes c t (.more { c with pendingName := some name, phase := .arguments })
  | settles {name : String} {line : Nat} {step : CallStep} (hp : c.phase = .afterName name line)
    (ho : t.isOperator "(" = false ∧ t.isOperator "[" = false) (he : t.isOperator "=" = false)
    (hstep : (c.endName t).TakesPart t step) : Takes c t step

theorem takesPart_of_takePart (h : c.takePart t = .ok step) : c.TakesPart t step := by
  unfold takePart at h
  split at h
  · next hk =>
    have isOperator {op : String} (hop : t.text = op) : t.isOperator op :=
      Token.isOperator_iff.2 ⟨hk, hop⟩
    unfold takeOperator at h
    dsimp only at h
    split at h
    · next hop =>
      cases h
      exact .closes (isOperator hop)
    split at h
    · next hop =>
      split at h
      · next hc =>
        cases h
        exact .comma (isOperator hop) hc
      · cases h
    split at h
    · next hop =>
      cases h
      exact .opens (hop.imp isOperator (Or.imp isOperator isOperator))
    split at h
    · next hop =>
      cases h
      exact .dot (isOperator hop)
    · cases h
  · next hk =>
    cases h
    exact .string hk
  · next hk =>
    split at h
    · cases h
    · next hc =>
      cases h
      exact .number hk (by simpa using hc)
  · next hk =>
    cases h
    exact .name hk
  · cases h

theorem eq_of_takesPart_dot (ht : t.isOperator ".") (h : c.TakesPart t (.more d)) :
    d = { c with inString := false } := by
  obtain ⟨hk, htext⟩ := Token.isOperator_iff.1 ht
  cases h with
  | dot ht => rfl
  | comma hcomma hc => simp [Token.isOperator_iff, htext] at hcomma
  | opens hopens => simp [Token.isOperator_iff, htext] at hopens
  | string hs => simp [hk] at hs
  | number hn hc => simp [hk] at hn
  | name hn => simp [hk] at hn

theorem takesNested_of_takeNested {opener closer : String} {depth : Nat}
    (h : c.takeNested opener closer depth t = .ok d) : c.TakesNested opener closer depth t d := by
  unfold takeNested at h
  split at h
  · cases h
  split at h
  · next ho =>
    cases h
    exact .opens ho
  next ho =>
  have ho : t.isOperator opener = false := by simpa using ho
  split at h
  · next ht =>
    split at h
    · next hd =>
      cases h
      exact .leaves ho ht hd
    · next hd =>
      cases h
      exact .closes ho ht (by omega)
  · next ht =>
    cases h
    exact .other ho (by simpa using ht)

/-- A token that a call takes follows one of the rules. -/
theorem takes_of_take (h : c.take t = .ok step) : c.Takes t step := by
  unfold take at h
  dsimp only at h
  split at h
  · next hp =>
    obtain ⟨d, hd, rfl⟩ := map_eq_ok.1 (mapError_eq_ok.1 h)
    exact .nested hp (takesNested_of_takeNested hd)
  · next hp => exact .part hp (takesPart_of_takePart (mapError_eq_ok.1 h))
  · next name line hp =>
    split at h
    · next ho =>
      cases h
      exact .opens hp (by simpa using ho)
    next ho =>
    split at h
    · next he =>
      split at h
      · cases h
      · next hc =>
        cases h
        exact .label hp he hc
    · next he =>
      exact .settles hp (by simpa using ho) (by simpa using he)
        (takesPart_of_takePart (mapError_eq_ok.1 h))

/-! ### The call that is closed -/

/-- Only a closing parenthesis outside of nested brackets closes a call. -/
theorem take_closed (h : c.take t = .ok (.closed d)) :
    t.isOperator ")" ∧ (c.phase = .arguments ∧ d = { c with inString := false } ∨
      ∃ name line, c.phase = .afterName name line ∧ d = { c.endName t with inString := false }) := by
  cases takes_of_take h with
  | part hp hstep =>
    cases hstep with
    | closes ht => exact ⟨ht, .inl ⟨hp, rfl⟩⟩
  | settles hp ho he hstep =>
    cases hstep with
    | closes ht => exact ⟨ht, .inr ⟨_, _, hp, rfl⟩⟩

/-! ### The line of a call -/

theorem line_addString (c : Call) (literal : String) : (c.addString literal).line = c.line := by
  unfold addString
  dsimp only
  split <;> rfl

theorem line_endName (c : Call) (t : Token) : (c.endName t).line = c.line := by
  unfold endName
  dsimp only
  split <;> rfl

theorem line_takesPart (h : c.TakesPart t (.more d)) : d.line = c.line := by
  cases h with
  | string ht => exact line_addString c t.text
  | _ => rfl

/-- A call that goes on keeps its line. -/
theorem line_take (h : c.take t = .ok (.more d)) : d.line = c.line := by
  cases takes_of_take h with
  | nested hp hd => cases hd <;> rfl
  | part hp hstep => exact line_takesPart hstep
  | opens hp ht => rfl
  | label hp ht hc => rfl
  | settles hp ho he hstep => exact (line_takesPart hstep).trans (line_endName c t)

theorem line_of_closed (h : c.take t = .ok (.closed d)) : d.line = c.line := by
  obtain ⟨-, ⟨-, rfl⟩ | ⟨name, line, -, rfl⟩⟩ := take_closed h
  · rfl
  · exact line_endName c t

end Call

end PotExtract.Python
