import PotExtract.Proofs.Python.OpenCalls

/-! The plain shapes of an argument's value: adjacent strings, a number, a dotted name with a call or
a subscript behind it, and a display between brackets. An open call takes each of them for one
argument. -/

namespace PotExtract.Python

/-- Adjacent string literals, and the text that they spell together. -/
inductive Spells : List Token → String → Prop
  | one {t : Token} {s : String} (ht : t.kind = .string) (hs : Literal.decode? t.text = some s) :
    Spells [t] s
  | snoc {ts : List Token} {s : String} {t : Token} {s' : String} (h : Spells ts s)
    (ht : t.kind = .string) (hs : Literal.decode? t.text = some s') : Spells (ts ++ [t]) (s ++ s')

/-- Names with dots between them. -/
inductive DottedName : List Token → Prop
  | one {t : Token} (ht : t.kind = .name) : DottedName [t]
  | cons {t dot : Token} {ts : List Token} (ht : t.kind = .name) (hdot : dot.isOperator ".")
    (h : DottedName ts) : DottedName (t :: dot :: ts)

/-- The tokens of a value of one of the plain shapes. Layout is left out. -/
inductive Denotes : List Token → Value → Prop
  | text {ts : List Token} {s : String} (h : Spells ts s) : Denotes ts (.text s)
  | number {t : Token} (ht : t.kind = .number) : Denotes [t] (.number t.text)
  | name {ts : List Token} (h : DottedName ts) : Denotes ts .dynamic
  | applied {ts inner : List Token} {opener closer : Token} (h : DottedName ts)
    (ho : opener.isOperator "(" ∨ opener.isOperator "[")
    (hc : closer.isOperator (Call.closerOf opener.text)) (hinner : Matched inner) :
    Denotes (ts ++ opener :: (inner ++ [closer])) .dynamic
  | display {inner : List Token} {opener closer : Token} (ho : opener.isOpener)
    (hc : closer.isOperator (Call.closerOf opener.text)) (hinner : Matched inner) :
    Denotes (opener :: (inner ++ [closer])) .dynamic

section Brackets

variable {ts : List Token}

theorem Token.not_bracket {t : Token} (h : t.kind ≠ .operator) :
    t.isOpener = false ∧ t.isCloser = false := by
  simp [isOpener, isCloser, isOperator, h]

theorem Token.not_bracket_of_isOperator {t : Token} {op : String} (h : t.isOperator op)
    (hop : op ∉ ["(", "[", "\x7b", ")", "]", "\x7d"]) : t.isOpener = false ∧ t.isCloser = false := by
  simp only [List.mem_cons, List.not_mem_nil, or_false, not_or] at hop
  simp [isOpener, isCloser, isOperator_of_ne h, hop]

theorem Spells.matched {s : String} (h : Spells ts s) : Matched ts := by
  refine .of_forall fun t ht => Token.not_bracket ?_
  induction h with
  | one hk hs => simp [List.mem_singleton.1 ht, hk]
  | snoc _ hk _ ih =>
    rcases List.mem_append.1 ht with ht | ht
    · exact ih ht
    · simp [List.mem_singleton.1 ht, hk]

theorem DottedName.matched (h : DottedName ts) : Matched ts := by
  have hname {t : Token} (hk : t.kind = .name) : t.isOpener = false ∧ t.isCloser = false :=
    Token.not_bracket (by simp [hk])
  induction h with
  | one ht => exact .token (hname ht).1 (hname ht).2 .nil
  | cons ht hdot _ ih =>
    have hdot := Token.not_bracket_of_isOperator hdot (by decide)
    exact .token (hname ht).1 (hname ht).2 (.token hdot.1 hdot.2 ih)

/-- The brackets of a value match. -/
theorem Denotes.matched {v : Value} (h : Denotes ts v) : Matched ts := by
  cases h with
  | text h => exact h.matched
  | @number t ht =>
    obtain ⟨ho, hc⟩ := Token.not_bracket (t := t) (by simp [ht])
    exact .token ho hc .nil
  | name h => exact h.matched
  | applied h ho hc hinner =>
    have ho : Token.isOpener _ := ho.elim
      (fun ho => Token.isOpener_of_isOperator ho (by decide))
      (fun ho => Token.isOpener_of_isOperator ho (by decide))
    exact h.matched.append (.group ho hc hinner .nil)
  | display ho hc hinner => exact .group ho hc hinner .nil

end Brackets

/-! ### Taking a value -/

namespace Call

variable {c : Call} {t : Token} {ts : List Token} {v : Value}

theorem isLayout_of_kind {kind : TokenKind} (hk : t.kind = kind)
    (h : kind = .name ∨ kind = .number ∨ kind = .string) : t.isLayout = false := by
  rcases h with rfl | rfl | rfl <;> simp [Token.isLayout, hk]

theorem step?_string (hp : c.phase = .arguments) (ht : t.kind = .string) :
    c.step? t = some (c.addString t.text) := by
  refine step?_of_take (isLayout_of_kind ht (by simp)) ?_
  simp [take, hp, takePart, ht]

theorem step?_name (hp : c.phase = .arguments) (ht : t.kind = .name) :
    c.step? t = some
      { c with inArgument := true, inString := false, phase := .afterName t.text t.line } := by
  refine step?_of_take (isLayout_of_kind ht (by simp)) ?_
  simp [take, hp, takePart, ht]

theorem step?_number (hp : c.phase = .arguments) (ht : t.kind = .number)
    (hc : c.inArgument = false) :
    c.step? t = some
      { c.addArgument (.number t.text) with inArgument := true, inString := false } := by
  refine step?_of_take (isLayout_of_kind ht (by simp)) ?_
  simp [take, hp, takePart, ht, hc]

theorem step?_dot {name : String} {line : Nat} (hp : c.phase = .afterName name line)
    (ht : t.isOperator ".") : c.step? t = some { c with inString := false, phase := .arguments } := by
  obtain ⟨hk, htext⟩ := Token.isOperator_iff.1 ht
  refine step?_of_take (Token.isLayout_of_isOperator ht) ?_
  simp [take, hp, takePart, takeOperator, endName, Token.isOperator, hk, htext]

theorem step?_apply {name : String} {line : Nat} (hp : c.phase = .afterName name line)
    (ht : t.isOperator "(" ∨ t.isOperator "[") : c.step? t = some (c.enter t.text) := by
  refine step?_of_take (ht.elim Token.isLayout_of_isOperator Token.isLayout_of_isOperator) ?_
  simp [take, hp, ht]

theorem step?_opener (hp : c.phase = .arguments) (ht : t.isOpener) :
    c.step? t = some ({ c with inArgument := true, inString := false }.enter t.text) := by
  obtain ⟨hk, hopen⟩ := Token.isOpener_iff.1 ht
  have hother : t.text ≠ ")" ∧ t.text ≠ "," := by
    constructor <;> intro h <;> simp [h, openers] at hopen
  have hopen : t.text = "(" ∨ t.text = "[" ∨ t.text = "\x7b" := by simpa [openers] using hopen
  refine step?_of_take (Token.isLayout_of_isOperator (Token.isOperator_text ht)) ?_
  simp only [take, hp, takePart, hk, takeOperator, if_neg hother.1, if_neg hother.2, if_pos hopen,
    mapError_ok]

/-- Strings side by side are one argument. -/
theorem run?_spells {s : String} (h : Spells ts s) (hp : c.phase = .arguments)
    (hs : c.inString = false) :
    c.run? ts = some { c.addArgument (.text s) with inArgument := true, inString := true } := by
  induction h with
  | one ht hdecode =>
    refine run?_singleton ((step?_string hp ht).trans ?_)
    simp [addString, hs, Value.ofLiteral, hdecode]
  | snoc _ ht hdecode ih =>
    rw [run?_append ih]
    refine run?_singleton ((step?_string (by simpa [addArgument] using hp) ht).trans ?_)
    simp [addString, addArgument, Value.ofLiteral, hdecode, Value.append]

theorem run?_dottedName (h : DottedName ts) (hp : c.phase = .arguments) :
    ∃ name line, c.run? ts = some
      { c with inArgument := true, inString := false, phase := .afterName name line } := by
  induction h generalizing c with
  | one ht => exact ⟨_, _, run?_singleton (step?_name hp ht)⟩
  | cons ht hdot _ ih =>
    rw [run?_cons (step?_name hp ht), run?_cons (step?_dot rfl hdot)]
    exact ih rfl

/-- A value of a plain shape is one argument. Behind a name with an equals sign, which has begun an
argument, no number is taken. -/
theorem run?_denotes (h : Denotes ts v) (hdedent : ∀ t ∈ ts, t.kind ≠ .dedent)
    (hp : c.phase = .arguments) (hs : c.inString = false)
    (hnumber : ∀ written, v = .number written → c.inArgument = false) :
    ∃ d, c.run? ts = some d ∧ d.phase.isNested = false ∧
      { d.settled with inString := false } = { c.addArgument v with inArgument := true } := by
  have harguments : CallPhase.arguments.isNested = false := rfl
  cases h with
  | text h =>
    refine ⟨_, run?_spells h hp hs, by simp [addArgument, hp, harguments], ?_⟩
    rw [settled_of_arguments (by simpa [addArgument] using hp)]
    simp [addArgument, hs]
  | number ht =>
    refine ⟨_, run?_singleton (step?_number hp ht (hnumber _ rfl)),
      by simp [addArgument, hp, harguments], ?_⟩
    rw [settled_of_arguments (by simpa [addArgument] using hp)]
    simp [addArgument, hs]
  | name h =>
    obtain ⟨name, line, hrun⟩ := run?_dottedName h hp
    refine ⟨_, hrun, rfl, ?_⟩
    rw [settled_of_afterName rfl]
    simp [addArgument, hp, hs]
  | @applied ts inner opener closer h ho hc hinner =>
    obtain ⟨name, line, hrun⟩ := run?_dottedName h hp
    have hinner' : ∀ t ∈ inner, t.kind ≠ .dedent := fun t ht => hdedent t (by simp [ht])
    have hopen : opener.text ∈ openers := by
      rcases ho with ho | ho <;> rw [(Token.isOperator_iff.1 ho).2] <;> decide
    rw [run?_append hrun, run?_cons (step?_apply rfl ho)]
    refine ⟨_, run?_enter hopen hc hinner hinner', rfl, ?_⟩
    rw [settled_of_arguments rfl]
    simp [addArgument, hp, hs]
  | @display inner opener closer ho hc hinner =>
    have hinner' : ∀ t ∈ inner, t.kind ≠ .dedent := fun t ht => hdedent t (by simp [ht])
    rw [run?_cons (step?_opener hp ho)]
    refine ⟨_, run?_enter (Token.isOpener_iff.1 ho).2 hc hinner hinner', rfl, ?_⟩
    rw [settled_of_arguments rfl]
    simp [addArgument, hp, hs]

end Call

end PotExtract.Python
