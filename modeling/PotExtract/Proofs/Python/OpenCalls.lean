import PotExtract.Proofs.Python.Brackets
import PotExtract.Proofs.Python.CallParts

/-! Tokens in a row inside of a call. An open call takes the layout between its arguments for
nothing, and matching brackets for one argument. -/

namespace PotExtract.Python

section Tokens

variable {t : Token} {op : String}

theorem Token.isLayout_of_isOperator (h : t.isOperator op) : t.isLayout = false := by
  simp [isLayout, (isOperator_iff.1 h).1]

theorem Token.isOperator_of_ne {op' : String} (h : t.isOperator op) (hne : op ≠ op') :
    t.isOperator op' = false := by
  obtain ⟨hk, rfl⟩ := isOperator_iff.1 h
  simp [isOperator, hne]

/-- The three texts of an opening bracket. -/
def openers : List String :=
  ["(", "[", "\x7b"]

theorem Token.isOpener_iff : t.isOpener ↔ t.kind = .operator ∧ t.text ∈ openers := by
  simp [isOpener, isOperator_iff, openers, and_or_left, or_assoc]

theorem Token.isOperator_text (h : t.isOpener) : t.isOperator t.text :=
  isOperator_iff.2 ⟨(isOpener_iff.1 h).1, rfl⟩

theorem Token.isOpener_of_isOperator (h : t.isOperator op) (hop : op ∈ openers) : t.isOpener := by
  obtain ⟨hk, rfl⟩ := isOperator_iff.1 h
  exact isOpener_iff.2 ⟨hk, hop⟩

/-- No closing bracket is an opening one, and each one closes one kind. -/
theorem closerOf_injective {op op' : String} (h : op ∈ openers) (h' : op' ∈ openers) :
    Call.closerOf op ≠ op' ∧ (Call.closerOf op = Call.closerOf op' → op = op') := by
  simp only [openers, List.mem_cons, List.not_mem_nil, or_false] at h h'
  rcases h with rfl | rfl | rfl <;> rcases h' with rfl | rfl | rfl <;> decide

end Tokens

namespace Call

variable {c d : Call} {t : Token} {ts us : List Token}

/-- The open call behind a token, if the call goes on. -/
def step? (c : Call) (t : Token) : Option Call :=
  if c.phase.isNested = false ∧ t.isLayout then some c
  else
    match c.take t with
    | .ok (.more d) => some d
    | _ => none

/-- The open call behind tokens. -/
def run? (c : Call) (ts : List Token) : Option Call :=
  ts.foldlM step? c

theorem run?_cons (h : c.step? t = some d) (ts : List Token) : c.run? (t :: ts) = d.run? ts := by
  simp [run?, h]

theorem run?_append (h : c.run? ts = some d) (us : List Token) : c.run? (ts ++ us) = d.run? us := by
  rw [run?] at h
  simp [run?, List.foldlM_append, h]

theorem run?_singleton (h : c.step? t = some d) : c.run? [t] = some d := by
  rw [run?_cons h]
  rfl

theorem step?_of_take (hl : t.isLayout = false) (h : c.take t = .ok (.more d)) :
    c.step? t = some d := by
  simp [step?, hl, h]

theorem step?_layout (hk : t.kind ≠ .dedent) (hl : t.isLayout) : c.step? t = some c := by
  cases hn : c.phase.isNested with
  | false => simp [step?, hn, hl]
  | true =>
    have hop (op : String) : t.isOperator op = false := by
      by_contra h
      simp [Token.isLayout_of_isOperator (by simpa using h)] at hl
    cases hp : c.phase with
    | nested opener closer depth =>
      simp [step?, take, hp, takeNested, hk, hop, Except.map]
    | _ => simp [hp, CallPhase.isNested] at hn

/-- Layout says nothing of the arguments of a call. -/
theorem run?_filter (h : ∀ t ∈ ts, t.kind ≠ .dedent) (c : Call) :
    c.run? (ts.filter fun t => !t.isLayout) = c.run? ts := by
  induction ts generalizing c with
  | nil => rfl
  | cons t ts ih =>
    have ih := ih fun u hu => h u (List.mem_cons_of_mem t hu)
    by_cases hl : t.isLayout
    · rw [List.filter_cons_of_neg (by simp [hl]), ih,
        run?_cons (step?_layout (h t List.mem_cons_self) hl)]
    · rw [List.filter_cons_of_pos (by simpa using hl)]
      cases hd : c.step? t with
      | none => simp [run?, hd]
      | some d => rw [run?_cons hd, run?_cons hd, ih]

/-! ### Brackets -/

section Nested

variable {opener closer : String} {depth : Nat}

theorem step?_nested_opener (hp : c.phase = .nested opener closer depth) (ht : t.isOperator opener) :
    c.step? t = some { c with phase := .nested opener closer (depth + 1) } := by
  have hk : t.kind ≠ .dedent := by simp [(Token.isOperator_iff.1 ht).1]
  refine step?_of_take (Token.isLayout_of_isOperator ht) ?_
  simp [take, hp, takeNested, hk, ht, Except.map]

theorem step?_nested_closer (hp : c.phase = .nested opener closer (depth + 1))
    (ho : t.isOperator opener = false) (ht : t.isOperator closer) :
    c.step? t = some (if depth = 0 then { c with phase := .arguments }.addArgument .dynamic
      else { c with phase := .nested opener closer depth }) := by
  have hk : t.kind ≠ .dedent := by simp [(Token.isOperator_iff.1 ht).1]
  refine step?_of_take (Token.isLayout_of_isOperator ht) ?_
  by_cases hd : depth = 0 <;> simp [take, hp, takeNested, hk, ho, ht, hd, Except.map]

theorem step?_nested_other (hp : c.phase = .nested opener closer depth) (hk : t.kind ≠ .dedent)
    (ho : t.isOperator opener = false) (hc : t.isOperator closer = false) :
    c.step? t = some c := by
  have hn : ¬(c.phase.isNested = false ∧ t.isLayout) := by simp [hp, CallPhase.isNested]
  rw [step?, if_neg hn]
  simp [take, hp, takeNested, hk, ho, hc, Except.map]

/-- Inside of nested brackets, matching brackets lead back to where the call was. -/
theorem run?_matched (h : Matched ts) (hdedent : ∀ t ∈ ts, t.kind ≠ .dedent)
    (ho : opener ∈ openers) (hp : c.phase = .nested opener (closerOf opener) (depth + 1)) :
    c.run? ts = some c := by
  induction h generalizing c depth with
  | nil => rfl
  | @token t ts hopens hcloses _ ih =>
    have hopener : t.isOperator opener = false := by
      by_contra hne
      simp [Token.isOpener_of_isOperator (by simpa using hne) ho] at hopens
    have hcloser : t.isOperator (closerOf opener) = false := by
      by_contra hne
      have hcloser : t.isOperator (closerOf opener) := by simpa using hne
      rw [openers, List.mem_cons, List.mem_cons, List.mem_singleton] at ho
      rcases ho with rfl | rfl | rfl <;> simp_all [Token.isCloser, closerOf]
    rw [run?_cons (step?_nested_other hp (hdedent t List.mem_cons_self) hopener hcloser)]
    exact ih (fun u hu => hdedent u (List.mem_cons_of_mem t hu)) hp
  | @group o close inner ts hopens hcloses _ _ ihInner ih =>
    have htext := (Token.isOpener_iff.1 hopens).2
    have hclose : close.isOperator opener = false :=
      Token.isOperator_of_ne hcloses (closerOf_injective htext ho).1
    have hinner : ∀ t ∈ inner, t.kind ≠ .dedent := fun t ht => hdedent t (by simp [ht])
    have hts : ∀ t ∈ ts, t.kind ≠ .dedent := fun t ht => hdedent t (by simp [ht])
    by_cases heq : o.text = opener
    · have ho' : o.isOperator opener := heq ▸ Token.isOperator_text hopens
      rw [heq] at hcloses
      rw [run?_cons (step?_nested_opener hp ho'), run?_append (ihInner hinner rfl),
        run?_cons (step?_nested_closer rfl hclose hcloses), if_neg (Nat.succ_ne_zero depth), ← hp]
      exact ih hts hp
    · have ho' : o.isOperator opener = false := Token.isOperator_of_ne (Token.isOperator_text hopens) heq
      have ho'' : o.isOperator (closerOf opener) = false :=
        Token.isOperator_of_ne (Token.isOperator_text hopens) (closerOf_injective ho htext).1.symm
      have hclose' : close.isOperator (closerOf opener) = false :=
        Token.isOperator_of_ne hcloses fun h => heq ((closerOf_injective htext ho).2 h)
      rw [run?_cons (step?_nested_other hp (hdedent o (by simp)) ho' ho''),
        run?_append (ihInner hinner hp),
        run?_cons (step?_nested_other hp (hdedent close (by simp)) hclose hclose')]
      exact ih hts hp

/-- Brackets with matching ones inside are one argument. -/
theorem run?_enter {close : Token} (ho : opener ∈ openers)
    (hclose : close.isOperator (closerOf opener)) (h : Matched ts)
    (hdedent : ∀ t ∈ ts, t.kind ≠ .dedent) :
    (c.enter opener).run? (ts ++ [close]) =
      some ({ c with phase := .arguments }.addArgument .dynamic) := by
  have hopener : close.isOperator opener = false :=
    Token.isOperator_of_ne hclose (closerOf_injective ho ho).1
  have hp : (c.enter opener).phase = .nested opener (closerOf opener) (0 + 1) := rfl
  rw [run?_append (run?_matched h hdedent ho hp)]
  exact run?_singleton (step?_nested_closer hp hopener hclose)

end Nested

/-! ### The end of an argument -/

theorem phase_endName (c : Call) (t : Token) : (c.endName t).phase = .arguments := by
  unfold endName
  dsimp only
  split <;> rfl

theorem phase_settled (hn : c.phase.isNested = false) : c.settled.phase = .arguments := by
  cases hp : c.phase with
  | arguments => rw [settled_of_arguments hp, hp]
  | afterName name line =>
    rw [settled_of_afterName hp]
    rfl
  | nested opener closer depth => simp [hp, CallPhase.isNested] at hn

/-- What ends an argument is taken as a part of the settled call. -/
theorem take_of_isOperator {op : String} (hn : c.phase.isNested = false) (ht : t.isOperator op)
    (hop : op ≠ "(" ∧ op ≠ "[" ∧ op ≠ "=" ∧ op ≠ ".") :
    c.take t = (c.settled.takeOperator op).mapError (⟨·, t.line⟩) := by
  obtain ⟨hk, htext⟩ := Token.isOperator_iff.1 ht
  have hpart (d : Call) : d.takePart t = d.takeOperator op := by simp [takePart, hk, htext]
  cases hp : c.phase with
  | arguments => rw [settled_of_arguments hp, take, hp, ← hpart]
  | afterName name line =>
    have hother (other : String) (hne : op ≠ other) := Token.isOperator_of_ne ht hne
    rw [take, hp]
    simp only [hother _ hop.1, hother _ hop.2.1, hother _ hop.2.2.1, Bool.or_self,
      Bool.false_eq_true, if_false, hpart, endName_eq_settled hp (hother _ hop.2.2.2)]
  | nested opener closer depth => simp [hp, CallPhase.isNested] at hn

theorem step?_comma (hn : c.phase.isNested = false) (hc : c.settled.inArgument)
    (ht : t.isOperator ",") :
    c.step? t = some { c.settled with inArgument := false, inString := false } := by
  refine step?_of_take (Token.isLayout_of_isOperator ht) ?_
  rw [take_of_isOperator hn ht (by decide)]
  simp [takeOperator, hc]

theorem take_close (hn : c.phase.isNested = false) (ht : t.isOperator ")") :
    c.take t = .ok (.closed { c.settled with inString := false }) := by
  rw [take_of_isOperator hn ht (by decide)]
  rfl

end Call

/-! ### The scan of an open call -/

namespace ScanState

variable {ctx : ScanContext} {s : ScanState} {c d : Call} {t : Token} {ts : List Token}

theorem take_of_step? (ctx : ScanContext) (hm : s.mode = .inCall c) (h : c.step? t = some d) :
    ∃ inDefinition, s.take ctx t =
      .ok { s with mode := .inCall d, inDefinition := inDefinition } := by
  have hn := isNested_of_inCall hm
  unfold Call.step? at h
  split at h
  · next hl =>
    cases h
    have hk : t.kind ≠ .comment := by
      intro hk
      simp [Token.isLayout, hk] at hl
    exact ⟨s.inDefinition, by simp [take, hn, hl, hk, ← hm]⟩
  · next hl =>
    have hmore : c.take t = .ok (.more d) := by
      split at h
      · next d' hd =>
        cases h
        exact hd
      · cases h
    have hsignificant : s.takeSignificant ctx t =
        .ok { s with mode := .inCall d, inDefinition := t.text == "def" || t.text == "class" } := by
      simp [takeSignificant, hm, takeInCall, hmore, bind, Except.bind, pure, Except.pure]
    refine ⟨t.text == "def" || t.text == "class", ?_⟩
    unfold take
    rw [hn]
    split
    · exact hsignificant
    · next hnested =>
      have hnested : c.phase.isNested = false := by simpa using hnested
      have hk : t.kind ≠ .comment := by
        -- outside of nested brackets a call takes no comment
        intro hk
        have hpart (e : Call) : e.takePart t = .error (.unexpectedToken t.text) := by
          simp [Call.takePart, hk]
        cases hp : c.phase with
        | nested opener closer depth => simp [hp, CallPhase.isNested] at hnested
        | _ => simp [Call.take, hp, hpart, Token.isOperator, hk, Except.mapError] at hmore
      have hlayout : t.isLayout = false := by simpa [hnested] using hl
      rw [if_neg hk, if_neg (by simp [hlayout]), if_neg (by simp [hm])]
      exact hsignificant

/-- The scan goes with the call. -/
theorem takeAll_of_run? (ctx : ScanContext) (hm : s.mode = .inCall c) (h : c.run? ts = some d) :
    ∃ inDefinition, takeAll ctx s ts =
      ({ s with mode := .inCall d, inDefinition := inDefinition }, none) := by
  induction ts generalizing s c with
  | nil =>
    cases h
    exact ⟨s.inDefinition, by rw [takeAll, ← hm]⟩
  | cons t ts ih =>
    cases hstep : c.step? t with
    | none => simp [Call.run?, hstep] at h
    | some e =>
      rw [Call.run?_cons hstep] at h
      obtain ⟨inDefinition, ht⟩ := take_of_step? ctx hm hstep
      obtain ⟨inDefinition', hts⟩ :=
        ih (s := { s with mode := .inCall e, inDefinition := inDefinition }) rfl h
      exact ⟨inDefinition', by rw [takeAll_cons ht, hts]⟩

/-- The parenthesis that closes a call leads outside. -/
theorem take_close (hm : s.mode = .inCall c) (hn : c.phase.isNested = false)
    (ht : t.isOperator ")") :
    s.take ctx t = ({ s with mode := .outside, inDefinition := false } : ScanState).close ctx
      { c.settled with inString := false } := by
  obtain ⟨hk, htext⟩ := Token.isOperator_iff.1 ht
  have hnested : s.isNested = false := (isNested_of_inCall hm).trans hn
  simp [take, hnested, hk, Token.isLayout, hm, takeSignificant, htext, takeInCall,
    Call.take_close hn ht, bind, Except.bind]

end ScanState

end PotExtract.Python
