import Mathlib.Data.List.Basic
import PotExtract.Proofs.Python.Findings

/-! The parts of the arguments of a call. A name with the call or subscript behind it, and a pair of
brackets with all that is inside of it, are one part each. What an open call has gathered depends on
the parts of its tokens alone. -/

namespace PotExtract.Python

/-- A part of the arguments of a call. An operand is a name that no dot follows, with the brackets
right behind it, or brackets on their own. A label is a name with an equals sign. -/
inductive Part where
  | string (literal : String)
  | number (written : String)
  | operand
  | label (name : String)
  | dot
  | comma
  | comment
  | other
  deriving DecidableEq, Repr

/-- The part that a token is outside of brackets, and what the next token is read as. -/
def Token.part (t : Token) : List Part × CallPhase :=
  match t.kind with
  | .string => ([.string t.text], .arguments)
  | .number => ([.number t.text], .arguments)
  | .name => ([], .afterName t.text t.line)
  | .comment => ([.comment], .arguments)
  | .operator =>
    if t.text = "," then ([.comma], .arguments)
    else if t.text = "." then ([.dot], .arguments)
    else if t.text = "(" ∨ t.text = "[" ∨ t.text = "\x7b" then
      ([], .nested t.text (Call.closerOf t.text) 1)
    else ([.other], .arguments)
  | _ => ([.other], .arguments)

/-- The parts that end with a token, and what the next token is read as. -/
def CallPhase.read (phase : CallPhase) (t : Token) : List Part × CallPhase :=
  match phase with
  | .nested opener closer depth =>
    if t.isOperator opener then ([], .nested opener closer (depth + 1))
    else if t.isOperator closer then
      if depth ≤ 1 then ([.operand], .arguments) else ([], .nested opener closer (depth - 1))
    else ([], phase)
  | .arguments => if t.isLayout then ([], phase) else t.part
  | .afterName name _ =>
    if t.isLayout then ([], phase)
    else if t.isOperator "(" || t.isOperator "[" then
      ([], .nested t.text (Call.closerOf t.text) 1)
    else if t.isOperator "=" then ([.label name], .arguments)
    else if t.isOperator "." then ([.dot], .arguments)
    else (.operand :: t.part.1, t.part.2)

/-- The parts that end within tokens, and what the next token is read as. -/
def CallPhase.readAll (phase : CallPhase) : List Token → List Part × CallPhase
  | [] => ([], phase)
  | t :: ts =>
    let (ps, phase) := phase.read t
    let (qs, phase) := phase.readAll ts
    (ps ++ qs, phase)

/-- Whether tokens are read as the inside of nested brackets. -/
def CallPhase.isNested : CallPhase → Bool
  | .nested _ _ _ => true
  | _ => false

/-- The part that ends where the tokens end. -/
def CallPhase.rest : CallPhase → List Part
  | .afterName _ _ => [.operand]
  | _ => []

/-- The parts of the tokens between the parentheses of a call. -/
def parts (body : List Token) : List Part :=
  let (ps, phase) := CallPhase.arguments.readAll body
  ps ++ phase.rest

theorem CallPhase.readAll_cons (phase : CallPhase) (t : Token) (ts : List Token) :
    phase.readAll (t :: ts) =
      ((phase.read t).1 ++ ((phase.read t).2.readAll ts).1, ((phase.read t).2.readAll ts).2) :=
  rfl

theorem CallPhase.readAll_append (phase : CallPhase) (ts us : List Token) :
    phase.readAll (ts ++ us) =
      ((phase.readAll ts).1 ++ ((phase.readAll ts).2.readAll us).1,
        ((phase.readAll ts).2.readAll us).2) := by
  induction ts generalizing phase with
  | nil => rfl
  | cons t ts ih =>
    rw [List.cons_append, readAll_cons, ih, readAll_cons]
    simp only [List.append_assoc]

/-! ### Commas -/

theorem CallPhase.read_comma {phase : CallPhase} {t : Token} (hp : phase.isNested = false)
    (ht : t.isOperator ",") : phase.read t = (phase.rest ++ [.comma], .arguments) := by
  obtain ⟨hk, htext⟩ := Token.isOperator_iff.1 ht
  have hl : t.isLayout = false := by simp [Token.isLayout, hk]
  cases phase with
  | arguments => simp [read, hl, Token.part, hk, htext, rest]
  | afterName name line => simp [read, hl, Token.part, Token.isOperator, hk, htext, rest]
  | nested opener closer depth => cases hp

theorem Token.isOperator_of_comma_mem {t : Token} (h : .comma ∈ t.part.1) :
    t.isOperator "," := by
  unfold Token.part at h
  split at h
  · simp at h
  · simp at h
  · simp at h
  · simp at h
  · next hk =>
    split at h
    · next htext => simp [Token.isOperator, hk, htext]
    split at h
    · simp at h
    split at h
    · simp at h
    · simp at h
  · simp at h

theorem CallPhase.of_comma_mem {phase : CallPhase} {t : Token} (h : .comma ∈ (phase.read t).1) :
    phase.isNested = false ∧ t.isOperator "," := by
  cases phase with
  | arguments =>
    refine ⟨rfl, ?_⟩
    dsimp only [read] at h
    split at h
    · simp at h
    · exact Token.isOperator_of_comma_mem h
  | afterName name line =>
    refine ⟨rfl, ?_⟩
    dsimp only [read] at h
    split at h
    · simp at h
    split at h
    · simp at h
    split at h
    · simp at h
    split at h
    · simp at h
    · exact Token.isOperator_of_comma_mem (by simpa using h)
  | nested opener closer depth =>
    dsimp only [read] at h
    split at h
    · simp at h
    split at h
    · split at h <;> simp at h
    · simp at h

theorem parts_eq (body : List Token) :
    parts body =
      (CallPhase.arguments.readAll body).1 ++ (CallPhase.arguments.readAll body).2.rest :=
  rfl

/-- A comma outside of nested brackets sets its sides apart. -/
theorem parts_append_comma {ts : List Token} {t : Token}
    (hts : (CallPhase.arguments.readAll ts).2.isNested = false) (ht : t.isOperator ",")
    (us : List Token) : parts (ts ++ t :: us) = parts ts ++ .comma :: parts us := by
  simp only [parts_eq, CallPhase.readAll_append, CallPhase.readAll_cons,
    CallPhase.read_comma hts ht, List.append_assoc, List.cons_append, List.nil_append]

theorem CallPhase.comma_notMem_rest (phase : CallPhase) : .comma ∉ phase.rest := by
  cases phase <;> simp [rest]

theorem CallPhase.exists_of_comma {phase : CallPhase} {ts : List Token} {qs rs : List Part}
    (h : (phase.readAll ts).1 ++ (phase.readAll ts).2.rest = qs ++ .comma :: rs) :
    ∃ init t us, ts = init ++ t :: us ∧ t.isOperator "," ∧
      (phase.readAll init).2.isNested = false ∧
      (phase.readAll init).1 ++ (phase.readAll init).2.rest = qs := by
  induction ts generalizing phase qs with
  | nil =>
    have hrest : phase.rest = qs ++ .comma :: rs := h
    exact absurd (by simp [hrest]) phase.comma_notMem_rest
  | cons t ts ih =>
    rw [readAll_cons, List.append_assoc] at h
    rcases List.append_eq_append_iff.1 h with ⟨as, rfl, has⟩ | ⟨as, has, hrs⟩
    · obtain ⟨init, u, us, rfl, hu, hnested, hinit⟩ := ih has
      refine ⟨t :: init, u, us, rfl, hu, hnested, ?_⟩
      rw [readAll_cons, List.append_assoc, hinit]
    cases as with
    | nil =>
      obtain ⟨init, u, us, rfl, hu, hnested, hinit⟩ := ih (hrs.symm.trans (List.nil_append _).symm)
      refine ⟨t :: init, u, us, rfl, hu, hnested, ?_⟩
      rw [readAll_cons, List.append_assoc, hinit, has, List.append_nil, List.append_nil]
    | cons a as =>
      obtain ⟨rfl, -⟩ := List.cons.inj hrs
      have hmem : Part.comma ∈ (phase.read t).1 := by simp [has]
      obtain ⟨hnested, ht⟩ := of_comma_mem hmem
      rw [read_comma hnested ht] at has
      refine ⟨[], t, ts, rfl, ht, hnested, ?_⟩
      exact ((List.append_cons_inj_of_notMem phase.comma_notMem_rest (by simp)).1 has).1

/-- What parts of arguments come to: the arguments, and the name that waits for a value. -/
structure Gathered where
  arguments : List Argument := []
  pendingName : Option String := none
  inString : Bool := false
  deriving DecidableEq, Repr

namespace Gathered

/-- Adds an argument, under the name that waits for a value. -/
def add (g : Gathered) (value : Value) : Gathered :=
  { arguments := g.arguments ++ [⟨g.pendingName, value⟩] }

/-- Adds a part. Strings with nothing but comments between them are one argument. -/
def note (g : Gathered) : Part → Gathered
  | .string literal =>
    match g.inString, g.arguments.getLast? with
    | true, some last =>
      let last := { last with value := last.value.append (.ofLiteral literal) }
      { g with arguments := g.arguments.dropLast ++ [last] }
    | _, _ => { g.add (.ofLiteral literal) with inString := true }
  | .number written => g.add (.number written)
  | .operand => g.add .dynamic
  | .label name => { g with pendingName := some name, inString := false }
  | .comment => g
  | .dot | .comma | .other => { g with inString := false }

end Gathered

/-- What parts come to from the start. -/
def gather (ps : List Part) : Gathered :=
  ps.foldl Gathered.note {}

/-- An open call has gathered `g`. It is in a string only between the parts of its arguments. -/
structure Call.Holds (c : Call) (g : Gathered) : Prop where
  arguments : c.arguments = g.arguments
  pendingName : c.pendingName = g.pendingName
  inString : c.phase = .arguments → c.inString = g.inString
  apart : c.phase ≠ .arguments → c.inString = false

namespace Call

variable {c d : Call} {g : Gathered} {t : Token}

/-- The call with a name at its end taken for a value. -/
def settled (c : Call) : Call :=
  match c.phase with
  | .afterName _ _ => { c with phase := .arguments }.addArgument .dynamic
  | _ => c

theorem settled_of_afterName {name : String} {line : Nat} (hp : c.phase = .afterName name line) :
    c.settled = { c with phase := .arguments }.addArgument .dynamic := by
  simp [settled, hp]

theorem settled_of_ne (hp : ∀ name line, c.phase ≠ .afterName name line) : c.settled = c := by
  unfold settled
  split
  · next name line h => exact absurd h (hp name line)
  · rfl

theorem endName_eq_settled {name : String} {line : Nat} (hp : c.phase = .afterName name line)
    (ht : t.isOperator "." = false) : c.endName t = c.settled := by
  rw [settled_of_afterName hp]
  simp [endName, ht]

theorem arguments_addArgument (h : c.Holds g) (v : Value) :
    (c.addArgument v).arguments = (g.add v).arguments := by
  simp only [addArgument, Gathered.add, h.arguments, h.pendingName]

theorem holds_settled {name : String} {line : Nat} (hp : c.phase = .afterName name line)
    (h : c.Holds g) : c.settled.phase = .arguments ∧ c.settled.Holds (g.note .operand) := by
  rw [settled_of_afterName hp]
  exact ⟨rfl, arguments_addArgument h .dynamic, rfl, fun _ => h.apart (by simp [hp]),
    fun hne => absurd rfl hne⟩

theorem holds_addString (hp : c.phase = .arguments) (h : c.Holds g) (literal : String) :
    (c.addString literal).phase = .arguments ∧
      (c.addString literal).Holds (g.note (.string literal)) := by
  have hadded := arguments_addArgument h (.ofLiteral literal)
  obtain ⟨harguments, hname, hstring, -⟩ := h
  have hstring := hstring hp
  unfold addString Gathered.note
  dsimp only
  rw [← harguments, ← hstring]
  cases hs : c.inString with
  | false => exact ⟨hp, hadded, rfl, fun _ => rfl, fun hne => absurd hp hne⟩
  | true =>
    cases c.arguments.getLast? with
    | none => exact ⟨hp, hadded, rfl, fun _ => rfl, fun hne => absurd hp hne⟩
    | some last => exact ⟨hp, rfl, hname, fun _ => rfl, fun hne => absurd hp hne⟩

theorem holds_takesPart (hp : c.phase = .arguments) (h : c.Holds g)
    (ht : c.TakesPart t (.more d)) :
    d.phase = t.part.2 ∧ d.Holds (t.part.1.foldl Gathered.note g) := by
  have ⟨harguments, hname, _, _⟩ := h
  cases ht with
  | comma ht hc =>
    obtain ⟨hk, htext⟩ := Token.isOperator_iff.1 ht
    simp only [Token.part, hk, htext, if_true]
    exact ⟨hp, harguments, hname, fun _ => rfl, fun hne => absurd hp hne⟩
  | opens ht =>
    simp only [Token.isOperator_iff, ← and_or_left] at ht
    have hcomma : t.text ≠ "," := fun htext => by simp [htext] at ht
    have hdot : t.text ≠ "." := fun htext => by simp [htext] at ht
    simp only [Token.part, ht.1, if_neg hcomma, if_neg hdot, if_pos ht.2]
    exact ⟨rfl, harguments, hname, fun hne => by simp [enter] at hne, fun _ => rfl⟩
  | dot ht =>
    obtain ⟨hk, htext⟩ := Token.isOperator_iff.1 ht
    simp only [Token.part, hk, htext, if_true]
    exact ⟨hp, harguments, hname, fun _ => rfl, fun hne => absurd hp hne⟩
  | string hk =>
    simp only [Token.part, hk]
    exact holds_addString hp h t.text
  | number hk hc =>
    simp only [Token.part, hk]
    exact ⟨hp, arguments_addArgument h _, rfl, fun _ => rfl, fun hne => absurd hp hne⟩
  | name hk =>
    simp only [Token.part, hk]
    exact ⟨trivial, harguments, hname, fun hne => by simp at hne, fun _ => rfl⟩

theorem holds_takesNested {opener closer : String} {depth : Nat}
    (hp : c.phase = .nested opener closer depth) (h : c.Holds g)
    (ht : c.TakesNested opener closer depth t d) :
    d.phase = (c.phase.read t).2 ∧ d.Holds ((c.phase.read t).1.foldl Gathered.note g) := by
  have hstring : c.inString = false := h.apart (by simp [hp])
  simp only [hp, CallPhase.read]
  cases ht with
  | opens ht =>
    simp only [if_pos ht]
    exact ⟨trivial, h.arguments, h.pendingName, fun hne => by simp at hne, fun _ => hstring⟩
  | closes ho ht hd =>
    simp only [ho, if_pos ht, if_neg (Nat.not_le.2 hd), Bool.false_eq_true, if_false]
    exact ⟨trivial, h.arguments, h.pendingName, fun hne => by simp at hne, fun _ => hstring⟩
  | leaves ho ht hd =>
    simp only [ho, if_pos ht, if_pos hd, Bool.false_eq_true, if_false]
    exact ⟨rfl, arguments_addArgument h .dynamic, rfl, fun _ => hstring,
      fun hne => absurd rfl hne⟩
  | other ho ht =>
    simp only [ho, ht, Bool.false_eq_true, if_false]
    exact ⟨hp, h⟩

/-- An open call reads a token as the parts that end with it. -/
theorem holds_take (hnested : c.phase.isNested = false → t.isLayout = false) (h : c.Holds g)
    (ht : c.take t = .ok (.more d)) :
    d.phase = (c.phase.read t).2 ∧ d.Holds ((c.phase.read t).1.foldl Gathered.note g) := by
  cases takes_of_take ht with
  | nested hp hd => exact holds_takesNested hp h hd
  | part hp hstep =>
    have hl : t.isLayout = false := hnested (by simp [hp, CallPhase.isNested])
    simp only [hp, CallPhase.read, hl, Bool.false_eq_true, if_false]
    exact holds_takesPart hp h hstep
  | opens hp ho =>
    have hl : t.isLayout = false := hnested (by simp [hp, CallPhase.isNested])
    simp only [hp, CallPhase.read, hl, Bool.or_eq_true, ho, Bool.false_eq_true, if_true, if_false]
    exact ⟨rfl, h.arguments, h.pendingName, fun hne => by simp [enter] at hne,
      fun _ => h.apart (by simp [hp])⟩
  | label hp he hc =>
    have hl : t.isLayout = false := hnested (by simp [hp, CallPhase.isNested])
    have ho : t.isOperator "(" = false ∧ t.isOperator "[" = false := by
      simp [Token.isOperator, (Token.isOperator_iff.1 he).2]
    simp only [hp, CallPhase.read, hl, ho, he, Bool.or_self, Bool.false_eq_true, if_true, if_false]
    exact ⟨trivial, h.arguments, rfl, fun _ => h.apart (by simp [hp]), fun hne => absurd rfl hne⟩
  | settles hp ho he hstep =>
    have hl : t.isLayout = false := hnested (by simp [hp, CallPhase.isNested])
    simp only [hp, CallPhase.read, hl, ho, he, Bool.or_self, Bool.false_eq_true, if_false]
    by_cases hdot : t.isOperator "."
    · rw [if_pos hdot, eq_of_takesPart_dot hdot hstep]
      simp only [endName, hdot, if_true]
      exact ⟨trivial, h.arguments, h.pendingName, fun _ => rfl, fun hne => absurd rfl hne⟩
    · rw [if_neg hdot]
      rw [endName_eq_settled hp (by simpa using hdot)] at hstep
      obtain ⟨hp', h'⟩ := holds_settled hp h
      exact holds_takesPart hp' h' hstep

theorem settled_of_arguments (hp : c.phase = .arguments) : c.settled = c := by
  simp [settled, hp]

/-- A comment ends the name in front of it. -/
theorem holds_comment (hn : c.phase.isNested = false) (hk : t.kind = .comment) (h : c.Holds g) :
    c.settled.phase = (c.phase.read t).2 ∧
      c.settled.Holds ((c.phase.read t).1.foldl Gathered.note g) := by
  have hl : t.isLayout = false := by simp [Token.isLayout, hk]
  have hop (op : String) : t.isOperator op = false := by simp [Token.isOperator, hk]
  cases hp : c.phase with
  | arguments =>
    rw [settled_of_arguments hp]
    simpa [CallPhase.read, hl, Token.part, hk, Gathered.note] using ⟨hp, h⟩
  | afterName name line =>
    simpa [CallPhase.read, hl, hop, Token.part, hk, Gathered.note] using holds_settled hp h
  | nested opener closer depth => simp [hp, CallPhase.isNested] at hn

theorem read_layout (hn : c.phase.isNested = false) (hl : t.isLayout = true) :
    c.phase.read t = ([], c.phase) := by
  cases hp : c.phase with
  | arguments => simp [CallPhase.read, hl]
  | afterName name line => simp [CallPhase.read, hl]
  | nested opener closer depth => simp [hp, CallPhase.isNested] at hn

theorem holds_rest (hn : c.phase.isNested = false) (h : c.Holds g) :
    c.settled.Holds (c.phase.rest.foldl Gathered.note g) := by
  cases hp : c.phase with
  | arguments =>
    rw [settled_of_arguments hp]
    exact h
  | afterName name line => exact (holds_settled hp h).2
  | nested opener closer depth => simp [hp, CallPhase.isNested] at hn

end Call

namespace ScanState

variable {ctx : ScanContext} {s s' : ScanState} {c d : Call} {g : Gathered} {t : Token}

theorem isNested_of_inCall (hc : s.mode = .inCall c) : s.isNested = c.phase.isNested := by
  simp only [isNested, hc]
  cases c.phase <;> rfl

theorem settled_of_settleName (hc : s.mode = .inCall c) (ht : t.kind = .comment)
    (hd : (s.settleName t).mode = .inCall d) : d = c.settled := by
  unfold settleName at hd
  rw [hc] at hd
  dsimp only at hd
  split at hd
  · next name line hp =>
    cases hd
    exact Call.endName_eq_settled hp (by simp [Token.isOperator, ht])
  · next hp =>
    rw [hc] at hd
    cases hd
    rw [Call.settled_of_ne hp]

/-- A call that stays open has taken the token, unless this is a comment or layout. -/
theorem take_of_inCall (hc : s.mode = .inCall c) (hd : s'.mode = .inCall d)
    (h : s.take ctx t = .ok s') :
    ((c.phase.isNested = false → t.isLayout = false) ∧ c.take t = .ok (.more d)) ∨
      c.phase.isNested = false ∧ (t.kind = .comment ∧ d = c.settled ∨ t.isLayout = true ∧ d = c) := by
  have htaken (h : s.takeSignificant ctx t = .ok s') : c.take t = .ok (.more d) := by
    simp only [takeSignificant, hc] at h
    rcases takeInCall_cases h with ⟨d', hd', rfl⟩ | ⟨d', -, hclose⟩
    · cases hd
      exact hd'
    · have := (Prod.mk.inj (control_close hclose)).1
      simp [hd] at this
  unfold take at h
  rw [isNested_of_inCall hc] at h
  split at h
  · next hn => exact .inl ⟨fun hne => absurd hn (by simp [hne]), htaken h⟩
  next hn =>
  have hn : c.phase.isNested = false := by simpa using hn
  split at h
  · next hk =>
    cases h
    refine .inr ⟨hn, .inl ⟨hk, ?_⟩⟩
    rw [(Prod.mk.inj (control_takeComment _ t)).1] at hd
    exact settled_of_settleName hc hk hd
  next hk =>
  split at h
  · next hl =>
    cases h
    rw [hc] at hd
    cases hd
    exact .inr ⟨hn, .inr ⟨hl, rfl⟩⟩
  next hl =>
  rw [if_neg (by simp [hc])] at h
  exact .inl ⟨fun _ => by simpa using hl, htaken h⟩

theorem holds_read (hc : s.mode = .inCall c) (hd : s'.mode = .inCall d) (hg : c.Holds g)
    (h : s.take ctx t = .ok s') :
    d.phase = (c.phase.read t).2 ∧ d.Holds ((c.phase.read t).1.foldl Gathered.note g) := by
  rcases take_of_inCall hc hd h with ⟨hn, ht⟩ | ⟨hn, ⟨hk, rfl⟩ | ⟨hl, rfl⟩⟩
  · exact Call.holds_take hn hg ht
  · exact Call.holds_comment hn hk hg
  · rw [Call.read_layout hn hl]
    exact ⟨rfl, hg⟩

/-- An open call has gathered what the parts of its tokens come to. -/
theorem holds_takeAll {ts : List Token} (hc : s.mode = .inCall c) (hd : s'.mode = .inCall d)
    (hopen : ∀ init, init <+: ts → ∃ e, (takeAll ctx s init).1.mode = .inCall e)
    (hg : c.Holds g) (h : takeAll ctx s ts = (s', none)) :
    d.phase = (c.phase.readAll ts).2 ∧ d.Holds ((c.phase.readAll ts).1.foldl Gathered.note g) := by
  induction ts generalizing s c g with
  | nil =>
    cases h
    rw [hc] at hd
    cases hd
    exact ⟨rfl, hg⟩
  | cons t ts ih =>
    obtain ⟨e, he⟩ := hopen [t] (by simp)
    cases ht : s.take ctx t with
    | error fault => simp [takeAll, ht] at h
    | ok s₁ =>
      rw [takeAll_singleton ht] at he
      rw [takeAll_cons ht] at h
      have hopen : ∀ init, init <+: ts → ∃ e, (takeAll ctx s₁ init).1.mode = .inCall e := by
        intro init hinit
        rw [← takeAll_cons ht]
        exact hopen (t :: init) (by simpa using hinit)
      obtain ⟨hp, he'⟩ := holds_read hc he hg ht
      rw [CallPhase.readAll_cons, List.foldl_append, ← hp]
      exact ih he hopen he' h

end ScanState

end PotExtract.Python
