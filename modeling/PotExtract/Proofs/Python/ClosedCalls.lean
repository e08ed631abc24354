import Mathlib.Data.List.Infix
import PotExtract.Proofs.Python.WrittenArguments

/-! The calls that a scan closes, and how their arguments correspond to those written between their
parentheses. -/

namespace PotExtract.Python

open ScanState

/-- The open call in which tokens leave a scan. -/
def openCall? (ctx : ScanContext) (s : ScanState) (ts : List Token) : Option Call :=
  match takeAll ctx s ts with
  | (s, none) =>
    match s.mode with
    | .inCall c => some c
    | _ => none
  | (_, some _) => none

/-- A call in a source that a scan closes: it is at the name of a function when the parenthesis
comes, and the call stays open through the tokens of the body. -/
structure ClosedCall (ctx : ScanContext) (source : String) where
  before : List Token
  opening : Token
  body : List Token
  closing : Token
  after : List Token
  entry : ScanState
  function : String
  line : Nat
  call : Call
  tokens_eq : (tokenize source).tokens = before ++ opening :: (body ++ closing :: after)
  takeAll_before : takeAll ctx (.start ctx) before = (entry, none)
  mode_entry : entry.mode = .named function line
  isOperator_opening : opening.isOperator "("
  isSome_openCall? : ∀ init, init <+: body → (openCall? ctx entry (opening :: init)).isSome
  take_closing : ∃ c, openCall? ctx entry (opening :: body) = some c ∧
    c.take closing = .ok (.closed call)

variable {ctx : ScanContext} {source : String}

namespace ClosedCall

/-- The call behind the first tokens of its body. -/
def open? (k : ClosedCall ctx source) (init : List Token) : Option Call :=
  openCall? ctx k.entry (k.opening :: init)

/-- The arguments of a call correspond to those written in its body, one to one and in order, and so
do those collected up to each comma, where no name waits for a value. -/
def Corresponds (k : ClosedCall ctx source) : Prop :=
  List.Forall₂ Reads (written (parts k.body)) k.call.arguments ∧
    ∀ init rest c, k.body = init ++ rest → (∀ t ∈ rest.head?, t.isOperator ",") →
      k.open? init = some c → c.phase.isNested = false →
      c.settled.pendingName = none ∧
        List.Forall₂ Reads (written (parts init)) c.settled.arguments

end ClosedCall

theorem takeAll_of_openCall? {s : ScanState} {ts : List Token} {c : Call}
    (h : openCall? ctx s ts = some c) :
    ∃ s', takeAll ctx s ts = (s', none) ∧ s'.mode = .inCall c := by
  unfold openCall? at h
  split at h
  · next s' hs =>
    split at h
    · next hm =>
      cases h
      exact ⟨s', hs, hm⟩
    · cases h
  · cases h

theorem ScanState.take_opening (ctx : ScanContext) {s : ScanState} {t : Token}
    {function : String} {line : Nat} (hs : s.mode = .named function line) (ht : t.isOperator "(") :
    ∃ s', s.take ctx t = .ok s' ∧ s'.mode = .inCall { function, line } := by
  have hk : t.kind = .operator := (Token.isOperator_iff.1 ht).1
  simp [take, isNested, hs, hk, Token.isLayout, takeSignificant, ht]

namespace ClosedCall

variable (k : ClosedCall ctx source) {init : List Token} {c : Call}

/-- What a call has gathered behind the first tokens of its body. -/
theorem holds_open? (hinit : init <+: k.body) (h : k.open? init = some c) :
    c.phase = (CallPhase.arguments.readAll init).2 ∧
      c.Holds ((CallPhase.arguments.readAll init).1.foldl Gathered.note {}) := by
  obtain ⟨s, hs, hm⟩ := take_opening ctx k.mode_entry k.isOperator_opening
  obtain ⟨s', hs', hc⟩ := takeAll_of_openCall? h
  rw [takeAll_cons hs] at hs'
  refine holds_takeAll hm hc ?_ ⟨rfl, rfl, fun _ => rfl, fun hne => absurd rfl hne⟩ hs'
  intro front hfront
  obtain ⟨d, hd⟩ := Option.isSome_iff_exists.1 (k.isSome_openCall? front (hfront.trans hinit))
  obtain ⟨s'', hs'', hd⟩ := takeAll_of_openCall? hd
  rw [takeAll_cons hs] at hs''
  exact ⟨d, by rw [hs'', hd]⟩

/-- A call has gathered what the parts of its tokens come to. -/
theorem holds_settled (hinit : init <+: k.body) (h : k.open? init = some c)
    (hn : c.phase.isNested = false) : c.settled.Holds (gather (parts init)) := by
  obtain ⟨hp, hc⟩ := k.holds_open? hinit h
  rw [gather, parts_eq, List.foldl_append, ← hp]
  exact Call.holds_rest hn hc

theorem exists_open? (hinit : init <+: k.body) : ∃ c, k.open? init = some c :=
  Option.isSome_iff_exists.1 (k.isSome_openCall? init hinit)

/-- The arguments of the call are those gathered from the parts of its body. -/
theorem arguments_eq :
    k.call.arguments = (gather (parts k.body)).arguments ∧
      (CallPhase.arguments.readAll k.body).2.isNested = false := by
  obtain ⟨c, hc, hclosing⟩ := k.take_closing
  obtain ⟨ht, hcall⟩ := Call.take_closed hclosing
  have hn : c.phase.isNested = false := by
    rcases hcall with ⟨hp, -⟩ | ⟨name, line, hp, -⟩ <;> simp [hp, CallPhase.isNested]
  have hcall : k.call.arguments = c.settled.arguments := by
    rcases hcall with ⟨hp, hcall⟩ | ⟨name, line, hp, hcall⟩
    · rw [hcall, Call.settled_of_arguments hp]
    · have hdot : k.closing.isOperator "." = false := by
        simp_all [Token.isOperator]
      rw [hcall, Call.endName_eq_settled hp hdot]
  rw [hcall, ← (k.holds_open? (List.prefix_refl _) hc).1]
  exact ⟨(k.holds_settled (List.prefix_refl _) hc hn).arguments, hn⟩

theorem isFront_of_body_eq {rest : List Token} (hbody : k.body = init ++ rest)
    (hrest : ∀ t ∈ rest.head?, t.isOperator ",")
    (hn : (CallPhase.arguments.readAll init).2.isNested = false) :
    IsFront (parts init) (parts k.body) := by
  cases rest with
  | nil =>
    rw [hbody, List.append_nil]
    exact .inl rfl
  | cons t rest =>
    rw [hbody, parts_append_comma hn (hrest t rfl)]
    exact .inr ⟨_, rfl⟩

theorem exists_body_eq {qs : List Part} (h : IsFront qs (parts k.body)) :
    ∃ init rest, k.body = init ++ rest ∧ (∀ t ∈ rest.head?, t.isOperator ",") ∧
      (CallPhase.arguments.readAll init).2.isNested = false ∧ qs = parts init := by
  rcases h with rfl | ⟨rs, hrs⟩
  · exact ⟨k.body, [], (List.append_nil _).symm, by simp, k.arguments_eq.2, rfl⟩
  · obtain ⟨init, t, us, hbody, ht, hn, hinit⟩ := CallPhase.exists_of_comma hrs
    exact ⟨init, t :: us, hbody, by simpa using ht, hn, hinit.symm⟩

theorem corresponds_iff_isPlain :
    k.Corresponds ↔ ∀ piece ∈ written (parts k.body), IsPlain piece := by
  rw [← forall_matches_iff]
  constructor
  · rintro ⟨-, hfronts⟩ qs hqs
    obtain ⟨init, rest, hbody, hrest, hn, rfl⟩ := k.exists_body_eq hqs
    have hinit : init <+: k.body := ⟨rest, hbody.symm⟩
    obtain ⟨c, hc⟩ := k.exists_open? hinit
    rw [← (k.holds_open? hinit hc).1] at hn
    have hsettled := k.holds_settled hinit hc hn
    rw [Matches, ← hsettled.arguments, ← hsettled.pendingName]
    exact hfronts init rest c hbody hrest hc hn
  · intro hfronts
    refine ⟨?_, fun init rest c hbody hrest hc hn => ?_⟩
    · rw [k.arguments_eq.1]
      exact (hfronts _ (.inl rfl)).2
    · have hinit : init <+: k.body := ⟨rest, hbody.symm⟩
      have hsettled := k.holds_settled hinit hc hn
      rw [(k.holds_open? hinit hc).1] at hn
      rw [hsettled.arguments, hsettled.pendingName]
      exact hfronts _ (k.isFront_of_body_eq hbody hrest hn)

end ClosedCall

/-! ### The fields of a message -/

/-- The texts that a call gives to a message. -/
def Resolved.texts (r : Resolved) : List String :=
  r.id :: r.domain.toList ++ r.pluralId.toList ++ r.context.toList

theorem exists_of_textAt {c : Call} {what s : String} {position : Nat}
    (h : textAt c.positional what position = .ok s) :
    ∃ a ∈ c.arguments, a.value.text? = some s := by
  unfold textAt at h
  split at h
  · next t ht =>
    cases h
    obtain ⟨a, ha, hvalue⟩ := List.mem_map.1 (List.mem_of_getElem? ht)
    exact ⟨a, List.mem_of_mem_filter ha, by rw [hvalue]; rfl⟩
  · cases h

theorem exists_of_optionalTextAt {c : Call} {what : String} {position : Option Nat}
    {text : Option String} (h : optionalTextAt c.positional what position = .ok text) :
    ∀ s ∈ text, ∃ a ∈ c.arguments, a.value.text? = some s := by
  cases position with
  | none =>
    cases h
    simp
  | some position =>
    obtain ⟨s, hs, rfl⟩ := map_eq_ok.1 h
    simpa using exists_of_textAt hs

theorem exists_of_named? {c : Call} {name s : String} (h : c.named? name = some s) :
    ∃ a ∈ c.arguments, a.value.text? = some s := by
  obtain ⟨a, ha, htext⟩ := Option.bind_eq_some_iff.1 h
  exact ⟨a, by simpa using List.mem_of_find?_eq_some ha, htext⟩

theorem exists_of_resolveKeyword {keyword : Keyword} {c : Call} {r : Resolved}
    (h : resolveKeyword keyword c = .ok (.fields r)) :
    ∀ s ∈ r.texts, ∃ a ∈ c.arguments, a.value.text? = some s := by
  unfold resolveKeyword at h
  dsimp only at h
  split at h
  · cases h
  split at h
  · cases h
  obtain ⟨r', hr, hfields⟩ := map_eq_ok.1 h
  cases hfields
  obtain ⟨domain, hdomain, hr⟩ := bind_eq_ok.1 hr
  obtain ⟨id, hid, hr⟩ := bind_eq_ok.1 hr
  obtain ⟨pluralId, hplural, hr⟩ := bind_eq_ok.1 hr
  obtain ⟨context, hcontext, hr⟩ := bind_eq_ok.1 hr
  cases hr
  intro s hs
  simp only [Resolved.texts, List.cons_append, List.mem_cons, List.mem_append,
    Option.mem_toList] at hs
  rcases hs with rfl | (hs | hs) | hs
  · exact exists_of_textAt hid
  · exact exists_of_optionalTextAt hdomain s hs
  · exact exists_of_optionalTextAt hplural s hs
  · exact exists_of_optionalTextAt hcontext s hs

theorem exists_of_resolveUnderscore {c : Call} {r : Resolved}
    (h : resolveUnderscore c = .fields r) :
    ∀ s ∈ r.texts, ∃ a ∈ c.arguments, a.value.text? = some s := by
  unfold resolveUnderscore at h
  dsimp only at h
  split at h
  · cases h
  · next id hid =>
    cases h
    intro s hs
    simp only [Resolved.texts, Option.toList_none, List.append_nil, List.cons_append,
      List.nil_append, List.mem_cons, Option.mem_toList] at hs
    rcases hs with rfl | hs
    · rcases Option.or_eq_some_iff.1 hid with hid | ⟨-, hid⟩
      · exact exists_of_named? hid
      · obtain ⟨v, hv, htext⟩ := Option.bind_eq_some_iff.1 hid
        obtain ⟨a, ha, rfl⟩ := List.mem_map.1 (List.mem_of_getElem? hv)
        exact ⟨a, List.mem_of_mem_filter ha, htext⟩
    · exact exists_of_named? hs

/-- The fields of a message are texts of arguments. -/
theorem exists_of_mem_texts {c : Call} {r : Resolved} (h : resolve ctx c = .ok (.fields r)) :
    ∀ s ∈ r.texts, ∃ a ∈ c.arguments, a.value.text? = some s := by
  unfold resolve at h
  split at h
  · exact exists_of_resolveKeyword h
  · exact exists_of_resolveUnderscore (by simpa using h)

theorem exists_reads_of_mem {ws : List (List Part)} {as : List Argument}
    (h : List.Forall₂ Reads ws as) {a : Argument} (ha : a ∈ as) : ∃ w ∈ ws, Reads w a := by
  induction h with
  | nil => cases ha
  | cons hwa _ ih =>
    rcases List.mem_cons.1 ha with rfl | ha
    · exact ⟨_, List.mem_cons_self, hwa⟩
    · obtain ⟨w, hw, hreads⟩ := ih ha
      exact ⟨w, List.mem_cons_of_mem _ hw, hreads⟩

theorem text?_filter_of_forall₂ {ws : List (List Part)} {as : List Argument}
    (h : List.Forall₂ Reads ws as) :
    ((as.filter fun a => a.name.isNone).map Argument.value).map Value.text? =
      (ws.filter fun w => (splitLabel w).1.isNone).map writtenText? := by
  induction h with
  | nil => rfl
  | @cons w a ws as hwa _ ih =>
    obtain ⟨hname, htext⟩ := hwa
    by_cases hn : a.name.isNone
    · have hw : (splitLabel w).1.isNone := hname ▸ hn
      simp only [List.filter_cons, hn, hw, if_true, List.map_cons, htext, ih]
    · have hw : ¬ (splitLabel w).1.isNone := hname ▸ hn
      simp only [List.filter_cons, hn, hw]
      exact ih

namespace ClosedCall

/-- The arguments of a call correspond to the written ones exactly if each of these is plain. Then
the positions of its keyword count the arguments written without a name, and the fields of a message
are texts of arguments that are strings as a whole. -/
theorem corresponds_iff (k : ClosedCall ctx source) :
    (k.Corresponds ↔ ∀ piece ∈ written (parts k.body), IsPlain piece) ∧
    (k.Corresponds →
      k.call.positional.map Value.text? =
        ((written (parts k.body)).filter fun w => (splitLabel w).1.isNone).map writtenText? ∧
      ∀ r, resolve ctx k.call = .ok (.fields r) → ∀ s ∈ r.texts,
        ∃ piece ∈ written (parts k.body), writtenText? piece = some s) := by
  refine ⟨k.corresponds_iff_isPlain, fun ⟨hreads, _⟩ => ⟨text?_filter_of_forall₂ hreads, ?_⟩⟩
  intro r hr s hs
  obtain ⟨a, ha, htext⟩ := exists_of_mem_texts hr s hs
  obtain ⟨piece, hpiece, hreads⟩ := exists_reads_of_mem hreads ha
  exact ⟨piece, hpiece, hreads.2 ▸ htext⟩

end ClosedCall

theorem isOperator_parenthesis : Token.isOperator ⟨.operator, "(", 1⟩ "(" := rfl

/-- Adjacent strings and a call are one argument each. -/
def adjacentCall : ClosedCall ⟨{}, "a.py", 0⟩ "_('a' 'b', f(x))" where
  before := [⟨.name, "_", 1⟩]
  opening := ⟨.operator, "(", 1⟩
  body := [⟨.string, "'a'", 1⟩, ⟨.string, "'b'", 1⟩, ⟨.operator, ",", 1⟩, ⟨.name, "f", 1⟩,
    ⟨.operator, "(", 1⟩, ⟨.name, "x", 1⟩, ⟨.operator, ")", 1⟩]
  closing := ⟨.operator, ")", 1⟩
  after := [⟨.newline, "", 1⟩]
  entry := { ScanState.start ⟨{}, "a.py", 0⟩ with mode := .named "_" 1 }
  function := "_"
  line := 1
  call :=
    { function := "_"
      line := 1
      arguments := [⟨none, .text "ab"⟩, ⟨none, .dynamic⟩]
      inArgument := true }
  tokens_eq := by decide +kernel
  takeAll_before := by decide +kernel
  mode_entry := rfl
  isOperator_opening := isOperator_parenthesis
  isSome_openCall? := by
    simp only [← List.mem_inits]
    decide +kernel
  take_closing :=
    ⟨{ function := "_"
       line := 1
       arguments := [⟨none, .text "ab"⟩, ⟨none, .dynamic⟩]
       inArgument := true }, by decide +kernel, rfl⟩

theorem corresponds_adjacentCall :
    adjacentCall.Corresponds ∧
      adjacentCall.call.positional.map Value.text? = [some "ab", none] := by
  have hplain : ∀ piece ∈ written (parts adjacentCall.body), IsPlain piece := by
    rw [show written (parts adjacentCall.body) =
      [[.string "'a'", .string "'b'"], [.operand]] by decide +kernel]
    simp only [List.forall_mem_cons]
    exact ⟨isPlain_of_strings (by decide) (by decide),
      isPlain_of_single (show (splitLabel [.operand]).2 = [] ++ Part.operand :: [] from rfl)
        (.inl rfl) (by simp) (by simp), by simp⟩
  have hcorresponds := (ClosedCall.corresponds_iff adjacentCall).1.2 hplain
  exact ⟨hcorresponds, rfl⟩

/-- The strings of a conditional, and the names between them, are arguments of their own. -/
def conditionalCall : ClosedCall ⟨{}, "a.py", 0⟩ "_('a' if x else 'b')" where
  before := [⟨.name, "_", 1⟩]
  opening := ⟨.operator, "(", 1⟩
  body := [⟨.string, "'a'", 1⟩, ⟨.name, "if", 1⟩, ⟨.name, "x", 1⟩, ⟨.name, "else", 1⟩,
    ⟨.string, "'b'", 1⟩]
  closing := ⟨.operator, ")", 1⟩
  after := [⟨.newline, "", 1⟩]
  entry := { ScanState.start ⟨{}, "a.py", 0⟩ with mode := .named "_" 1 }
  function := "_"
  line := 1
  call :=
    { function := "_"
      line := 1
      arguments := [⟨none, .text "a"⟩, ⟨none, .dynamic⟩, ⟨none, .dynamic⟩, ⟨none, .dynamic⟩,
        ⟨none, .text "b"⟩]
      inArgument := true }
  tokens_eq := by decide +kernel
  takeAll_before := by decide +kernel
  mode_entry := rfl
  isOperator_opening := isOperator_parenthesis
  isSome_openCall? := by
    simp only [← List.mem_inits]
    decide +kernel
  take_closing :=
    ⟨{ function := "_"
       line := 1
       arguments := [⟨none, .text "a"⟩, ⟨none, .dynamic⟩, ⟨none, .dynamic⟩, ⟨none, .dynamic⟩,
         ⟨none, .text "b"⟩]
       inArgument := true
       inString := true }, by decide +kernel, rfl⟩

theorem not_forall_reads_conditionalCall :
    ¬ List.Forall₂ Reads (written (parts conditionalCall.body)) conditionalCall.call.arguments ∧
      (scan ⟨{}, "a.py", 0⟩ "_('a' if x else 'b')").toOption.map (·.map Message.id) =
        some ["a"] := by
  refine ⟨fun h => ?_, by decide +kernel⟩
  have hlength : 1 = 5 := h.length_eq
  cases hlength

end PotExtract.Python
