import PotExtract.Proofs.Keyword.Positions
import PotExtract.Python.Scan

/-! Scans in which each read of an argument is checked. Where a keyword names a position, the argument
is read at the index in front of it. A scan whose keywords count their positions from one never reads
an argument that is none, so the checks change nothing. -/

namespace PotExtract.Python

/-- A read of an argument that is none: the index falls below zero, or no argument has it. -/
inductive StrayRead where
  | belowZero
  | notReached (index count : Nat)
  deriving DecidableEq, Repr

/-- What comes of steps that read arguments. A read that strays ends all of them. -/
abbrev Checked (ε α : Type) := ExceptT ε (Except StrayRead) α

namespace Checked

variable {ε α β : Type}

/-- The outcome of steps none of whose reads strays. -/
def ofExcept (x : Except ε α) : Checked ε α :=
  ExceptT.mk (.ok x)

/-- The argument at a position. -/
def valueAt (arguments : List Value) : Nat → Except StrayRead Value
  | 0 => .error .belowZero
  | index + 1 =>
    if h : index < arguments.length then .ok arguments[index]
    else .error (.notReached index arguments.length)

/-- The text at a position. -/
def textAt (arguments : List Value) (what : String) (position : Nat) : Checked Fault String := do
  match ← valueAt arguments position with
  | .text s => return s
  | _ => throw (.notText what)

/-- The text at a position that may be missing. -/
def optionalTextAt (arguments : List Value) (what : String) :
    Option Nat → Checked Fault (Option String)
  | none => return none
  | some position => some <$> textAt arguments what position

/-- The fields that a keyword finds in the values given by position. -/
def fieldsOf (k : Keyword) (arguments : List Value) : Checked Fault Resolved := do
  let domain ← optionalTextAt arguments "Domain" k.domain
  let id ← textAt arguments "Message" k.msgid
  let pluralId ← optionalTextAt arguments "Plural message" k.plural
  let context ← optionalTextAt arguments "Context" k.context
  return { domain, context, id, pluralId, comment := k.comment }

/-- Resolves a call by its keyword. -/
def resolveKeyword (k : Keyword) (c : Call) : Checked Fault Resolution :=
  let arguments := c.positional
  match k.required.filter (· != arguments.length) with
  | some expected => return .wrongCount arguments.length expected
  | none =>
    if (positions k).any (arguments.length < ·) then return .noMessage
    else .fields <$> fieldsOf k arguments

/-- Resolves a closed call by its keyword, or as the underscore. -/
def resolve (ctx : ScanContext) (c : Call) : Checked Fault Resolution :=
  match ctx.options.keywords.get? c.function with
  | some keyword => resolveKeyword keyword c
  | none => return resolveUnderscore c

/-- Takes a call that is closed. -/
def close (s : ScanState) (ctx : ScanContext) (c : Call) : Checked ScanFailure ScanState := do
  match ← (resolve ctx c).adapt (⟨·, c.line⟩) with
  | .wrongCount given expected =>
    return s.remark ctx c.line (.argumentCount c.function given expected)
  | .noMessage => return s
  | .fields r => return s.emit ctx c r

/-- Takes a token of an open call. -/
def takeInCall (s : ScanState) (ctx : ScanContext) (c : Call) (t : Token) :
    Checked ScanFailure ScanState := do
  match ← ofExcept (c.take t) with
  | .more c => return { s with mode := .inCall c }
  | .closed c => close { s with mode := .outside } ctx c

/-- Takes a token that is neither layout nor a comment. -/
def takeSignificant (s : ScanState) (ctx : ScanContext) (t : Token) :
    Checked ScanFailure ScanState :=
  match s.mode with
  | .inCall c => takeInCall { s with inDefinition := t.text == "def" || t.text == "class" } ctx c t
  | _ => ofExcept (s.takeSignificant ctx t)

/-- Takes the next token. -/
def take (s : ScanState) (ctx : ScanContext) (t : Token) : Checked ScanFailure ScanState :=
  if s.isNested then takeSignificant s ctx t
  else if t.kind = .comment then return (s.settleName t).takeComment t
  else if t.isLayout then return s
  else if s.mode = .outside ∧ s.startsCall ctx t then
    return { s with mode := .named t.text t.line, inDefinition := false }
  else takeSignificant s ctx t

/-- Takes tokens in order, up to the first that is not understood. -/
def takeAll (ctx : ScanContext) :
    ScanState → List Token → Except StrayRead (ScanState × Option ScanFailure)
  | s, [] => return (s, none)
  | s, t :: ts => do
    match ← (take s ctx t).run with
    | .ok s => takeAll ctx s ts
    | .error e => return (s, some e)

/-- The state in which a scan of `source` ends, and the failure that ended it, if any. -/
def scanTokens (ctx : ScanContext) (source : Lexed) :
    Except StrayRead (ScanState × Option ScanFailure) := do
  match ← takeAll ctx (.start ctx) source.tokens with
  | (s, some e) => return (s, some e)
  | (s, none) =>
    match source.ending with
    | .ok line => return (s, s.failureAtEnd line)
    | .error e => return (s, some ⟨.lexical e.fault, e.line⟩)

/-- The messages of a source, or the failure with its line, and the remarks made on the way. -/
def scanWithRemarks (ctx : ScanContext) (source : String) :
    Except StrayRead (List Remark × Except ScanFailure (List Message)) := do
  match ← scanTokens ctx (tokenize source) with
  | (s, none) => return (s.remarks, .ok s.messages)
  | (s, some e) => return (s.remarks, .error { e with line := ctx.offset + e.line })

/-! ### Reads in range -/

@[simp] theorem ofExcept_pure (a : α) : (pure a : Checked ε α) = ofExcept (.ok a) := rfl

@[simp] theorem ofExcept_bind (x : Except ε α) (f : α → Except ε β) :
    (ofExcept x >>= fun a => ofExcept (f a)) = ofExcept (x >>= f) := by
  cases x <;> rfl

@[simp] theorem ofExcept_map (x : Except ε α) (f : α → β) :
    f <$> ofExcept x = ofExcept (x.map f) := by
  cases x <;> rfl

end Checked

/-- A position is that of an argument: the index in front of it neither falls below zero nor reaches
the number of the arguments. -/
def IsInRange (arguments : List Value) (position : Nat) : Prop :=
  1 ≤ position ∧ position - 1 < arguments.length

/-- A call is passed over by its keyword: it does not have the number of arguments that is asked for,
or none at one of the positions. -/
def IsPassedOver (k : Keyword) (c : Call) : Prop :=
  resolveKeyword k c = .ok .noMessage ∨
    ∃ expected, resolveKeyword k c = .ok (.wrongCount c.positional.length expected)

/-- Behind the test whether a position exceeds the arguments, all positions are in range. -/
theorem isInRange_of_not_any {k : Keyword} {arguments : List Value} (hk : k.CountsFromOne)
    (h : ¬(positions k).any (arguments.length < ·)) : ∀ p ∈ positions k, IsInRange arguments p := by
  intro p hp
  have hone : 1 ≤ p := hk p hp
  have hlength : p ≤ arguments.length := by
    by_contra hlt
    exact h (List.any_eq_true.2 ⟨p, hp, decide_eq_true (Nat.lt_of_not_le hlt)⟩)
  exact ⟨hone, by omega⟩

theorem isPassedOver_or_isInRange {k : Keyword} (hk : k.CountsFromOne) (c : Call) :
    IsPassedOver k c ∨ ∀ p ∈ positions k, IsInRange c.positional p := by
  cases hcount : k.required.filter (· != c.positional.length) with
  | some expected => exact .inl (.inr ⟨expected, by simp only [resolveKeyword, hcount]⟩)
  | none =>
    by_cases hplaces : (positions k).any (c.positional.length < ·)
    · exact .inl (.inl (by simp only [resolveKeyword, hcount, hplaces, if_true]))
    · exact .inr (isInRange_of_not_any hk hplaces)

namespace Checked

variable {arguments : List Value} {k : Keyword} {ctx : ScanContext}

theorem textAt_eq {position : Nat} (h : IsInRange arguments position) (what : String) :
    textAt arguments what position = ofExcept (Python.textAt arguments what position) := by
  obtain ⟨hone, hlength⟩ := h
  obtain ⟨index, rfl⟩ := Nat.exists_eq_add_of_le' hone
  rw [Nat.add_sub_cancel] at hlength
  simp only [textAt, Python.textAt, valueAt, hlength, dif_pos, Nat.add_sub_cancel,
    List.getElem?_eq_getElem]
  cases arguments[index] <;> rfl

theorem optionalTextAt_eq {position : Option Nat} (h : ∀ p ∈ position, IsInRange arguments p)
    (what : String) :
    optionalTextAt arguments what position =
      ofExcept (Python.optionalTextAt arguments what position) := by
  cases position with
  | none => rfl
  | some p =>
    rw [optionalTextAt, textAt_eq (h p rfl), ofExcept_map]
    rfl

theorem fieldsOf_eq (h : ∀ p ∈ positions k, IsInRange arguments p) :
    fieldsOf k arguments = ofExcept (Python.fieldsOf k arguments) := by
  have hdomain : ∀ p ∈ k.domain, IsInRange arguments p := fun p hp =>
    h p (by simp [positions, Option.mem_def.1 hp])
  have hmsgid : IsInRange arguments k.msgid := h _ (by simp [positions])
  have hplural : ∀ p ∈ k.plural, IsInRange arguments p := fun p hp =>
    h p (by simp [positions, Option.mem_def.1 hp])
  have hcontext : ∀ p ∈ k.context, IsInRange arguments p := fun p hp =>
    h p (by simp [positions, Option.mem_def.1 hp])
  simp only [fieldsOf, optionalTextAt_eq hdomain, textAt_eq hmsgid, optionalTextAt_eq hplural,
    optionalTextAt_eq hcontext, ofExcept_pure, ofExcept_bind]
  rfl

theorem resolveKeyword_eq (hk : k.CountsFromOne) (c : Call) :
    resolveKeyword k c = ofExcept (Python.resolveKeyword k c) := by
  cases hcount : k.required.filter (· != c.positional.length) with
  | some expected =>
    simp only [resolveKeyword, Python.resolveKeyword, hcount]
    rfl
  | none =>
    simp only [resolveKeyword, Python.resolveKeyword, hcount]
    split
    · rfl
    · next hplaces => rw [fieldsOf_eq (isInRange_of_not_any hk hplaces), ofExcept_map]

/-! ### Scans -/

section Scan

variable (hctx : ctx.options.keywords.CountFromOne)
include hctx

theorem resolve_eq (c : Call) : resolve ctx c = ofExcept (ScanState.resolve ctx c) := by
  cases hk : ctx.options.keywords.get? c.function with
  | some k =>
    simp only [resolve, ScanState.resolve, hk]
    exact resolveKeyword_eq (hctx k (List.mem_of_find?_eq_some hk)) c
  | none =>
    simp only [resolve, ScanState.resolve, hk]
    rfl

theorem close_eq (s : ScanState) (c : Call) : close s ctx c = ofExcept (s.close ctx c) := by
  unfold close ScanState.close
  rw [resolve_eq hctx]
  cases ScanState.resolve ctx c with
  | error fault => rfl
  | ok resolution => cases resolution <;> rfl

theorem takeInCall_eq (s : ScanState) (c : Call) (t : Token) :
    takeInCall s ctx c t = ofExcept (s.takeInCall ctx c t) := by
  unfold takeInCall ScanState.takeInCall
  cases c.take t with
  | error e => rfl
  | ok step =>
    cases step with
    | more d => rfl
    | closed d => exact close_eq hctx _ d

theorem takeSignificant_eq (s : ScanState) (t : Token) :
    takeSignificant s ctx t = ofExcept (s.takeSignificant ctx t) := by
  unfold takeSignificant
  split
  · next c hc => rw [takeInCall_eq hctx, ScanState.takeSignificant, hc]
  · rfl

/-- A token is taken as without the checks. -/
theorem take_eq (s : ScanState) (t : Token) : take s ctx t = ofExcept (s.take ctx t) := by
  simp only [take, ScanState.take, takeSignificant_eq hctx, ofExcept_pure, apply_ite ofExcept]

theorem takeAll_eq (s : ScanState) (ts : List Token) :
    takeAll ctx s ts = .ok (ScanState.takeAll ctx s ts) := by
  induction ts generalizing s with
  | nil => rfl
  | cons t ts ih =>
    simp only [takeAll, ScanState.takeAll, take_eq hctx]
    cases s.take ctx t with
    | error e => rfl
    | ok s' => exact ih s'

theorem scanTokens_eq (source : Lexed) :
    scanTokens ctx source = .ok (Python.scanTokens ctx source) := by
  unfold scanTokens Python.scanTokens
  rw [takeAll_eq hctx]
  rcases ScanState.takeAll ctx (.start ctx) source.tokens with ⟨s, _ | e⟩
  · cases source.ending <;> rfl
  · rfl

/-- With keywords that count from one no read of a scan strays. -/
theorem scanWithRemarks_eq (source : String) :
    scanWithRemarks ctx source = .ok (Python.scanWithRemarks ctx source) := by
  unfold scanWithRemarks Python.scanWithRemarks
  rw [scanTokens_eq hctx]
  rcases Python.scanTokens ctx (tokenize source) with ⟨s, _ | e⟩ <;> rfl

end Scan

end Checked

/-- A position zero would stray, were it not refused when the keyword is read. -/
example : Checked.scanWithRemarks ⟨{ keywords := ⟨[{ function := "f", msgid := 0 }]⟩ }, "a.py", 0⟩
    "f('a')" = .error .belowZero := by
  decide +kernel

/-- Behind specifications that are all accepted, whether they extend the default keywords or none, the
positions of every keyword count from one. A call is passed over by its keyword or has an argument at
each of its positions, and to check the reads changes nothing in how a call is resolved, nor in a
scan. -/
theorem isInRange_of_register {ks ks' : Keywords} {specs : List String}
    (hks : ks = .defaults ∨ ks = .empty) (h : ks.register specs = (ks', none)) :
    (∀ k ∈ ks'.toList, (∀ p ∈ positions k, 1 ≤ p) ∧
      ∀ c : Call, (IsPassedOver k c ∨ ∀ p ∈ positions k, IsInRange c.positional p) ∧
        Checked.resolveKeyword k c = Checked.ofExcept (resolveKeyword k c)) ∧
    ∀ (ctx : ScanContext) (source : String), ctx.options.keywords = ks' →
      Checked.scanWithRemarks ctx source = .ok (scanWithRemarks ctx source) := by
  have hstart : ks.CountFromOne := by
    rcases hks with rfl | rfl
    · exact Keywords.countFromOne_defaults
    · exact Keywords.countFromOne_empty
  have hone : ks'.CountFromOne := by
    have hregister := hstart.register specs
    rwa [h] at hregister
  refine ⟨fun k hk => ⟨hone k hk, fun c => ⟨?_, ?_⟩⟩, fun ctx source hctx => ?_⟩
  · exact isPassedOver_or_isInRange (hone k hk) c
  · exact Checked.resolveKeyword_eq (hone k hk) c
  · exact Checked.scanWithRemarks_eq (hctx ▸ hone) source

/-- Specifications that extend the default keywords, remove them all, and replace a keyword. -/
def replacingSpecs : List String :=
  ["tr:3", " ", "tr:1,2t", "dnpgettext:5t,\"menu, 7: 8c\", 2c ,3,1d,4", "tr:2,1c"]

/-- The keywords that are active behind these specifications. -/
def replacedKeywords : Keywords :=
  ⟨[{ function := "dnpgettext", msgid := 3, plural := some 4, domain := some 1, context := some 2,
      required := some 5, comment := "menu, 7: 8c" },
    { function := "tr", msgid := 2, context := some 1 }]⟩

theorem isInRange_of_register_replaced :
    Keywords.defaults.register replacingSpecs = (replacedKeywords, none) ∧
      (∀ p ∈ [2, 1], IsInRange [.text "menu", .dynamic] p) ∧
      Checked.scanWithRemarks ⟨{ keywords := replacedKeywords }, "a.py", 0⟩ "tr('x')\ntr('menu', y)" =
        .ok ([], .error ⟨.notText "Message", 2⟩) := by
  have hregister : Keywords.defaults.register replacingSpecs = (replacedKeywords, none) := by
    decide +kernel
  obtain ⟨hkeyword, hscan⟩ := isInRange_of_register (.inl rfl) hregister
  let call : Call :=
    { function := "tr", line := 1, arguments := [⟨none, .text "menu"⟩, ⟨none, .dynamic⟩] }
  have hreads := (hkeyword _ (List.mem_cons_of_mem _ List.mem_cons_self)).2 call
  refine ⟨hregister, hreads.1.resolve_left ?_, ?_⟩
  · rintro (h | ⟨_, h⟩)
    · cases h
    · cases h
  · rw [hscan _ _ rfl]
    decide +kernel

end PotExtract.Python
