import PotExtract.Proofs.Python.Scanning
import PotExtract.Proofs.Outcome
import PotExtract.Proofs.Python.Lexing
import PotExtract.Proofs.Python.Quoting

/-! A call of the underscore with string literals side by side. White space and comments may stand
between them, and the message of the call is the text they spell together. -/

namespace PotExtract.Python

open Lexeme

/-- What may stand between two literals: white space, a line feed, or a comment with its line
feed. -/
inductive Filler where
  | space
  | tab
  | lineFeed
  | comment (body : List Char) (oneLine : ∀ c ∈ body, isLineEnd c = false)

/-- The filler as it is written. -/
def Filler.text : Filler → List Char
  | .space => [' ']
  | .tab => ['\t']
  | .lineFeed => ['\n']
  | .comment body _ => '#' :: body ++ ['\n']

/-- One filler or more. -/
structure Separator where
  first : Filler
  others : List Filler

/-- The separator as it is written. -/
def Separator.text (s : Separator) : List Char :=
  s.first.text ++ s.others.flatMap Filler.text

/-- A text with the way it is quoted. -/
structure Quoted where
  text : List Char
  quoting : Quoting

/-- The literal of the text. -/
def Quoted.write (l : Quoted) : List Char :=
  l.quoting.write l.text

/-- Literals side by side: the first one, and the others with what separates them from it. -/
structure StringRow where
  first : Quoted
  others : List (Separator × Quoted)

namespace StringRow

/-- The row as it is written. -/
def write (r : StringRow) : List Char :=
  r.first.write ++ r.others.flatMap fun (s, l) => s.text ++ l.write

/-- The text that the literals spell together. -/
def text (r : StringRow) : List Char :=
  r.first.text ++ r.others.flatMap fun (_, l) => l.text

end StringRow

/-! ### The tokens of a row -/

/-- Whether a token says nothing of the arguments of a call. -/
def Token.IsIdle (t : Token) : Prop :=
  t.kind = .comment ∨ t.isLayout

namespace Cursor

theorem yields_enclosed {c : Cursor} {q : Quoting} {t s tail : List Char} (h : q.Escapes t s)
    (hc : 0 < c.depth) (hrest : c.rest = q.enclose t ++ tail)
    (ht : ∀ d ∈ tail.head?, d ≠ q.quote) :
    ∃ n, c.Yields [⟨.string, String.ofList (q.enclose t), c.line⟩]
      (c.take (.string (q.enclose t) n) tail).2 := by
  obtain ⟨n, hr⟩ := h.read ht
  have hgap : isGap q.quote = false := by
    rcases q.isQuote with hq | hq <;> rw [hq] <;> decide
  rw [Quoting.enclose_eq_cons] at hrest
  exact ⟨n, yields_element (isSettled_of_depth hc) hrest hgap hr⟩

theorem yields_literal {c : Cursor} (l : Quoted) {tail : List Char} (hc : 0 < c.depth)
    (hrest : c.rest = l.write ++ tail) (ht : ∀ d ∈ tail.head?, d ≠ l.quoting.quote) :
    ∃ line d, c.Yields [⟨.string, String.ofList l.write, line⟩] d ∧ d.rest = tail ∧
      d.depth = c.depth := by
  obtain ⟨n, hy⟩ := yields_enclosed (l.quoting.escapes_escape l.text) hc hrest ht
  exact ⟨c.line, _, hy, take_rest c _ _, depth_take _ (by simp)⟩

theorem yields_lineFeed {c : Cursor} {tail : List Char} (hc : 0 < c.depth)
    (hrest : c.rest = '\n' :: tail) :
    ∃ t d, c.Yields [t] d ∧ t.IsIdle ∧ d.rest = tail ∧ d.depth = c.depth := by
  have hr : Lexeme.read '\n' tail = some (.lineEnd, tail) := by
    simp [Lexeme.read, isLineEnd, afterLineEnd]
  refine ⟨_, _, yields_element (isSettled_of_depth hc) hrest (by decide) hr, .inr ?_,
    take_rest c _ _, depth_take _ (by simp)⟩
  simp [Token.isLayout, Nat.ne_of_gt hc]

theorem yields_filler {c : Cursor} (f : Filler) {tail : List Char} (hc : 0 < c.depth)
    (hrest : c.rest = f.text ++ tail) :
    ∃ ts d, c.Yields ts d ∧ (∀ t ∈ ts, t.IsIdle) ∧ d.rest = tail ∧ d.depth = c.depth := by
  cases f with
  | space => exact ⟨[], _, yields_gap hc hrest (by decide), by simp, rfl, rfl⟩
  | tab => exact ⟨[], _, yields_gap hc hrest (by decide), by simp, rfl, rfl⟩
  | lineFeed =>
    obtain ⟨t, d, hy, ht, hd⟩ := yields_lineFeed hc hrest
    exact ⟨[t], d, hy, by simpa using ht, hd⟩
  | comment body oneLine =>
    have htake : (body ++ '\n' :: tail).takeWhile (!isLineEnd ·) = body := by
      rw [List.takeWhile_append_of_pos (by simpa using oneLine)]
      simp [isLineEnd]
    have hdrop : (body ++ '\n' :: tail).dropWhile (!isLineEnd ·) = '\n' :: tail := by
      rw [List.dropWhile_append_of_pos (by simpa using oneLine)]
      simp [isLineEnd]
    have hr : Lexeme.read '#' (body ++ '\n' :: tail) =
        some (.comment ('#' :: body), '\n' :: tail) := by
      rw [Lexeme.read, if_pos rfl, htake, hdrop]
    have hcomment := yields_element (isSettled_of_depth hc) (by simpa [Filler.text] using hrest)
      (by decide) hr
    obtain ⟨t, d, hy, ht, hrest', hdepth⟩ :=
      yields_lineFeed (c := (c.take (.comment ('#' :: body)) ('\n' :: tail)).2) hc rfl
    refine ⟨_, d, hcomment.trans hy, ?_, hrest', hdepth⟩
    intro u hu
    rcases List.mem_append.1 hu with hu | hu
    · rw [List.mem_singleton.1 hu]
      exact .inl rfl
    · rw [List.mem_singleton.1 hu]
      exact ht

theorem yields_fillers {c : Cursor} (fs : List Filler) {tail : List Char} (hc : 0 < c.depth)
    (hrest : c.rest = fs.flatMap Filler.text ++ tail) :
    ∃ ts d, c.Yields ts d ∧ (∀ t ∈ ts, t.IsIdle) ∧ d.rest = tail ∧ d.depth = c.depth := by
  induction fs generalizing c with
  | nil => exact ⟨[], c, .refl c, by simp, by simpa using hrest, rfl⟩
  | cons f fs ih =>
    rw [List.flatMap_cons, List.append_assoc] at hrest
    obtain ⟨ts, d, hy, hts, hd, hdepth⟩ := yields_filler f hc hrest
    obtain ⟨us, e, hy', hus, he, hdepth'⟩ := ih (hdepth ▸ hc) hd
    refine ⟨ts ++ us, e, hy.trans hy', ?_, he, hdepth'.trans hdepth⟩
    intro t ht
    exact (List.mem_append.1 ht).elim (hts t) (hus t)

end Cursor

/-! ### The scan of a row -/

namespace ScanState

variable {ctx : ScanContext} {s : ScanState} {c : Call}

/-- The scan is inside of the first call of a source, which has come as far as `c` and expects a
part of an argument. -/
structure Collects (s : ScanState) (c : Call) : Prop where
  mode : s.mode = .inCall c
  phase : c.phase = .arguments
  noMessages : s.messages = []
  noLine : s.lastLine = none

theorem Collects.isNested (h : s.Collects c) : s.isNested = false := by
  simp [ScanState.isNested, h.mode, h.phase]

theorem Collects.take_idle (ctx : ScanContext) {t : Token} (h : s.Collects c) (ht : t.IsIdle) :
    ∃ s', s.take ctx t = .ok s' ∧ s'.Collects c := by
  rcases ht with ht | ht
  · have hsettle : s.settleName t = s := by simp [settleName, h.mode, h.phase]
    refine ⟨s.takeComment t, by simp [take, h.isNested, ht, hsettle], ?_⟩
    -- no call has given a message, so the comment goes to none
    have : s.takeComment t = { s with comments := (s.takeComment t).comments } := by
      simp only [takeComment, CommentCollector.collect, h.noLine]
      cases CommentCollector.note? s.comments.policy t.text t.line <;> rfl
    rw [this]
    exact ⟨h.mode, h.phase, h.noMessages, h.noLine⟩
  · have hk : t.kind ≠ .comment := by
      intro hk
      simp [Token.isLayout, hk] at ht
    exact ⟨s, by simp [take, h.isNested, hk, ht], h⟩

theorem Collects.takeAll_idle (ctx : ScanContext) {ts : List Token} (h : s.Collects c)
    (hts : ∀ t ∈ ts, t.IsIdle) :
    ∃ s', takeAll ctx s ts = (s', none) ∧ s'.Collects c := by
  induction ts generalizing s with
  | nil => exact ⟨s, rfl, h⟩
  | cons t ts ih =>
    obtain ⟨s', hs', h'⟩ := h.take_idle ctx (hts t (by simp))
    obtain ⟨s'', hs'', h''⟩ := ih h' fun u hu => hts u (by simp [hu])
    exact ⟨s'', by rw [takeAll_cons hs', hs''], h''⟩

theorem Collects.take_string (ctx : ScanContext) (literal : String) (line : Nat)
    (h : s.Collects c) :
    ∃ s', s.take ctx ⟨.string, literal, line⟩ = .ok s' ∧ s'.Collects (c.addString literal) := by
  have hphase : (c.addString literal).phase = .arguments := by
    rw [← h.phase]
    unfold Call.addString
    split <;> rfl
  refine ⟨{ s with
      mode := .inCall (c.addString literal)
      inDefinition := literal == "def" || literal == "class" },
    ?_, rfl, hphase, h.noMessages, h.noLine⟩
  simp [take, h.isNested, h.mode, h.phase, Token.isLayout, takeSignificant, takeInCall, Call.take,
    Call.takePart, mapError_ok, bind, Except.bind, pure, Except.pure]

/-- The call of the underscore on the first line behind literals that spell `text`. -/
def rowCall (text : List Char) : Call :=
  { function := underscore
    line := 1
    arguments := [⟨none, .text (String.ofList text)⟩]
    inArgument := true
    inString := true }

theorem addString_rowCall (text : List Char) (l : Quoted) :
    (rowCall text).addString (String.ofList l.write) = rowCall (text ++ l.text) := by
  simp [Call.addString, rowCall, Quoted.write, Value.ofLiteral_write, Value.append,
    String.ofList_append]

theorem addString_first {q : Quoting} {t text : List Char} (h : q.Escapes t text) :
    ({ function := underscore, line := 1 } : Call).addString (String.ofList (q.enclose t)) =
      rowCall text := by
  simp [Call.addString, Call.addArgument, rowCall, Value.ofLiteral_enclose h]

theorem not_quote_head (others : List (Separator × Quoted)) (tail : List Char) (q : Quoting) :
    ∀ d ∈ ((others.flatMap fun (s, l) => s.text ++ l.write) ++ ')' :: tail).head?,
      d ≠ q.quote := by
  have hq : ∀ d, d ≠ '"' → d ≠ '\'' → d ≠ q.quote := by
    intro d h1 h2
    rcases q.isQuote with h | h <;> rwa [h]
  intro d hd
  rcases others with _ | ⟨⟨⟨first, fs⟩, l⟩, others⟩
  · cases hd
    exact hq _ (by decide) (by decide)
  · cases first <;> cases hd <;> exact hq _ (by decide) (by decide)

/-- The literals behind the first one, with what separates them, lead the scan to the text that they
spell together. -/
theorem yields_others {c : Cursor} (others : List (Separator × Quoted)) {tail : List Char}
    (hc : 0 < c.depth)
    (hrest : c.rest = (others.flatMap fun (s, l) => s.text ++ l.write) ++ ')' :: tail) :
    ∃ ts d, c.Yields ts d ∧ d.rest = ')' :: tail ∧ d.depth = c.depth ∧
      ∀ ctx s text, Collects s (rowCall text) → ∃ s', takeAll ctx s ts = (s', none) ∧
        s'.Collects (rowCall (text ++ others.flatMap fun (_, l) => l.text)) := by
  induction others generalizing c with
  | nil =>
    refine ⟨[], c, .refl c, by simpa using hrest, rfl, fun ctx s text h => ⟨s, rfl, ?_⟩⟩
    simpa using h
  | cons other others ih =>
    obtain ⟨separator, l⟩ := other
    simp only [List.flatMap_cons, List.append_assoc] at hrest
    obtain ⟨gap, d, hgap, hidle, hd, hdepth⟩ :=
      Cursor.yields_fillers (separator.first :: separator.others) hc (by
        rwa [List.flatMap_cons])
    obtain ⟨line, e, hliteral, he, hdepth'⟩ :=
      Cursor.yields_literal l (hdepth ▸ hc) hd (not_quote_head others tail l.quoting)
    obtain ⟨ts, f, hts, hf, hdepth'', hscan⟩ := ih (hdepth'.trans hdepth ▸ hc) he
    refine ⟨gap ++ (⟨.string, String.ofList l.write, line⟩ :: ts), f, hgap.trans (hliteral.trans hts),
      hf, hdepth''.trans (hdepth'.trans hdepth), fun ctx s text h => ?_⟩
    obtain ⟨s₁, htake₁, h₁⟩ := h.takeAll_idle ctx hidle
    obtain ⟨s₂, htake₂, h₂⟩ := h₁.take_string ctx (String.ofList l.write) line
    rw [addString_rowCall] at h₂
    obtain ⟨s₃, htake₃, h₃⟩ := hscan ctx s₂ _ h₂
    rw [List.append_assoc] at h₃
    exact ⟨s₃, by rw [takeAll_append htake₁, takeAll_cons htake₂, htake₃], h₃⟩

/-- The closing parenthesis turns a row with a text into a message, if the underscore is no
keyword. -/
theorem Collects.take_close (line : Nat) {text : List Char} (h : s.Collects (rowCall text))
    (hkey : ctx.options.keywords.contains underscore = false) (hne : text ≠ []) :
    ∃ s' m, s.take ctx ⟨.operator, ")", line⟩ = .ok s' ∧ s'.mode = .outside ∧ s'.messages = [m] ∧
      m.id = String.ofList text ∧ m.context = none ∧ m.pluralId = none := by
  have hget : ctx.options.keywords.get? underscore = none := by
    simpa [Keywords.contains] using hkey
  let resolved : Resolved := { context := none, id := String.ofList text, comment := "" }
  have hresolve : resolve ctx { rowCall text with inString := false } = .ok (.fields resolved) := by
    simp [resolve, rowCall, hget, resolveUnderscore, Call.named?, Call.positional, Value.text?,
      resolved]
  have hid : resolved.id.isEmpty = false := by
    simpa [resolved, String.isEmpty_iff] using hne
  have htake : s.take ctx ⟨.operator, ")", line⟩ =
      ({ s with mode := .outside, inDefinition := false } : ScanState).close ctx
        { rowCall text with inString := false } := by
    simp [take, h.isNested, h.mode, Token.isLayout, takeSignificant, takeInCall, Call.take,
      Call.takePart, Call.takeOperator, h.phase, mapError_ok, bind, Except.bind]
  -- a message without a domain is wanted in every domain
  have hwanted : (messageOf ctx s.comments 1 resolved).matchesDomain ctx.options.domain := by
    cases hd : ctx.options.domain <;> simp [messageOf, resolved, Message.matchesDomain]
  refine ⟨{ s with
      mode := .outside
      inDefinition := false
      messages := s.messages ++ [messageOf ctx s.comments 1 resolved]
      lastLine := some 1 }, messageOf ctx s.comments 1 resolved, ?_, rfl, ?_, rfl, rfl, rfl⟩
  · rw [htake, close, hresolve]
    simp only [emit, hid, Bool.false_eq_true, if_false]
    exact congrArg Except.ok (if_pos hwanted)
  · simp [h.noMessages]

/-- The name of the underscore and a parenthesis open a call. -/
theorem takeAll_open (ctx : ScanContext) :
    ∃ s, takeAll ctx (.start ctx) [⟨.name, "_", 1⟩, ⟨.operator, "(", 1⟩] = (s, none) ∧
      s.Collects { function := underscore, line := 1 } := by
  refine ⟨{ ScanState.start ctx with
    mode := .inCall { function := underscore, line := 1 } }, ?_, rfl, rfl, rfl, rfl⟩
  have hname : (start ctx).take ctx ⟨.name, "_", 1⟩ =
      .ok { start ctx with mode := .named "_" 1 } := by
    simp [take, start, isNested, Token.isLayout, startsCall, underscore]
  rw [takeAll_cons hname]
  rfl

end ScanState

/-- The place behind the opening parenthesis of a call of the underscore. -/
def insideCall (body : List Char) : Cursor :=
  { rest := body ++ [')'], depth := 1, atLineStart := false, inStatement := true }

theorem read_underscore (s : List Char) :
    Lexeme.read '_' ('(' :: s) = some (.name ['_'], '(' :: s) := by
  have h : isNameStart '_' ∧ isNameChar '_' ∧ isNameChar '(' = false := by decide
  simp [Lexeme.read, readName, isLineEnd, h]

/-- A call of the underscore is read as its name, what stands between the parentheses, and these. -/
theorem tokenize_call {body : List Char} {ts : List Token} {d : Cursor}
    (hy : (insideCall body).Yields ts d) (hrest : d.rest = [')']) (hdepth : d.depth = 1) :
    tokenize (String.ofList ('_' :: '(' :: body ++ [')'])) =
      ⟨[⟨.name, "_", 1⟩, ⟨.operator, "(", 1⟩] ++ (ts ++ ⟨.operator, ")", d.line⟩ ::
        ⟨.newline, "", d.line⟩ :: d.indents.map fun _ => ⟨.dedent, "", d.line⟩), .ok d.line⟩ := by
  let source : Cursor := { rest := '_' :: '(' :: body ++ [')'] }
  let behindName := (source.take (.name ['_']) ('(' :: body ++ [')'])).2
  have hname : source.Yields [⟨.name, "_", 1⟩] behindName :=
    Cursor.yields_element (c := source) rfl rfl (by decide) (read_underscore _)
  have hopen : behindName.Yields [⟨.operator, "(", 1⟩] (insideCall body) :=
    Cursor.yields_bracket rfl rfl (by decide)
  let behind := (d.take (.operator [')']) []).2
  have hclose : d.Yields [⟨.operator, ")", d.line⟩] behind :=
    Cursor.yields_bracket (Cursor.isSettled_of_depth (by omega)) hrest (by decide)
  have hlex := (hname.trans hopen).trans (hy.trans hclose)
  have hend : behind.lex = behind.finish := Cursor.lex_of_nil rfl
  have hzero : behind.depth = 0 := by
    show d.depth - 1 = 0
    omega
  have hfinish : behind.finish = ⟨⟨.newline, "", d.line⟩ ::
      d.indents.map fun _ => ⟨.dedent, "", d.line⟩, .ok d.line⟩ := by
    rw [Cursor.finish, if_neg (by omega)]
    rfl
  rw [tokenize, String.toList_ofList]
  show source.lex = _
  rw [hlex, hend, hfinish]
  simp

/-- A call of the underscore gives one message, whose id is the text that the literals between its
parentheses spell together. -/
theorem scan_call {ctx : ScanContext} (hkey : ctx.options.keywords.contains underscore = false)
    {body text : List Char} (hne : text ≠ []) {ts : List Token} {d : Cursor}
    (hy : (insideCall body).Yields ts d) (hrest : d.rest = [')']) (hdepth : d.depth = 1)
    (hscan : ∀ s : ScanState, s.Collects { function := underscore, line := 1 } →
      ∃ s', ScanState.takeAll ctx s ts = (s', none) ∧ s'.Collects (ScanState.rowCall text)) :
    ∃ m, scan ctx (String.ofList ('_' :: '(' :: body ++ [')'])) = .ok [m] ∧
      m.id = String.ofList text ∧ m.context = none ∧ m.pluralId = none := by
  obtain ⟨s₁, htake₁, h₁⟩ := ScanState.takeAll_open ctx
  obtain ⟨s₂, htake₂, h₂⟩ := hscan s₁ h₁
  obtain ⟨s₃, m, htake₃, hmode, hmessages, hid, hcontext, hplural⟩ := h₂.take_close d.line hkey hne
  have hnested : s₃.isNested = false := by simp [ScanState.isNested, hmode]
  refine ⟨m, ?_, hid, hcontext, hplural⟩
  have htokens := tokenize_call hy hrest hdepth
  have hcall : ScanState.takeAll ctx (.start ctx)
      (tokenize (String.ofList ('_' :: '(' :: body ++ [')']))).tokens = (s₃, none) := by
    rw [htokens]
    refine ScanState.takeAll_trans htake₁ (ScanState.takeAll_trans htake₂ ?_)
    rw [ScanState.takeAll_cons htake₃, ScanState.takeAll_layout hnested]
    intro t ht
    rcases List.mem_cons.1 ht with rfl | ht
    · rfl
    · obtain ⟨_, -, rfl⟩ := List.mem_map.1 ht
      rfl
  rw [scan_of_takeAll d.line hcall (by rw [htokens]) hmode, hmessages]

/-- A call of the underscore with literals side by side, whatever separates them, gives one message,
whose id is the text that the literals spell together. -/
theorem scan_stringRow (ctx : ScanContext)
    (hkey : ctx.options.keywords.contains underscore = false) (r : StringRow) (hne : r.text ≠ []) :
    ∃ m, scan ctx (String.ofList ('_' :: '(' :: r.write ++ [')'])) = .ok [m] ∧
      m.id = String.ofList r.text ∧ m.context = none ∧ m.pluralId = none := by
  obtain ⟨line, d, hfirst, hd, hdepth⟩ := Cursor.yields_literal (c := insideCall r.write) r.first
    Nat.one_pos (List.append_assoc _ _ _) (ScanState.not_quote_head r.others [] r.first.quoting)
  obtain ⟨ts, e, hothers, he, hdepth', hscan⟩ :=
    ScanState.yields_others r.others (by rw [hdepth]; exact Nat.one_pos) hd
  refine scan_call hkey hne (hfirst.trans hothers) he (hdepth'.trans hdepth) fun s hs => ?_
  obtain ⟨s₁, htake₁, h₁⟩ := hs.take_string ctx (String.ofList r.first.write) line
  have hfirstCall := ScanState.addString_first
    (r.first.quoting.escapes_escape r.first.text)
  rw [Quoted.write, ← Quoting.enclose_escape, hfirstCall] at h₁
  obtain ⟨s₂, htake₂, h₂⟩ := hscan ctx s₁ _ h₁
  exact ⟨s₂, ScanState.takeAll_trans (ScanState.takeAll_singleton htake₁) htake₂, h₂⟩

theorem scan_stringRow_twoQuotes :
    ∃ m, scan ⟨{}, "a.py", 0⟩ "_('it' \"\"\"'s\"\"\")" = .ok [m] ∧ m.id = "it's" ∧
      m.context = none ∧ m.pluralId = none :=
  scan_stringRow ⟨{}, "a.py", 0⟩ (by decide)
    ⟨⟨['i', 't'], ⟨'\'', false, by decide⟩⟩,
      [(⟨.space, []⟩, ⟨['\'', 's'], ⟨'"', true, by decide⟩⟩)]⟩
    (by decide)

end PotExtract.Python
