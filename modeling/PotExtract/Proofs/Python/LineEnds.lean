import PotExtract.Proofs.Python.ReturnTokens
import PotExtract.Proofs.Python.LiteralFeeds
import PotExtract.Proofs.Python.BlankLiterals

/-! Line ends of a scanned source. With a carriage return in front of every line feed a source fails
in the same way, and gives the same messages unless a literal in the arguments of a call keeps one
of its line feeds as text. -/

namespace PotExtract.Python

open Text

/-! ### String tokens -/

/-- A string token is a literal of the source. -/
theorem Cursor.exists_read_of_mem_lex (c : Cursor) {t : Token} (ht : t ∈ c.lex.tokens)
    (hk : t.kind = .string) :
    ∃ first rest text lines more, Lexeme.read first rest = some (.string text lines, more) ∧
      t.text = String.ofList text ∧ first :: rest <:+ c.rest := by
  fun_induction lex c with
  | case1 c h =>
    obtain ⟨-, -, h' | h'⟩ := of_mem_finish ht <;> rw [hk] at h' <;> cases h'
  | case2 => cases ht
  | case3 c first rest h tokens next hs _ later ih =>
    have hrest : first :: rest <:+ c.rest := h ▸ List.dropWhile_suffix isGap
    obtain ⟨changes, indents, l, more, hlayout, hread, rfl, rfl⟩ := exists_of_step hs
    rcases List.mem_append.1 ht with ht | ht
    · rcases List.mem_append.1 ht with ht | ht
      · rcases (of_mem_layout hlayout ht).2 with h' | h' <;> rw [hk] at h' <;> cases h'
      · cases l with
        | string text lines =>
          rw [List.mem_singleton.1 ht]
          exact ⟨first, rest, text, lines, more, hread, rfl, hrest⟩
        | joint => cases ht
        | lineEnd =>
          rw [List.mem_singleton.1 ht] at hk
          dsimp only at hk
          split at hk <;> cases hk
        | _ =>
          rw [List.mem_singleton.1 ht] at hk
          cases hk
    · obtain ⟨first', rest', text, lines, more', hread', htext, hsuffix⟩ := ih ht
      refine ⟨first', rest', text, lines, more', hread', htext, ?_⟩
      rw [take_rest] at hsuffix
      obtain ⟨written, hwritten, -⟩ := Lexeme.isWritten_of_read hread
      have hmore : more <:+ first :: rest := ⟨written, hwritten.symm⟩
      exact hsuffix.trans (hmore.trans hrest)

theorem isRead_of_mem_tokenize {source : String} (h : '\r' ∉ source.toList) {t : Token}
    (ht : t ∈ (tokenize source).tokens) (hk : t.kind = .string) :
    Literal.IsRead t.text.toList ∧ '\r' ∉ t.text.toList := by
  obtain ⟨first, rest, text, lines, more, hread, htext, hsuffix⟩ :=
    Cursor.exists_read_of_mem_lex _ ht hk
  rw [htext, String.toList_ofList]
  refine ⟨Lexeme.isRead_of_read hread, fun hr => h (hsuffix.mem ?_)⟩
  obtain ⟨written, hwritten, rfl⟩ := Lexeme.isWritten_of_read hread
  rw [hwritten]
  exact List.mem_append_left more hr

namespace Literal

variable {literal : String} {t : Token}

theorem IsRead.ne (h : IsRead literal.toList) (word : String)
    (hword : word.toList.all fun c => !isQuote c) : literal ≠ word := by
  rintro rfl
  obtain ⟨lead, q, inner, -, hliteral, -⟩ := h
  have hquote := List.all_eq_true.1 hword q.quote (by simp [hliteral, q.enclose_eq_cons])
  rw [q.isQuote_quote] at hquote
  cases hquote

/-- The value of a literal is the same in a source with carriage returns, exactly if the literal
keeps no line feed. -/
theorem ofLiteral_returned_iff (h : IsRead literal.toList) (hreturn : '\r' ∉ literal.toList) :
    Value.ofLiteral (Text.returned literal) = Value.ofLiteral literal ↔
      keepsFeeds literal.toList = false := by
  rw [← decode_withReturns_iff h hreturn]
  have hsome := isSome_decode_withReturns h
  simp only [Value.ofLiteral, decode?, Text.returned, String.toList_ofList]
  cases hd : decode (withReturns literal.toList) with
  | none =>
    cases hd' : decode literal.toList with
    | none => simp
    | some s => simp [hd, hd'] at hsome
  | some s =>
    cases hd' : decode literal.toList with
    | none => simp [hd, hd'] at hsome
    | some s' => simp [String.ofList_inj]

theorem IsRead.isPlainString (h : IsRead t.text.toList) : ScanState.IsPlainString t := by
  intro _
  constructor
  · exact h.ne "def" (by decide)
  · exact h.ne "class" (by decide)

end Literal

namespace ScanState

variable {ctx : ScanContext} {s : ScanState} {t : Token}

/-- Whether a token is a string that becomes a part of an argument. -/
def takesLiteral (s : ScanState) (t : Token) : Bool :=
  t.kind == .string && !s.isNested &&
    match s.mode with
    | .inCall _ => true
    | _ => false

theorem kind_of_takesLiteral (h : s.takesLiteral t) : t.kind = .string := by
  simp only [takesLiteral, Bool.and_eq_true, beq_iff_eq] at h
  exact h.1.1

/-- The string literals in the arguments of calls, outside of nested brackets, up to the first token
that is not understood. -/
def argumentLiterals (ctx : ScanContext) : ScanState → List Token → List String
  | _, [] => []
  | s, t :: ts =>
    (if s.takesLiteral t then [t.text] else []) ++
      match s.take ctx t with
      | .ok s => argumentLiterals ctx s ts
      | .error _ => []

theorem take_congr_string {c : Call} {u : Token} (ht : t.kind = .string) (hu : u.kind = .string)
    (hline : u.line = t.line)
    (hvalue : (∀ opener closer depth, c.phase ≠ .nested opener closer depth) →
      Value.ofLiteral u.text = Value.ofLiteral t.text) : c.take u = c.take t := by
  have hoperator : ∀ op, u.isOperator op = t.isOperator op := by
    intro op
    simp only [Token.isOperator, ht, hu]
    rfl
  have hpart : ∀ d : Call, Value.ofLiteral u.text = Value.ofLiteral t.text →
      d.takePart u = d.takePart t := by
    intro d hv
    simp only [Call.takePart, ht, hu, Call.addString, hv]
  have hname : c.endName u = c.endName t := by
    unfold Call.endName
    rw [hoperator]
  unfold Call.take
  rw [hname, hline]
  cases hp : c.phase with
  | nested opener closer depth => simp only [Call.takeNested, ht, hu, hoperator]
  | arguments =>
    dsimp only
    rw [hpart c (hvalue (by simp [hp]))]
  | afterName name line =>
    dsimp only
    rw [hpart _ (hvalue (by simp [hp]))]
    simp [Token.isOperator, ht, hu]

theorem take_string (hk : t.kind = .string) : s.take ctx t = s.takeSignificant ctx t := by
  simp [take, hk, Token.isLayout, startsCall]

/-- A token is taken alike in a source with carriage returns, if it has the same value. -/
theorem take_returned (ht : IsPlainString t) (ht' : IsPlainString t.returned)
    (hvalue : s.takesLiteral t → Value.ofLiteral t.returned.text = Value.ofLiteral t.text) :
    s.take ctx t.returned = s.take ctx t := by
  by_cases hk : t.kind = .string
  · have hk' : t.returned.kind = .string := by rw [Token.kind_returned, hk]
    obtain ⟨hdef, hclass⟩ := ht hk
    obtain ⟨hdef', hclass'⟩ := ht' hk'
    have hoperator : t.returned.isOperator "(" = t.isOperator "(" := by
      simp only [Token.isOperator, hk, hk']
      rfl
    rw [take_string hk, take_string hk']
    unfold takeSignificant
    rw [beq_false_of_ne hdef, beq_false_of_ne hclass, beq_false_of_ne hdef',
      beq_false_of_ne hclass']
    dsimp only
    cases hm : s.mode with
    | outside => rfl
    | named function line => rw [hoperator]
    | inCall c =>
      have hcall : c.take t.returned = c.take t := by
        refine take_congr_string hk hk' (Token.line_returned t) fun hphase => hvalue ?_
        have hnested : s.isNested = false := by
          rw [Bool.eq_false_iff, Ne, isNested_iff hm]
          rintro ⟨opener, closer, depth, hp⟩
          exact hphase opener closer depth hp
        simp [takesLiteral, hm, hk, hnested]
      simp only [takeInCall, hcall]
  · rw [Token.returned_of_kind_ne hk]

/-- Tokens are taken alike in a source with carriage returns, if the literals in the arguments of
calls have the same values. -/
theorem takeAll_returned (ctx : ScanContext) {ts : List Token}
    (hts : ∀ t ∈ ts, IsPlainString t ∧ IsPlainString t.returned)
    (hvalue : ∀ literal ∈ argumentLiterals ctx s ts,
      Value.ofLiteral (Text.returned literal) = Value.ofLiteral literal) :
    takeAll ctx s (ts.map Token.returned) = takeAll ctx s ts := by
  induction ts generalizing s with
  | nil => rfl
  | cons t ts ih =>
    obtain ⟨hplain, hplain'⟩ := hts t List.mem_cons_self
    have htake : s.take ctx t.returned = s.take ctx t := by
      refine take_returned hplain hplain' fun hliteral => ?_
      have hk := kind_of_takesLiteral hliteral
      have htext : t.returned.text = Text.returned t.text := by simp [Token.returned, hk]
      rw [htext]
      exact hvalue t.text (by simp [argumentLiterals, hliteral])
    simp only [List.map_cons, takeAll, htake]
    cases h : s.take ctx t with
    | error e => rfl
    | ok u =>
      refine ih (fun v hv => hts v (List.mem_cons_of_mem t hv)) fun literal hliteral => ?_
      exact hvalue literal (by simp [argumentLiterals, h, hliteral])

end ScanState

/-- The string literals in the arguments of the calls of a source, outside of nested brackets. -/
def argumentLiterals (ctx : ScanContext) (source : String) : List String :=
  ScanState.argumentLiterals ctx (.start ctx) (tokenize source).tokens

variable {ctx : ScanContext} {source : String}

/-- Scans that end in the same failure, or in none, give the same errors. -/
theorem scan_eq_error_congr {source' : String}
    (h : (scanTokens ctx (tokenize source)).2 = (scanTokens ctx (tokenize source')).2)
    (e : ScanFailure) : scan ctx source = .error e ↔ scan ctx source' = .error e := by
  rw [scan_eq, scan_eq, h]
  cases (scanTokens ctx (tokenize source')).2 with
  | some e => exact Iff.rfl
  | none => simp

theorem exists_of_mem_argumentLiterals {s : ScanState} {ts : List Token} {literal : String}
    (h : literal ∈ ScanState.argumentLiterals ctx s ts) :
    ∃ t ∈ ts, t.kind = .string ∧ t.text = literal := by
  induction ts generalizing s with
  | nil => cases h
  | cons t ts ih =>
    rw [ScanState.argumentLiterals, List.mem_append] at h
    rcases h with h | h
    · split at h
      · next hliteral =>
        rw [List.mem_singleton.1 h]
        exact ⟨t, List.mem_cons_self, ScanState.kind_of_takesLiteral hliteral, rfl⟩
      · cases h
    · split at h
      · obtain ⟨u, hu, hk, htext⟩ := ih h
        exact ⟨u, List.mem_cons_of_mem t hu, hk, htext⟩
      · cases h

theorem isPlainString_tokenize (h : '\r' ∉ source.toList) {t : Token}
    (ht : t ∈ (tokenize source).tokens) :
    ScanState.IsPlainString t ∧ ScanState.IsPlainString t.returned ∧
      t.returned.blank = t.blank := by
  by_cases hk : t.kind = .string
  · obtain ⟨hread, -⟩ := isRead_of_mem_tokenize h ht hk
    have hreturned : t.returned.text.toList = withReturns t.text.toList := by
      simp [Token.returned, hk, Text.returned]
    have hread' : Literal.IsRead t.returned.text.toList := by
      rw [hreturned]
      exact hread.withReturns
    have hsome : (Literal.decode? t.returned.text).isSome = (Literal.decode? t.text).isSome := by
      simp only [Literal.decode?, Option.isSome_map, hreturned,
        Literal.isSome_decode_withReturns hread]
    refine ⟨hread.isPlainString, hread'.isPlainString, ?_⟩
    simp only [Token.blank, Token.kind_returned, Token.line_returned, hk, hsome, if_true]
  · have hplain : ScanState.IsPlainString t := fun hs => absurd hs hk
    rw [Token.returned_of_kind_ne hk]
    exact ⟨hplain, hplain, rfl⟩

/-- What carriage returns in front of the line feeds of a source do to its scan. It fails in the
same way or not at all. Exactly those literals in the arguments of calls have another value that
keep a line feed as text, and if there are none, the messages are the same. -/
theorem scan_returned (ctx : ScanContext) (source : String) (h : '\r' ∉ source.toList) :
    (∀ e, scan ctx (Text.returned source) = .error e ↔ scan ctx source = .error e) ∧
      (∀ literal ∈ argumentLiterals ctx source,
        Value.ofLiteral (Text.returned literal) = Value.ofLiteral literal ↔
          Literal.keepsFeeds literal.toList = false) ∧
      ((∀ literal ∈ argumentLiterals ctx source, Literal.keepsFeeds literal.toList = false) →
        scan ctx (Text.returned source) = scan ctx source) := by
  have hplain := fun t ht => isPlainString_tokenize h (t := t) ht
  have hvalue : ∀ literal ∈ argumentLiterals ctx source,
      (Value.ofLiteral (Text.returned literal) = Value.ofLiteral literal ↔
        Literal.keepsFeeds literal.toList = false) := by
    intro literal hliteral
    obtain ⟨t, ht, hk, rfl⟩ := exists_of_mem_argumentLiterals hliteral
    obtain ⟨hread, hreturn⟩ := isRead_of_mem_tokenize h ht hk
    exact Literal.ofLiteral_returned_iff hread hreturn
  refine ⟨fun e => ?_, hvalue, fun hkeeps => ?_⟩
  · apply scan_eq_error_congr
    have hblank : ((tokenize source).tokens.map Token.returned).map Token.blank =
        (tokenize source).tokens.map Token.blank := by
      rw [List.map_map]
      exact List.map_congr_left fun t ht => (hplain t ht).2.2
    rw [tokenize_returned h, ← scanTokens_blank ctx (tokenize source) fun t ht => (hplain t ht).1,
      ← scanTokens_blank]
    · dsimp only
      rw [hblank]
    · intro t ht
      obtain ⟨u, hu, rfl⟩ := List.mem_map.1 ht
      exact (hplain u hu).2.1
  · have htake := ScanState.takeAll_returned ctx (s := .start ctx)
      (fun t ht => ⟨(hplain t ht).1, (hplain t ht).2.1⟩)
      fun literal hliteral => (hvalue literal hliteral).2 (hkeeps literal hliteral)
    have hscan : scanTokens ctx (tokenize (Text.returned source)) =
        scanTokens ctx (tokenize source) := by
      simp only [tokenize_returned h, scanTokens, htake]
    simp only [scan, scanWithRemarks, hscan]

/-- An escaped line feed is no part of the text, and both scans find the same message. -/
theorem scan_returned_escapedFeed :
    scan ⟨{}, "a.py", 0⟩ (Text.returned "x = 1\n_('a\\\nb')\n") =
        scan ⟨{}, "a.py", 0⟩ "x = 1\n_('a\\\nb')\n" ∧
      (scan ⟨{}, "a.py", 0⟩ "x = 1\n_('a\\\nb')\n").toOption.map (·.map Message.id) =
        some ["ab"] := by
  refine ⟨(scan_returned ⟨{}, "a.py", 0⟩ "x = 1\n_('a\\\nb')\n" (by decide)).2.2 ?_, ?_⟩
  · decide +kernel
  · decide +kernel

/-- A line feed between triple quotes is part of the message, and so is the carriage return. -/
theorem scan_returned_ne : ¬∀ (ctx : ScanContext) (source : String), '\r' ∉ source.toList →
    scan ctx (Text.returned source) = scan ctx source := by
  intro hall
  have hsame := hall ⟨{}, "a.py", 0⟩ "_('''a\nb''')" (by decide)
  have hids :
      (scan ⟨{}, "a.py", 0⟩ (Text.returned "_('''a\nb''')")).toOption.map (·.map Message.id) ≠
      (scan ⟨{}, "a.py", 0⟩ "_('''a\nb''')").toOption.map (·.map Message.id) := by
    decide +kernel
  exact hids (by rw [hsame])

end PotExtract.Python
