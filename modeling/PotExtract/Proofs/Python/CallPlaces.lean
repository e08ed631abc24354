import PotExtract.Proofs.Python.FindingLines
import PotExtract.Proofs.Python.Passages
import PotExtract.Proofs.Python.WrittenLines

/-! Where calls stand in a source. The line of a message is that of the function of its call, and
behind as many line feeds as it says, the text goes on with the name of that function. -/

namespace PotExtract.Python

open Text

namespace Cursor

variable {c d : Cursor} {t : Token} {ts us : List Token}

theorem line_take_eq (c : Cursor) (l : Lexeme) (rest : List Char) :
    (c.take l rest).2.line = c.line + l.linesTaken := by
  cases l <;> rfl

theorem eq_name_of_mem_take {l : Lexeme} {rest : List Char} (h : t ∈ (c.take l rest).1)
    (hname : t.kind = .name) :
    ∃ text, l = .name text ∧ t = ⟨.name, String.ofList text, c.line⟩ := by
  cases l with
  | name text => exact ⟨text, rfl, List.mem_singleton.1 h⟩
  | joint => cases h
  | lineEnd =>
    rw [List.mem_singleton.1 h] at hname
    dsimp only at hname
    split at hname <;> cases hname
  | _ =>
    rw [List.mem_singleton.1 h] at hname
    cases hname

/-- The name `t` stands at `front ++ t.text ++ behind`, where the tokens `ts` are in front of it and
the tokens `us` behind it. -/
structure HasName (c : Cursor) (ts : List Token) (t : Token) (us : List Token)
    (front behind : List Char) : Prop where
  text : c.rest = front ++ (t.text.toList ++ behind)
  tokens : ∃ d : Cursor, d.rest = t.text.toList ++ behind ∧ c.Yields ts d ∧ d.lex.tokens = t :: us
  line : t.line = c.line + lineFeeds front
  ne_nil : t.text.toList ≠ []
  isNameChar : ∀ d ∈ t.text.toList, Lexeme.isNameChar d

theorem Next.eq_name (n : c.Next) (hname : t.kind = .name) (htokens : n.tokens = [t]) :
    n.lexeme = .name t.text.toList ∧ n.written = t.text.toList ∧ t.line = c.line := by
  have hmem : t ∈ n.tokens := by rw [htokens]; exact List.mem_singleton_self t
  obtain ⟨text, hl, rfl⟩ := eq_name_of_mem_take hmem hname
  have hw := n.isWritten
  rw [hl] at hw
  rw [String.toList_ofList]
  exact ⟨hl, hw, rfl⟩

theorem Next.pairsReturns (n : c.Next) (h : PairsReturns c.rest) : PairsReturns n.behind.rest := by
  rw [n.rest_eq, ← List.append_assoc] at h
  exact h.of_isInfix (List.suffix_append _ _).isInfix

theorem Next.lineFeeds_gap (n : c.Next) : lineFeeds n.gap = 0 :=
  lineFeeds_of_forall isGap_of_lineEnd.1 n.isGap_of_mem_gap

/-- An element takes the lines of its line feeds, unless a carriage return ends the text. -/
theorem Next.line_behind (n : c.Next) (h : PairsReturns c.rest)
    (hlast : n.behind.rest = [] → c.rest.getLast? ≠ some '\r') :
    n.behind.line = c.line + lineFeeds (n.gap ++ n.written) := by
  have heq := n.rest_eq
  rw [← n.rest_start] at heq
  have hrest : PairsReturns (n.first :: n.rest) := by
    rw [heq] at h
    exact h.of_isInfix (List.suffix_append _ _).isInfix
  have hlast' : n.more = [] → (n.first :: n.rest).getLast? ≠ some '\r' := by
    intro hnil
    rw [heq, n.rest_behind] at hlast
    exact Lexeme.getLast?_ne_of_append n.gap (hlast hnil)
  have hfeeds := Lexeme.lineFeeds_of_read hrest hlast' n.read_eq n.text_eq n.isWritten
  rw [lineFeeds_append, n.lineFeeds_gap, hfeeds, Nat.zero_add]
  exact line_take_eq _ _ _

theorem Passes.line_eq {front : List Char} (h : c.Passes front ts d) (hrest : PairsReturns c.rest)
    (hlast : d.rest = [] → c.rest.getLast? ≠ some '\r') : d.line = c.line + lineFeeds front := by
  induction h with
  | refl c => rfl
  | @step c d front ts n hpasses ih =>
    have hbehind : n.behind.rest = [] → c.rest.getLast? ≠ some '\r' := by
      intro hnil
      rw [hpasses.rest_eq] at hnil
      exact hlast (List.append_eq_nil_iff.1 hnil).2
    have hlater : d.rest = [] → n.behind.rest.getLast? ≠ some '\r' := by
      intro hnil
      have hne := hlast hnil
      rw [n.rest_eq, ← List.append_assoc] at hne
      exact Lexeme.getLast?_ne_of_append _ hne
    rw [ih (n.pairsReturns hrest) hlater, n.line_behind hrest hbehind,
      lineFeeds_append (n.gap ++ n.written), Nat.add_assoc]

/-- Names are found where they are written, on the line behind the line feeds in front of them. -/
theorem exists_hasName (hrest : PairsReturns c.rest) (hlex : c.lex.tokens = ts ++ t :: us)
    (hname : t.kind = .name) : ∃ front behind, c.HasName ts t us front behind := by
  obtain ⟨front, vs, d, n, hpasses, rfl, htokens, hus⟩ := exists_passes hlex (by simp [hname])
  obtain ⟨hlexeme, hwritten, hline⟩ := n.eq_name hname htokens
  obtain ⟨hne, hchars⟩ := Lexeme.of_read_name (hlexeme ▸ n.read_eq)
  have hstart : n.start.rest = t.text.toList ++ n.behind.rest := hwritten ▸ n.rest_start
  have hd : d.rest = n.gap ++ (t.text.toList ++ n.behind.rest) := hwritten ▸ n.rest_eq
  refine ⟨front ++ n.gap, n.behind.rest, ⟨?_, ⟨n.start, hstart, ?_, ?_⟩, ?_, hne, hchars⟩⟩
  · rw [hpasses.rest_eq, hd, List.append_assoc]
  · exact hpasses.yields.trans n.yields_start
  · rw [n.yields_tokens, htokens, hus]
    rfl
  · rw [hline, hpasses.line_eq hrest (by simp [hd, hne]), lineFeeds_append, n.lineFeeds_gap]
    rfl

end Cursor

/-! ### The call of a function -/

namespace ScanState

variable {ctx : ScanContext} {s s' : ScanState} {t : Token} {ts us : List Token} {r : Resolved}

/-- The call that a scan is at or in is found with the fields `r`, and is not left before. -/
inductive Closes (ctx : ScanContext) (r : Resolved) : ScanState → List Token → Prop
  | closing {s : ScanState} {t : Token} {ts : List Token} {line : Nat} :
    s.finding? ctx t = some (.call line r) → Closes ctx r s (t :: ts)
  | inside {s s' : ScanState} {t : Token} {ts : List Token} :
    s.take ctx t = .ok s' → s'.mode ≠ .outside → Closes ctx r s' ts → Closes ctx r s (t :: ts)

/-- Behind the tokens `ts`, `t` names a function whose call is found in `us`. -/
structure CallsAt (ctx : ScanContext) (s : ScanState) (ts : List Token) (t : Token)
    (us : List Token) (r : Resolved) : Prop where
  isName : t.kind = .name
  isFunction : ctx.options.keywords.contains t.text ∨ t.text = underscore
  comesTo : ∃ s₀ s₁, takeAll ctx s ts = (s₀, none) ∧ s₀.mode = .outside ∧
    s₀.take ctx t = .ok s₁ ∧ s₁.mode = .named t.text t.line ∧ s₁.Closes ctx r us

theorem functionLine?_eq_none_iff : s.functionLine? = none ↔ s.mode = .outside := by
  unfold functionLine?
  cases s.mode <;> simp

/-- Outside of a call, a scan stays there or comes to the function that a name names. -/
theorem mode_take_of_outside (hs : s.mode = .outside) (h : s.take ctx t = .ok s') :
    s'.mode = .outside ∨ s.startsCall ctx t ∧ s'.mode = .named t.text t.line := by
  have hsignificant : s.takeSignificant ctx t = .ok s' → s'.mode = .outside := by
    intro h
    unfold takeSignificant at h
    dsimp only at h
    rw [hs] at h
    cases h
    rfl
  have hkept : ∀ s₁ : ScanState, s₁.control = s.control → s₁.mode = .outside := by
    intro s₁ h₁
    exact (Prod.mk.inj h₁).1.trans hs
  unfold take at h
  split at h
  · exact .inl (hsignificant h)
  split at h
  · cases h
    refine .inl (hkept _ ?_)
    rw [control_takeComment]
    simp [settleName, hs]
  split at h
  · cases h
    exact .inl hs
  split at h
  · next hstarts =>
    cases h
    exact .inr ⟨hstarts.2, rfl⟩
  · exact .inl (hsignificant h)

theorem of_startsCall (h : s.startsCall ctx t) :
    t.kind = .name ∧ (ctx.options.keywords.contains t.text ∨ t.text = underscore) := by
  simp only [startsCall, Bool.and_eq_true, Bool.or_eq_true, beq_iff_eq] at h
  exact ⟨h.1.1, h.2⟩

/-- At or in a call, a scan stays there or leaves it. -/
theorem functionLine?_take_of_ne_outside (hs : s.mode ≠ .outside) (h : s.take ctx t = .ok s') :
    s'.functionLine? = none ∨ s'.functionLine? = s.functionLine? := by
  unfold take at h
  split at h
  · exact functionLine?_takeSignificant h
  split at h
  · cases h
    rw [functionLine?_of_control (control_takeComment _ t), functionLine?_settleName]
    exact .inr rfl
  split at h
  · cases h
    exact .inr rfl
  split at h
  · next hstarts => exact absurd hstarts.1 hs
  · exact functionLine?_takeSignificant h

/-- A call that is found is the one that the scan is at or in, or one whose function it comes to. -/
theorem closes_or_callsAt {line : Nat} (h : .call line r ∈ findings ctx s ts) :
    (s.functionLine? = some line ∧ s.Closes ctx r ts) ∨
      ∃ vs t us, ts = vs ++ t :: us ∧ t.line = line ∧ s.CallsAt ctx vs t us r := by
  induction ts generalizing s with
  | nil => cases h
  | cons u ts ih =>
    unfold findings at h
    split at h
    case h_2 => cases h
    next s' hs' =>
    rcases List.mem_append.1 h with h | h
    · have hfinding := Option.mem_toList.1 h
      rcases line_finding? hfinding with hcomment | ⟨line', r', hcall, hline⟩
      · cases hcomment
      · cases hcall
        exact .inl ⟨hline, .closing hfinding⟩
    rcases ih h with ⟨hline, hcloses⟩ | ⟨vs, t, us, rfl, hline, hcalls⟩
    · have hmode : s'.mode ≠ .outside := by
        rw [Ne, ← functionLine?_eq_none_iff, hline]
        simp
      -- The call was entered in front of `u`, or `u` names its function.
      by_cases hs : s.mode = .outside
      · obtain hout | ⟨hstarts, hnamed⟩ := mode_take_of_outside hs hs'
        · exact absurd hout hmode
        · obtain ⟨hname, hfunction⟩ := of_startsCall hstarts
          have huline : u.line = line := by simpa [functionLine?, hnamed] using hline
          refine .inr ⟨[], u, ts, rfl, huline, hname, hfunction, ?_⟩
          exact ⟨s, s', rfl, hs, hs', hnamed, hcloses⟩
      · refine .inl ⟨?_, .inside hs' hmode hcloses⟩
        rcases functionLine?_take_of_ne_outside hs hs' with hnone | hsame
        · rw [hnone] at hline
          cases hline
        · rw [← hsame, hline]
    · obtain ⟨s₀, s₁, hvs, hrest⟩ := hcalls.comesTo
      refine .inr ⟨u :: vs, t, us, rfl, hline, hcalls.isName, hcalls.isFunction, s₀, s₁, ?_, hrest⟩
      rw [takeAll_cons hs', hvs]

end ScanState

/-! ### The messages of calls -/

/-- A message is that of a call on a line, whatever is noted on it. -/
def Resolved.Gives (r : Resolved) (ctx : ScanContext) (line : Nat) (m : Message) : Prop :=
  m.id = r.id ∧ m.pluralId = r.pluralId ∧ m.context = r.context ∧ m.domain = r.domain ∧
    m.location = ⟨ctx.file, ctx.offset + line⟩

theorem Ledger.gives_of_mem_add {ctx : ScanContext} {l : Ledger} {f : Finding} {m : Message}
    (h : m ∈ (l.add ctx f).messages) :
    (∃ m' ∈ l.messages, ∀ line (r : Resolved), r.Gives ctx line m' → r.Gives ctx line m) ∨
      ∃ line r, f = .call line r ∧ r.Gives ctx line m := by
  have hkept : m ∈ l.messages → ∃ m' ∈ l.messages, ∀ line (r : Resolved),
      r.Gives ctx line m' → r.Gives ctx line m := fun h => ⟨m, h, fun _ _ => id⟩
  unfold add at h
  split at h
  · split at h
    · next note _ =>
      obtain ⟨i, hi, rfl⟩ := List.mem_iff_getElem.1 h
      rw [List.getElem_modify]
      split
      · exact .inl ⟨_, List.getElem_mem _, fun _ _ => id⟩
      · exact .inl ⟨_, List.getElem_mem _, fun _ _ => id⟩
    · exact .inl (hkept h)
  · next line r =>
    split at h
    · rcases List.mem_append.1 h with h | h
      · exact .inl (hkept h)
      · rw [List.mem_singleton.1 h]
        exact .inr ⟨line, r, rfl, rfl, rfl, rfl, rfl, rfl⟩
    · exact .inl (hkept h)

theorem Ledger.gives_of_mem_foldl {ctx : ScanContext} {fs : List Finding} {l : Ledger} {m : Message}
    (h : m ∈ (fs.foldl (Ledger.add ctx) l).messages) :
    (∃ m' ∈ l.messages, ∀ line (r : Resolved), r.Gives ctx line m' → r.Gives ctx line m) ∨
      ∃ line r, .call line r ∈ fs ∧ r.Gives ctx line m := by
  induction fs generalizing l with
  | nil => exact .inl ⟨m, h, fun _ _ => id⟩
  | cons f fs ih =>
    rcases ih h with ⟨m', hm', hgives⟩ | ⟨line, r, hmem, hgives⟩
    · rcases gives_of_mem_add hm' with ⟨m₀, hm₀, hgives₀⟩ | ⟨line, r, rfl, hr⟩
      · exact .inl ⟨m₀, hm₀, fun line r hr => hgives line r (hgives₀ line r hr)⟩
      · exact .inr ⟨line, r, List.mem_cons_self, hgives line r hr⟩
    · exact .inr ⟨line, r, List.mem_cons_of_mem f hmem, hgives⟩

/-- A message of a source comes from the call of the function that stands between `front` and
`behind` in it. -/
def ComesFrom (ctx : ScanContext) (m : Message) (front : List Char) (function : String)
    (behind : List Char) : Prop :=
  ∃ ts t us r, t.text = function ∧
    ({ rest := front ++ (function.toList ++ behind) } : Cursor).HasName ts t us front behind ∧
    (ScanState.start ctx).CallsAt ctx ts t us r ∧ r.Gives ctx t.line m

variable {ctx : ScanContext} {source : String} {messages : List Message} {m : Message}

/-- Every message is that of a call whose function is one of the tokens of the source. -/
theorem exists_callsAt (h : scan ctx source = .ok messages) (hm : m ∈ messages) :
    ∃ ts t us r, (tokenize source).tokens = ts ++ t :: us ∧
      (ScanState.start ctx).CallsAt ctx ts t us r ∧ r.Gives ctx t.line m := by
  have hfold : m ∈ ((findings ctx source).foldl (Ledger.add ctx)
      { comments := { policy := ctx.options.comments } }).messages := by
    rw [scan_eq] at h
    split at h
    · cases h
    · cases h
      exact hm
  rcases Ledger.gives_of_mem_foldl hfold with ⟨_, hnone, -⟩ | ⟨line, r, hfinding, hgives⟩
  · cases hnone
  rcases ScanState.closes_or_callsAt hfinding with ⟨hline, -⟩ | ⟨ts, t, us, htokens, rfl, hcalls⟩
  · cases hline
  exact ⟨ts, t, us, r, htokens, hcalls, hgives⟩

/-- Every message comes from a call in the source, and has the line of its function. -/
theorem exists_comesFrom (hreturns : PairsReturns source.toList)
    (h : scan ctx source = .ok messages) (hm : m ∈ messages) :
    ∃ front function behind, source.toList = front ++ (function.toList ++ behind) ∧
      ComesFrom ctx m front function behind ∧
      m.location = ⟨ctx.file, ctx.offset + (1 + lineFeeds front)⟩ := by
  obtain ⟨ts, t, us, r, htokens, hcalls, hgives⟩ := exists_callsAt h hm
  obtain ⟨front, behind, hname⟩ := Cursor.exists_hasName (c := { rest := source.toList }) hreturns
    htokens hcalls.isName
  have htext : source.toList = front ++ (t.text.toList ++ behind) := hname.text
  refine ⟨front, t.text, behind, htext, ⟨ts, t, us, r, rfl, ?_, hcalls, hgives⟩, ?_⟩
  · rwa [← htext]
  · rw [hgives.2.2.2.2, hname.line]

theorem ComesFrom.isNameChar {front behind : List Char} {function : String}
    (h : ComesFrom ctx m front function behind) :
    function.toList ≠ [] ∧ ∀ d ∈ function.toList, Lexeme.isNameChar d := by
  obtain ⟨ts, t, us, r, rfl, hname, -⟩ := h
  exact ⟨hname.ne_nil, hname.isNameChar⟩

theorem ComesFrom.isFunction {front behind : List Char} {function : String}
    (h : ComesFrom ctx m front function behind) :
    ctx.options.keywords.contains function ∨ function = underscore := by
  obtain ⟨ts, t, us, r, rfl, -, hcalls, -⟩ := h
  exact hcalls.isFunction

end PotExtract.Python
