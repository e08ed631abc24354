import PotExtract.Proofs.Python.CallPlaces
import PotExtract.Proofs.Python.TidyTexts
import PotExtract.Proofs.Python.TokenTexts

/-! The gate in front of the scan of code. It asks for a parenthesis directly behind the underscore,
while a scan also finds calls with white space, comments and line ends between the two. Such a call
is lost unless the code has another one that the gate sees; every other call of an expression opens
the gate. -/

namespace PotExtract.Python

open Text

/-! ### What the gate asks for -/

theorem hasCallFrom_cons (atBoundary : Bool) (c : Char) (s : List Char) :
    hasCallFrom atBoundary (c :: s) ↔
      (atBoundary ∧ c = '_' ∧ ∃ behind, s = '(' :: behind ∧ ')' ∈ behind) ∨
        hasCallFrom (!isWordChar c) s := by
  by_cases hcall : c = '_' ∧ ∃ behind, s = '(' :: behind
  · obtain ⟨rfl, behind, rfl⟩ := hcall
    have hword : isWordChar '_' := by decide
    simp [hasCallFrom, hword]
  · have hother : hasCallFrom atBoundary (c :: s) = hasCallFrom (!isWordChar c) s := by
      rw [hasCallFrom.eq_2]
      rintro behind rfl rfl
      exact hcall ⟨rfl, behind, rfl⟩
    rw [hother]
    refine ⟨.inr, fun h => h.resolve_left ?_⟩
    rintro ⟨-, rfl, behind, rfl, -⟩
    exact hcall ⟨rfl, behind, rfl⟩

/-- A call is seen at the start of a text or behind its first character. -/
theorem hasCallFrom_iff (atBoundary : Bool) (s : List Char) :
    hasCallFrom atBoundary s ↔ ∃ front behind, s = front ++ '_' :: '(' :: behind ∧
      (front = [] → atBoundary) ∧ (∀ p ∈ front.getLast?, isWordChar p = false) ∧ ')' ∈ behind := by
  induction s generalizing atBoundary with
  | nil => simp [hasCallFrom]
  | cons c s ih =>
    rw [hasCallFrom_cons, ih]
    constructor
    · rintro (⟨hboundary, rfl, behind, rfl, hclose⟩ | ⟨front, behind, rfl, hfirst, hlast, hclose⟩)
      · exact ⟨[], behind, rfl, fun _ => hboundary, by simp, hclose⟩
      · refine ⟨c :: front, behind, rfl, nofun, ?_, hclose⟩
        cases front with
        | nil => simpa using hfirst
        | cons d front => simpa using hlast
    · rintro ⟨_ | ⟨d, front⟩, behind, hs, hfirst, hlast, hclose⟩
      · obtain ⟨rfl, rfl⟩ := List.cons.inj hs
        exact .inl ⟨hfirst rfl, rfl, behind, rfl, hclose⟩
      · obtain ⟨rfl, rfl⟩ := List.cons.inj hs
        refine .inr ⟨front, behind, rfl, ?_, ?_, hclose⟩
        · rintro rfl
          simpa using hlast
        · cases front with
          | nil => simp
          | cons e front => simpa using hlast

/-- The gate asks for an underscore that starts a word, with a parenthesis directly behind it and a
closing one anywhere behind that. -/
theorem mayCallUnderscore_iff (code : String) :
    mayCallUnderscore code ↔ ∃ front behind, code.toList = front ++ '_' :: '(' :: behind ∧
      (∀ p ∈ front.getLast?, isWordChar p = false) ∧ ')' ∈ behind := by
  simp [mayCallUnderscore, hasCallFrom_iff]

/-! ### The place of a call -/

/-- What stands between the name of a function and the parenthesis of its call: white space, joined
lines, line ends and comments. -/
inductive IsPause : List Char → Prop
  | nil : IsPause []
  | gap {c : Char} {s : List Char} : Cursor.isGap c → IsPause s → IsPause (c :: s)
  | joint {lineEnd s : List Char} :
    lineEnd ∈ lineEnds → IsPause s → IsPause ('\\' :: (lineEnd ++ s))
  | lineEnd {lineEnd s : List Char} : lineEnd ∈ lineEnds → IsPause s → IsPause (lineEnd ++ s)
  | comment {text lineEnd s : List Char} : (∀ c ∈ text, Lexeme.isLineEnd c = false) →
    lineEnd ∈ lineEnds → IsPause s → IsPause ('#' :: (text ++ (lineEnd ++ s)))

theorem IsPause.gaps_append {w s : List Char} (hw : ∀ c ∈ w, Cursor.isGap c) (h : IsPause s) :
    IsPause (w ++ s) := by
  induction w with
  | nil => exact h
  | cons c w ih =>
    obtain ⟨hc, hw⟩ := List.forall_mem_cons.1 hw
    exact .gap hc (ih hw)

/-- A comment in front of a pause that starts with a line end is a part of it. -/
theorem IsPause.comment_append {text s : List Char} {d : Char}
    (htext : ∀ c ∈ text, Lexeme.isLineEnd c = false) (hd : Lexeme.isLineEnd d)
    (h : IsPause (d :: s)) : IsPause ('#' :: (text ++ d :: s)) := by
  generalize hs : d :: s = pause at h
  cases h with
  | nil => cases hs
  | gap hgap =>
    obtain ⟨rfl, -⟩ := List.cons.inj hs
    rw [isGap_of_isLineEnd hd] at hgap
    cases hgap
  | joint =>
    obtain ⟨rfl, -⟩ := List.cons.inj hs
    cases hd
  | lineEnd hend hs' => exact .comment htext hend hs'
  | comment =>
    obtain ⟨rfl, -⟩ := List.cons.inj hs
    cases hd

/-- Behind the tokens `ts`, the name `t` stands between `front` and `behind`, and the tokens `us` are
those of `behind`. -/
structure Cursor.StandsAt (c : Cursor) (ts : List Token) (t : Token) (us : List Token)
    (front behind : List Char) : Prop where
  text : c.rest = front ++ (t.text.toList ++ behind)
  starts : ∃ d : Cursor, d.rest = t.text.toList ++ behind ∧ c.Yields ts d ∧ d.lex.tokens = t :: us
  ends : ∃ d : Cursor, d.rest = behind ∧ d.lex.tokens = us

namespace Cursor

variable {c d : Cursor} {t : Token} {ts us : List Token}

theorem Next.isTidy (n : c.Next) (h : IsTidy c.rest) :
    IsTidy n.behind.rest ∧ ∀ text, n.lexeme = .stray text → ∀ d ∈ text, isBlank d := by
  rw [n.rest_eq, ← n.rest_start] at h
  have hblank : ∀ d ∈ n.gap, isBlank d := fun d hd => isBlank_of_isGap (n.isGap_of_mem_gap d hd)
  have hrest := (h.of_blanks_append hblank).of_read (isGap_of_dropWhile n.dropWhile_rest) n.read_eq
  rwa [n.rest_behind]

/-- Behind elements of a tidy text, an underscore starts a word. -/
theorem Passes.isWordChar {front more : List Char} (h : c.Passes front ts d) (htidy : IsTidy c.rest)
    (hd : d.rest = '_' :: more) : ∀ p ∈ front.getLast?, isWordChar p = false := by
  induction h with
  | refl c => nofun
  | @step c d front ts n hpasses ih =>
    obtain ⟨hbehind, hstray⟩ := n.isTidy htidy
    have hrest := hpasses.rest_eq
    cases front with
    | cons e front => simpa using ih hbehind hd
    | nil =>
      -- the underscore follows the element directly
      rw [List.nil_append, hd, n.rest_behind] at hrest
      have hread := n.read_eq
      have htext := n.text_eq
      rw [hrest] at hread htext
      rw [List.append_nil, List.getLast?_append_of_ne_nil _ n.written_ne_nil]
      exact Lexeme.isWordChar_of_read hread hstray htext

/-- The underscore stands at the start of a word wherever it names a function. -/
theorem exists_standsAt (htidy : IsTidy c.rest) (hlex : c.lex.tokens = ts ++ t :: us)
    (hname : t.kind = .name) (htext : t.text = underscore) :
    ∃ front behind, c.StandsAt ts t us front behind ∧
      ∀ p ∈ front.getLast?, isWordChar p = false := by
  obtain ⟨front, vs, d, n, hpasses, rfl, htokens, hus⟩ := exists_passes hlex (by simp [hname])
  obtain ⟨-, hwritten, -⟩ := n.eq_name hname htokens
  have hstart : n.start.rest = t.text.toList ++ n.behind.rest := hwritten ▸ n.rest_start
  have hd : d.rest = n.gap ++ (t.text.toList ++ n.behind.rest) := hwritten ▸ n.rest_eq
  refine ⟨front ++ n.gap, n.behind.rest, ⟨?_, ⟨n.start, hstart, ?_, ?_⟩, n.behind, rfl, hus⟩, ?_⟩
  · rw [hpasses.rest_eq, hd, List.append_assoc]
  · exact hpasses.yields.trans n.yields_start
  · rw [n.yields_tokens, htokens, hus]
    rfl
  · rcases List.eq_nil_or_concat n.gap with hgap | ⟨gap, g, hgap⟩
    · rw [hgap, htext] at hd
      rw [hgap, List.append_nil]
      exact hpasses.isWordChar htidy hd
    · have hblank : isBlank g := isBlank_of_isGap (n.isGap_of_mem_gap g (by simp [hgap]))
      simpa [hgap] using isWordChar_of_isBlank hblank

theorem eq_operator_of_mem_take {l : Lexeme} {rest : List Char} {op : String}
    (h : t ∈ (c.take l rest).1) (ht : t.isOperator op) : l = .operator op.toList := by
  obtain ⟨hkind, htext⟩ := Token.isOperator_iff.1 ht
  cases l with
  | operator text =>
    obtain rfl := List.mem_singleton.1 h
    rw [← htext, String.toList_ofList]
  | joint => cases h
  | lineEnd =>
    rw [List.mem_singleton.1 h] at hkind
    dsimp only at hkind
    split at hkind <;> cases hkind
  | _ =>
    rw [List.mem_singleton.1 h] at hkind
    cases hkind

/-- What is written for layout or a comment in front of a pause is a part of it. -/
theorem isPause_append {first : Char} {rest written pause behind : List Char} {l : Lexeme}
    (hread : Lexeme.read first rest = some (l, pause ++ '(' :: behind)) (hl : l.IsWritten written)
    (htokens : ∀ u ∈ (c.take l (pause ++ '(' :: behind)).1, u.isLayout ∨ u.kind = .comment)
    (hpause : IsPause pause) : IsPause (written ++ pause) := by
  cases l with
  | joint =>
    obtain ⟨d, hd, hw⟩ := hl
    obtain ⟨hone, htwo⟩ := mem_lineEnds hd
    rcases hw with rfl | rfl
    · exact .joint hone hpause
    · exact .joint htwo hpause
  | lineEnd =>
    obtain ⟨d, hd, hw⟩ := hl
    obtain ⟨hone, htwo⟩ := mem_lineEnds hd
    rcases hw with rfl | rfl
    · exact .lineEnd hone hpause
    · exact .lineEnd htwo hpause
  | comment text =>
    obtain rfl : written = text := hl
    obtain ⟨rfl, rfl, -⟩ := Lexeme.isReadAt_of_read hread
    have hend := isLineEnd_of_read_comment hread
    cases pause with
    | nil =>
      have hparen := hend '(' rfl
      cases hparen
    | cons d pause =>
      refine IsPause.comment_append (fun e he => ?_) (hend d rfl) hpause
      simpa using List.mem_takeWhile_imp he
  | _ =>
    have htoken := htokens _ List.mem_cons_self
    simp [Token.isLayout] at htoken

/-- Elements without tokens but layout and comments are a part of the pause behind them. -/
theorem Passes.isPause {front pause behind : List Char} (h : c.Passes front ts d)
    (hts : ∀ u ∈ ts, u.isLayout ∨ u.kind = .comment) (hd : d.rest = pause ++ '(' :: behind)
    (hpause : IsPause pause) : IsPause (front ++ pause) := by
  induction h with
  | refl c => exact hpause
  | @step c d front ts n hpasses ih =>
    obtain ⟨hown, hlater⟩ := List.forall_mem_append.1 hts
    have hmore : n.more = (front ++ pause) ++ '(' :: behind := by
      rw [← n.rest_behind, hpasses.rest_eq, hd, List.append_assoc]
    have hread := n.read_eq
    have htokens : ∀ u ∈ n.tokens, u.isLayout ∨ u.kind = .comment := fun u hu =>
      hown u (List.mem_append_right _ hu)
    rw [hmore] at hread
    rw [Next.tokens, hmore] at htokens
    have hwritten := isPause_append hread n.isWritten htokens (ih hlater hd)
    simpa using hwritten.gaps_append n.isGap_of_mem_gap

/-- Layout and comments in front of a parenthesis are a pause in front of it. -/
theorem exists_pause (hlex : c.lex.tokens = ts ++ t :: us)
    (hts : ∀ u ∈ ts, u.isLayout ∨ u.kind = .comment) (ht : t.isOperator "(") :
    ∃ pause behind, c.rest = pause ++ '(' :: behind ∧ IsPause pause ∧
      ∃ d : Cursor, d.rest = behind ∧ d.lex.tokens = us := by
  have hkind := (Token.isOperator_iff.1 ht).1
  obtain ⟨front, vs, d, n, hpasses, rfl, htokens, hus⟩ := exists_passes hlex (by simp [hkind])
  have hlexeme := eq_operator_of_mem_take (htokens ▸ List.mem_singleton_self t) ht
  have hwritten := n.isWritten
  rw [hlexeme] at hwritten
  have hd := n.rest_eq
  rw [hwritten] at hd
  have hgap : IsPause n.gap := by simpa using IsPause.nil.gaps_append n.isGap_of_mem_gap
  have hlayout := fun u hu => hts u (List.mem_append_left _ hu)
  refine ⟨front ++ n.gap, n.behind.rest, ?_, hpasses.isPause hlayout hd hgap, _, rfl, hus⟩
  rw [hpasses.rest_eq, hd, List.append_assoc]
  rfl

end Cursor

theorem mem_of_tiles {t : Token} {ts : List Token} {s : List Char} (h : Tiles ts s) (ht : t ∈ ts)
    (hclose : t.isOperator ")") : ')' ∈ s := by
  induction h with
  | nil => cases ht
  | @cons gap written s u ts _ hu _ ih =>
    rcases List.mem_cons.1 ht with rfl | ht
    · obtain ⟨hkind, htext⟩ := Token.isOperator_iff.1 hclose
      have hwritten : ')' ∈ written := by
        cases hu with
        | text => simp [htext]
        | lineEnd hend => simp [hkind] at hend
      simp [hwritten]
    · simp [ih ht]

/-! ### Calls that give messages -/

namespace ScanState

variable {ctx : ScanContext} {s s' : ScanState} {t : Token} {ts : List Token} {r : Resolved}

theorem isOperator_of_finding? {line : Nat} (h : s.finding? ctx t = some (.call line r)) :
    t.isOperator ")" := by
  unfold finding? at h
  split at h
  · cases h
  split at h
  · cases h
  split at h
  · split at h
    · next hd => exact (Call.take_closed hd).1
    · cases h
  · cases h

theorem Closes.exists_close (h : s.Closes ctx r ts) : ∃ t ∈ ts, t.isOperator ")" := by
  induction h with
  | closing hfinding => exact ⟨_, List.mem_cons_self, isOperator_of_finding? hfinding⟩
  | inside _ _ _ ih =>
    obtain ⟨t, ht, hclose⟩ := ih
    exact ⟨t, List.mem_cons_of_mem _ ht, hclose⟩

/-- Behind the name of a function, a scan waits, enters a call, or leaves. -/
theorem mode_take_of_named {function : String} {line : Nat} (hs : s.mode = .named function line)
    (h : s.take ctx t = .ok s') :
    s'.mode = .outside ∨ t.isOperator "(" ∨
      (t.isLayout ∨ t.kind = .comment) ∧ s'.mode = s.mode := by
  have hnested : s.isNested = false := by simp [isNested, hs]
  unfold take at h
  rw [hnested] at h
  split at h
  · contradiction
  split at h
  · next hcomment =>
    cases h
    have hsettle : s.settleName t = s := by simp [settleName, hs]
    have hcontrol := control_takeComment (s.settleName t) t
    rw [hsettle] at hcontrol ⊢
    exact .inr (.inr ⟨.inr hcomment, (Prod.mk.inj hcontrol).1⟩)
  split at h
  · next hlayout =>
    cases h
    exact .inr (.inr ⟨.inl hlayout, rfl⟩)
  split at h
  · next hout =>
    rw [hs] at hout
    cases hout.1
  · unfold takeSignificant at h
    dsimp only at h
    rw [hs] at h
    cases h
    by_cases hparen : t.isOperator "("
    · exact .inr (.inl hparen)
    · exact .inl (if_neg hparen)

/-- Between the name of a function and the parenthesis of its call there are layout and comments
only, and the parenthesis is closed behind. -/
theorem Closes.exists_parenthesis {function : String} {line : Nat}
    (hs : s.mode = .named function line) (h : s.Closes ctx r ts) :
    ∃ vs t us, ts = vs ++ t :: us ∧ (∀ v ∈ vs, v.isLayout ∨ v.kind = .comment) ∧
      t.isOperator "(" ∧ ∃ u ∈ us, u.isOperator ")" := by
  induction h with
  | closing hfinding => simp [finding?, isNested, hs] at hfinding
  | @inside s s' t ts htake hmode hcloses ih =>
    rcases mode_take_of_named hs htake with hout | hparen | ⟨hpause, hsame⟩
    · exact absurd hout hmode
    · exact ⟨[], t, ts, rfl, List.forall_mem_nil _, hparen, hcloses.exists_close⟩
    · obtain ⟨vs, u, us, rfl, hvs, hrest⟩ := ih (hsame.trans hs)
      exact ⟨t :: vs, u, us, rfl, List.forall_mem_cons.2 ⟨hpause, hvs⟩, hrest⟩

end ScanState

section Messages

variable {ctx : ScanContext} {code : String} {messages : List Message} {m : Message}

/-- A message is that of the call whose underscore stands between `front` and `behind` in the
code. -/
def IsOfCall (ctx : ScanContext) (code : String) (m : Message) (front behind : List Char) : Prop :=
  ∃ ts t us r, t.text = underscore ∧
    ({ rest := code.toList } : Cursor).StandsAt ts t us front behind ∧
    (ScanState.start ctx).CallsAt ctx ts t us r ∧ r.Gives ctx t.line m

/-- Behind the underscore of a call there is a pause and a parenthesis that is closed later. -/
theorem exists_pause_of_callsAt {s : ScanState} {c : Cursor} {ts us : List Token} {t : Token}
    {r : Resolved} {front behind : List Char} (hcalls : s.CallsAt ctx ts t us r)
    (hplace : c.StandsAt ts t us front behind) :
    ∃ pause behind', behind = pause ++ '(' :: behind' ∧ IsPause pause ∧ ')' ∈ behind' := by
  obtain ⟨_, s₁, -, -, -, hnamed, hcloses⟩ := hcalls.comesTo
  obtain ⟨vs, p, us', rfl, hvs, hparen, q, hq, hclose⟩ := hcloses.exists_parenthesis hnamed
  obtain ⟨d, rfl, htokens⟩ := hplace.ends
  obtain ⟨pause, behind', hrest, hpause, e, rfl, he⟩ := Cursor.exists_pause htokens hvs hparen
  refine ⟨pause, e.rest, hrest, hpause, ?_⟩
  obtain ⟨tiled, left, hsplit, htiles, -⟩ := e.exists_tiles
  have hmem : q ∈ e.lex.tokens.filter Token.hasText := by
    rw [he]
    exact List.mem_filter.2 ⟨hq, by simp [Token.hasText, (Token.isOperator_iff.1 hclose).2]⟩
  rw [hsplit]
  exact List.mem_append_left left (mem_of_tiles htiles hmem hclose)

/-- Without keywords, every message of an expression comes from a call of the underscore with a pause
in front of its parenthesis. If one of these pauses is empty, the gate is open. -/
theorem exists_pause_of_mem_scan (hcode : isExpression code)
    (hkeywords : ctx.options.keywords = .empty) (hscan : scan ctx code = .ok messages)
    (hm : m ∈ messages) :
    ∃ front pause behind, code.toList = front ++ '_' :: (pause ++ '(' :: behind) ∧
      IsOfCall ctx code m front (pause ++ '(' :: behind) ∧ IsPause pause ∧
      (pause = [] → mayCallUnderscore code) := by
  obtain ⟨ts, t, us, r, htokens, hcalls, hgives⟩ := exists_callsAt hscan hm
  have hfunction : t.text = underscore := by
    refine hcalls.isFunction.resolve_left ?_
    rw [hkeywords]
    exact Bool.false_ne_true
  obtain ⟨front, behind, hplace, hword⟩ := Cursor.exists_standsAt (c := { rest := code.toList })
    (isTidy_of_isExpression hcode) htokens hcalls.isName hfunction
  obtain ⟨pause, behind', rfl, hpause, hclose⟩ := exists_pause_of_callsAt hcalls hplace
  have htext : code.toList = front ++ '_' :: (pause ++ '(' :: behind') := by
    have hrest := hplace.text
    rw [hfunction] at hrest
    exact hrest
  have hcall : IsOfCall ctx code m front _ := ⟨ts, t, us, r, hfunction, hplace, hcalls, hgives⟩
  refine ⟨front, pause, behind', htext, hcall, hpause, ?_⟩
  rintro rfl
  exact (mayCallUnderscore_iff code).2 ⟨front, behind', htext, hword, hclose⟩

/-- A scan without keywords. -/
def withoutKeywords : ScanContext :=
  ⟨{ keywords := .empty }, "a.pt", 0⟩

/-- The gate is closed to a call with a space in front of its parenthesis. -/
theorem mayCallUnderscore_spacedCall : isExpression "_ ('a')" ∧
    scan withoutKeywords "_ ('a')" = .ok [{ id := "a", location := ⟨"a.pt", 1⟩ }] ∧
    mayCallUnderscore "_ ('a')" = false := by
  decide +kernel

/-- The message of a call behind a comment, to which the gate is closed. -/
theorem exists_pause_commentedCall :
    isExpression "x or _ # c\n('a')" ∧ withoutKeywords.options.keywords = .empty ∧
      ∃ messages m, scan withoutKeywords "x or _ # c\n('a')" = .ok messages ∧ m ∈ messages ∧
        ∃ front pause behind,
          "x or _ # c\n('a')".toList = front ++ '_' :: (pause ++ '(' :: behind) ∧
            IsOfCall withoutKeywords "x or _ # c\n('a')" m front (pause ++ '(' :: behind) ∧
            IsPause pause ∧ pause ≠ [] := by
  have hcode : isExpression "x or _ # c\n('a')" := by decide +kernel
  have hscan : scan withoutKeywords "x or _ # c\n('a')" =
      .ok [{ id := "a", location := ⟨"a.pt", 1⟩ }] := by decide +kernel
  have hgate : ¬ mayCallUnderscore "x or _ # c\n('a')" := by decide +kernel
  obtain ⟨front, pause, behind, htext, hcall, hpause, hopen⟩ :=
    exists_pause_of_mem_scan hcode rfl hscan (List.mem_singleton_self _)
  exact ⟨hcode, rfl, _, _, hscan, List.mem_singleton_self _, front, pause, behind, htext, hcall,
    hpause, fun hnil => hgate (hopen hnil)⟩

end Messages

end PotExtract.Python
