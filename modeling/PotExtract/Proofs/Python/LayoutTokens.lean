import Mathlib.Data.List.Induction
import PotExtract.Proofs.Python.Brackets
import PotExtract.Proofs.Python.Passages

/-! The order of layout tokens. Changes of indentation close what they open, they and the ends of
statements stand outside of brackets, and a statement is only ended where there is one. What may
follow tokens is said by the tokens alone; the cursor keeps count of just that. -/

namespace PotExtract.Python

/-- Whether the token is part of a statement. -/
def Token.isStatementPart (t : Token) : Bool :=
  match t.kind with
  | .name | .number | .string | .operator | .stray => true
  | _ => false

/-- Whether the token ends a line. -/
def Token.endsLine (t : Token) : Bool :=
  t.kind == .newline || t.kind == .lineBreak

/-- The number of tokens of a kind. -/
def countOf (kind : TokenKind) (ts : List Token) : Nat :=
  ts.countP (·.kind == kind)

/-- Since the last end of a line there is a part of a statement. -/
def HasStatement (ts : List Token) : Prop :=
  ∃ before part since, ts = before ++ part :: since ∧ part.isStatementPart ∧
    ∀ t ∈ since, t.endsLine = false

section Counts

variable {kind : TokenKind} {ts us : List Token} {t : Token}

@[simp] theorem countOf_append : countOf kind (ts ++ us) = countOf kind ts + countOf kind us :=
  List.countP_append

@[simp] theorem countOf_singleton : countOf kind [t] = if t.kind = kind then 1 else 0 := by
  simp [countOf, List.countP_singleton]

theorem HasStatement.concat_part (ht : t.isStatementPart) : HasStatement (ts ++ [t]) :=
  ⟨ts, t, [], rfl, ht, List.forall_mem_nil _⟩

theorem HasStatement.concat (h : HasStatement ts) (ht : t.endsLine = false) :
    HasStatement (ts ++ [t]) := by
  obtain ⟨before, part, since, rfl, hpart, hsince⟩ := h
  refine ⟨before, part, since ++ [t], by simp, hpart, fun u hu => ?_⟩
  rcases List.mem_append.1 hu with hu | hu
  · exact hsince u hu
  · rwa [List.mem_singleton.1 hu]

end Counts

/-! ### Which tokens follow others -/

/-- Whether `t` may stand behind the tokens `ts`. Where the indentation changes or a statement ends
no bracket is open, an indentation is closed where one is open, and a statement ends where there is
one. -/
structure Follows (ts : List Token) (t : Token) : Prop where
  outside : t.kind = .indent ∨ t.kind = .dedent ∨ t.kind = .newline → depthBehind 0 ts = 0
  dedent : t.kind = .dedent → countOf .dedent ts < countOf .indent ts
  newline : t.kind = .newline → HasStatement ts
  ne_endMarker : t.kind ≠ .endMarker

/-- Every token may stand behind those in front of it. -/
inductive IsLaidOut : List Token → Prop
  | nil : IsLaidOut []
  | concat {ts : List Token} {t : Token} : IsLaidOut ts → Follows ts t → IsLaidOut (ts ++ [t])

namespace IsLaidOut

variable {ts us : List Token} {t : Token}

theorem of_append (us : List Token) (h : IsLaidOut (ts ++ us)) : IsLaidOut ts := by
  induction us using List.reverseRecOn with
  | nil => rwa [List.append_nil] at h
  | append_singleton us u ih =>
    rw [← List.append_assoc] at h
    generalize hvs : ts ++ us ++ [u] = vs at h
    cases h with
    | nil => simp at hvs
    | concat h _ =>
      obtain ⟨rfl, -⟩ := List.append_inj' hvs rfl
      exact ih h

theorem follows (h : IsLaidOut (ts ++ t :: us)) : Follows ts t := by
  rw [List.append_cons] at h
  have hinit := h.of_append
  generalize hvs : ts ++ [t] = vs at hinit
  cases hinit with
  | nil => simp at hvs
  | concat _ hfollows =>
    obtain ⟨rfl, ht⟩ := List.append_inj' hvs rfl
    obtain rfl := List.singleton_inj.1 ht
    exact hfollows

/-- Never are more indentations closed than are open. -/
theorem dedents_le (h : IsLaidOut ts) : countOf .dedent ts ≤ countOf .indent ts := by
  induction h with
  | nil => exact Nat.le_refl 0
  | @concat ts t _ ht ih =>
    simp only [countOf_append, countOf_singleton]
    by_cases hk : t.kind = .dedent
    · have := ht.dedent hk
      simp [hk]
      omega
    · rw [if_neg hk]
      omega

end IsLaidOut

/-! ### The cursor behind tokens -/

namespace Cursor

variable {c : Cursor} {ts : List Token}

/-- What a change of indentation does: nothing, or outside of brackets, one indentation more or the
innermost ones closed. -/
theorem cases_of_layout {changes : List Token} {indents : List Nat}
    (h : c.layout = .ok (changes, indents)) :
    (changes = [] ∧ indents = c.indents) ∨
      c.depth = 0 ∧
        ((∃ width, c.indents.headD 0 < width ∧ changes = [⟨.indent, "", c.line⟩] ∧
            indents = width :: c.indents) ∨
          ∃ closed, c.indents = closed ++ indents ∧
            changes = closed.map fun _ => ⟨.dedent, "", c.line⟩) := by
  unfold layout at h
  split at h
  · next hstarts =>
    simp only [Bool.and_eq_true, beq_iff_eq] at hstarts
    refine .inr ⟨hstarts.1.2, ?_⟩
    unfold indentTo at h
    dsimp only at h
    split at h
    · next hlt =>
      cases h
      exact .inl ⟨_, hlt, rfl, rfl⟩
    · split at h
      · cases h
        exact .inr ⟨_, List.takeWhile_append_dropWhile.symm, rfl⟩
      · cases h
  · cases h
    exact .inl ⟨rfl, rfl⟩

/-- The cursor keeps count of the tokens in front of it. -/
structure StandsBehind (c : Cursor) (ts : List Token) : Prop where
  isLaidOut : IsLaidOut ts
  indents : countOf .indent ts = countOf .dedent ts + c.indents.length
  depth : depthBehind 0 ts = c.depth
  hasStatement : c.inStatement → HasStatement ts

theorem standsBehind_start (s : List Char) : StandsBehind { rest := s } [] :=
  ⟨.nil, rfl, rfl, nofun⟩

/-- One more token without brackets. -/
theorem StandsBehind.concat {next : Cursor} {t : Token} (h : c.StandsBehind ts) (ht : Follows ts t)
    (hindents : countOf .indent (ts ++ [t]) = countOf .dedent (ts ++ [t]) + next.indents.length)
    (hdepth : t.depthBehind c.depth = next.depth)
    (hstatement : next.inStatement → HasStatement (ts ++ [t])) : next.StandsBehind (ts ++ [t]) where
  isLaidOut := h.isLaidOut.concat ht
  indents := hindents
  depth := by
    rw [depthBehind_append, h.depth]
    exact hdepth
  hasStatement := hstatement

theorem StandsBehind.dedents {closed indents : List Nat} (h : c.StandsBehind ts)
    (hdepth : c.depth = 0) (hclosed : c.indents = closed ++ indents) :
    StandsBehind { c with indents := indents }
      (ts ++ closed.map fun _ => ⟨.dedent, "", c.line⟩) := by
  induction closed generalizing c ts with
  | nil =>
    obtain rfl : c.indents = indents := hclosed
    rwa [List.map_nil, List.append_nil]
  | cons width closed ih =>
    have hlength := h.indents
    rw [hclosed, List.length_append, List.length_cons] at hlength
    have hfollows : Follows ts ⟨.dedent, "", c.line⟩ :=
      ⟨fun _ => h.depth.trans hdepth, fun _ => by omega, nofun, nofun⟩
    have hnext : StandsBehind { c with indents := closed ++ indents }
        (ts ++ [⟨.dedent, "", c.line⟩]) := by
      refine h.concat hfollows ?_ rfl fun hopen => (h.hasStatement hopen).concat rfl
      simp
      omega
    rw [List.map_cons, List.append_cons]
    exact ih (c := { c with indents := closed ++ indents }) hnext hdepth rfl

/-- A change of indentation is counted. -/
theorem StandsBehind.layout {changes : List Token} {indents : List Nat} (h : c.StandsBehind ts)
    (hlayout : c.layout = .ok (changes, indents)) :
    StandsBehind { c with indents := indents } (ts ++ changes) := by
  rcases cases_of_layout hlayout with ⟨rfl, rfl⟩ | ⟨hdepth, ⟨width, -, rfl, rfl⟩ |
      ⟨closed, hclosed, rfl⟩⟩
  · rwa [List.append_nil]
  · have hfollows : Follows ts ⟨.indent, "", c.line⟩ :=
      ⟨fun _ => h.depth.trans hdepth, nofun, nofun, nofun⟩
    refine h.concat hfollows ?_ rfl fun hopen => (h.hasStatement hopen).concat rfl
    simp [h.indents]
    omega
  · exact h.dedents hdepth hclosed

@[simp] theorem indents_take (c : Cursor) (l : Lexeme) (rest : List Char) :
    (c.take l rest).2.indents = c.indents := by
  cases l <;> rfl

/-- A line end ends the statement on its line, if there is one outside of brackets. -/
theorem StandsBehind.follows_lineEnd (h : c.StandsBehind ts) :
    Follows ts
      ⟨if c.depth = 0 ∧ c.inStatement then .newline else .lineBreak, String.ofList ['\n'], c.line⟩ := by
  split
  · next hopen => exact ⟨fun _ => h.depth.trans hopen.1, nofun, fun _ => h.hasStatement hopen.2, nofun⟩
  · exact ⟨by simp, nofun, nofun, nofun⟩

/-- The cursor behind an element. -/
theorem StandsBehind.take (h : c.StandsBehind ts) (l : Lexeme) (rest : List Char) :
    (c.take l rest).2.StandsBehind (ts ++ (c.take l rest).1) where
  isLaidOut := by
    cases l with
    | joint => exact (List.append_nil ts).symm ▸ h.isLaidOut
    | lineEnd => exact h.isLaidOut.concat h.follows_lineEnd
    | _ => exact h.isLaidOut.concat ⟨by simp, nofun, nofun, nofun⟩
  indents := by
    have hnone : ∀ kind, kind = .indent ∨ kind = .dedent → countOf kind (c.take l rest).1 = 0 := by
      intro kind hkind
      refine List.countP_eq_zero.2 fun t ht => ?_
      have := kind_of_mem_take ht
      rcases hkind with rfl | rfl <;> simp [this]
    simp [h.indents, hnone]
  depth := by rw [depthBehind_append, h.depth, depth_take_eq]
  hasStatement := by
    cases l with
    | joint => exact (List.append_nil ts).symm ▸ h.hasStatement
    | comment text => exact fun hopen => (h.hasStatement hopen).concat rfl
    | lineEnd => exact nofun
    | _ => exact fun _ => .concat_part rfl

theorem StandsBehind.next (h : c.StandsBehind ts) (n : c.Next) :
    n.behind.StandsBehind (ts ++ (n.changes ++ n.tokens)) := by
  rw [← List.append_assoc]
  exact (h.layout n.layout_eq).take n.lexeme n.more

/-- The cursor keeps count over any way through the text. -/
theorem Passes.standsBehind {d : Cursor} {front : List Char} {us : List Token}
    (hpasses : c.Passes front us d) (h : c.StandsBehind ts) : d.StandsBehind (ts ++ us) := by
  induction hpasses generalizing ts with
  | refl c => rwa [List.append_nil]
  | step n _ ih =>
    rw [← List.append_assoc]
    exact ih (h.next n)

/-- The end of the text ends the statement and closes all indentations. -/
theorem StandsBehind.finish (h : c.StandsBehind ts) (hdepth : c.depth = 0) :
    StandsBehind { c with indents := [], inStatement := false } (ts ++ c.finish.tokens) := by
  have hfinish : c.finish.tokens =
      (if c.inStatement then [⟨.newline, "", c.line⟩] else []) ++
        c.indents.map fun _ => ⟨.dedent, "", c.line⟩ := by
    simp [Cursor.finish, hdepth]
  have hended : StandsBehind { c with inStatement := false }
      (ts ++ if c.inStatement then [⟨.newline, "", c.line⟩] else []) := by
    split
    · next hopen =>
      refine h.concat ⟨fun _ => h.depth.trans hdepth, nofun, fun _ => h.hasStatement hopen, nofun⟩
        ?_ rfl nofun
      simpa using h.indents
    · rw [List.append_nil]
      exact { h with hasStatement := nofun }
  rw [hfinish, ← List.append_assoc]
  exact hended.dedents hdepth (List.append_nil _).symm

/-! ### The widths of open indentations -/

/-- The widths of the open indentations, outermost first. -/
def widths (c : Cursor) : List Nat :=
  0 :: c.indents.reverse

theorem pairwise_widths_iff : c.widths.Pairwise (· < ·) ↔ (c.indents ++ [0]).Pairwise (· > ·) := by
  rw [← List.pairwise_reverse, widths]
  simp

/-- The innermost indentation is the widest. -/
theorem le_headD_of_mem {indents : List Nat} (h : (indents ++ [0]).Pairwise (· > ·)) :
    ∀ width ∈ indents ++ [0], width ≤ indents.headD 0 := by
  cases indents with
  | nil => simp
  | cons inner outer =>
    have hinner := (List.pairwise_cons.1 h).1
    intro width hwidth
    rcases List.mem_cons.1 hwidth with rfl | hwidth
    · exact Nat.le_refl _
    · exact Nat.le_of_lt (hinner width hwidth)

/-- An indentation is wider than the one it stands in, and those that are left when inner ones are
closed were open before. -/
theorem pairwise_widths_layout {changes : List Token} {indents : List Nat}
    (hlayout : c.layout = .ok (changes, indents)) (h : c.widths.Pairwise (· < ·)) :
    ({ c with indents := indents } : Cursor).widths.Pairwise (· < ·) := by
  rw [pairwise_widths_iff] at h ⊢
  rcases cases_of_layout hlayout with ⟨-, rfl⟩ | ⟨-, ⟨width, hwidth, -, rfl⟩ | ⟨closed, hclosed, -⟩⟩
  · exact h
  · refine List.pairwise_cons.2 ⟨fun outer houter => ?_, h⟩
    exact Nat.lt_of_le_of_lt (le_headD_of_mem h outer houter) hwidth
  · rw [hclosed, List.append_assoc] at h
    exact (List.pairwise_append.1 h).2.1

theorem Passes.pairwise_widths {d : Cursor} {front : List Char} {us : List Token}
    (hpasses : c.Passes front us d) (h : c.widths.Pairwise (· < ·)) :
    d.widths.Pairwise (· < ·) := by
  induction hpasses with
  | refl c => exact h
  | @step c d front us n _ ih =>
    have hbehind : n.behind.widths = ({ c with indents := n.indents } : Cursor).widths :=
      congrArg (0 :: List.reverse ·) (indents_take _ _ _)
    exact ih (hbehind ▸ pairwise_widths_layout n.layout_eq h)

end Cursor

/-! ### The tokens of a source -/

section Source

variable {source : String}

/-- The tokens of a source that comes to its end are well laid out, with all indentations and
brackets closed behind them. -/
theorem isLaidOut_tokens {line : Nat} (h : (tokenize source).ending = .ok line) :
    IsLaidOut (tokenize source).tokens ∧
      countOf .indent (tokenize source).tokens = countOf .dedent (tokenize source).tokens ∧
      depthBehind 0 (tokenize source).tokens = 0 := by
  obtain ⟨front, ts, d, hpasses, -, hdepth, -, htokens⟩ := Cursor.exists_passes_of_ok h
  have hend := (hpasses.standsBehind (Cursor.standsBehind_start _)).finish hdepth
  rw [List.nil_append, ← htokens] at hend
  exact ⟨hend.isLaidOut, hend.indents, hend.depth.trans hdepth⟩

/-- Any other token than the end marker stands among those in front of it. -/
theorem exists_of_append_endMarker {ts us vs : List Token} {t : Token} {line : Nat}
    (h : ts ++ [Token.endMarker line] = us ++ t :: vs) (ht : t.kind ≠ .endMarker) :
    ∃ ws, ts = us ++ t :: ws := by
  rcases List.eq_nil_or_concat vs with rfl | ⟨ws, w, rfl⟩
  · obtain ⟨-, he⟩ := List.append_inj' h rfl
    exact absurd (congrArg Token.kind (List.singleton_inj.1 he).symm) ht
  · have hsplit : ts ++ [Token.endMarker line] = us ++ t :: ws ++ [w] := by simpa using h
    exact ⟨ws, (List.append_inj' hsplit rfl).1⟩

/-- Where the reading of a source comes to the end marker, its indents and dedents are balanced, they
and the ends of statements stand outside of brackets, all brackets are closed, every end of a
statement has a part of one in front of it on its line, and the end marker stands once, at the end.
On the whole way the widths of the open indentations increase, from zero on. -/
theorem layout_tokenize {line : Nat} (h : (tokenize source).ending = .ok line) :
    (∀ init, init <+: (tokenize source).all → countOf .dedent init ≤ countOf .indent init) ∧
      countOf .dedent (tokenize source).all = countOf .indent (tokenize source).all ∧
      (∀ ts t us, (tokenize source).all = ts ++ t :: us →
        t.kind = .indent ∨ t.kind = .dedent ∨ t.kind = .newline → depthBehind 0 ts = 0) ∧
      depthBehind 0 (tokenize source).all = 0 ∧
      (∀ ts t us, (tokenize source).all = ts ++ t :: us → t.kind = .newline → HasStatement ts) ∧
      (∃ ts, (tokenize source).all = ts ++ [Token.endMarker line] ∧ ∀ t ∈ ts, t.kind ≠ .endMarker) ∧
      ∀ front ts d, Cursor.Passes { rest := source.toList } front ts d →
        d.widths.Pairwise (· < ·) := by
  obtain ⟨hlaid, hcount, hdepth⟩ := isLaidOut_tokens h
  have hall : (tokenize source).all = (tokenize source).tokens ++ [Token.endMarker line] := by
    simp [Lexed.all, h]
  have hclosed : countOf .dedent (tokenize source).all = countOf .indent (tokenize source).all := by
    simp [hall, hcount, Token.endMarker]
  have hfollows : ∀ ts t us, (tokenize source).all = ts ++ t :: us → t.kind ≠ .endMarker →
      Follows ts t := by
    intro ts t us he ht
    obtain ⟨ws, hws⟩ := exists_of_append_endMarker (hall ▸ he) ht
    exact (hws ▸ hlaid).follows
  refine ⟨fun init hinit => ?_, hclosed, fun ts t us he ht => ?_, ?_, fun ts t us he ht => ?_,
    ⟨_, hall, fun t ht => ?_⟩, fun front ts d hpasses => hpasses.pairwise_widths ?_⟩
  · rcases List.prefix_concat_iff.1 (hall ▸ hinit) with rfl | ⟨rest, hrest⟩
    · exact Nat.le_of_eq (hall ▸ hclosed)
    · exact (hrest ▸ hlaid).of_append.dedents_le
  · refine (hfollows ts t us he ?_).outside ht
    rcases ht with hk | hk | hk <;> simp [hk]
  · rw [hall, depthBehind_append, hdepth]
    rfl
  · exact (hfollows ts t us he (by simp [ht])).newline ht
  · obtain ⟨before, after, hsplit⟩ := List.append_of_mem ht
    exact (hsplit ▸ hlaid).follows.ne_endMarker
  · exact List.pairwise_singleton _ _

/-- Blank lines, a comment, brackets over two lines with one closed too many, a joined line, and two
indentations that the end of the text closes. -/
def nestedBlocks : String :=
  "if a:\n\n    # b\n    f(c,\n  d))\n    if \\\n e:\n\t\tg"

theorem layout_tokenize_nestedBlocks :
    (tokenize nestedBlocks).ending = .ok 8 ∧ countOf .indent (tokenize nestedBlocks).all = 2 ∧
      countOf .dedent (tokenize nestedBlocks).all = countOf .indent (tokenize nestedBlocks).all :=
  have h : (tokenize nestedBlocks).ending = .ok 8 := by decide +kernel
  ⟨h, by decide +kernel, (layout_tokenize h).2.1⟩

end Source

end PotExtract.Python
