import PotExtract.Proofs.Python.CallPlaces
import PotExtract.Proofs.Python.Lexing
import PotExtract.Proofs.Python.TokenTexts

/-! Where tokens start. A token is made where the text left over starts with it, and the line it
carries is the one on which that place is: line ends are counted as the elements pass them, at the
end of a line, behind a backslash, and inside of strings. -/

namespace PotExtract.Python

open Text

/-- The text `s` starts with what the token stands for, and `behind` is behind it. -/
def Token.Starts (t : Token) (s behind : List Char) : Prop :=
  ∃ written, t.StandsFor written ∧ s = written ++ behind

/-- A token without text starts any text. -/
theorem Token.starts_self {t : Token} (h : t.text = "") (s : List Char) : t.Starts s s :=
  ⟨[], by simpa [h] using StandsFor.text (t := t), rfl⟩

/-- The second token starts behind the text of the first. -/
def IsInFront (p q : Token × List Char) : Prop :=
  ∃ behind, p.1.Starts p.2 behind ∧ q.2 <:+ behind

namespace Cursor

variable {c : Cursor} {t : Token} {front ahead : List Char}

/-- The tokens from the cursor on, each with the text left over where it is made. -/
def placedTokens (c : Cursor) : List (Token × List Char) :=
  match h : c.rest.dropWhile isGap with
  | [] => c.finish.tokens.map (·, [])
  | first :: rest =>
    match hs : c.step first rest with
    | .error _ => []
    | .ok (tokens, next) =>
      have : next.rest.length < c.rest.length := length_step_lt h hs
      tokens.map (·, first :: rest) ++ next.placedTokens
  termination_by c.rest.length

theorem map_fst_placedTokens (c : Cursor) : c.placedTokens.map Prod.fst = c.lex.tokens := by
  fun_induction placedTokens c with
  | case1 c h => simp [lex_of_nil h, Function.comp_def]
  | case2 c first rest h fault hs => simp [lex_of_error h hs]
  | case3 c first rest h tokens next hs _ ih => simp [lex_of_step h hs, ih, Function.comp_def]

/-! ### What is passed in front of a token -/

/-- Behind the text `front`, in front of `ahead`, the token `t` is made: for an element and the
indentation in front of it, or at the end of the text. -/
inductive Makes (c : Cursor) (t : Token) : (front ahead : List Char) → Prop
  | element {front : List Char} {ts : List Token} {d : Cursor} (n : d.Next) :
    c.Passes front ts d → t ∈ n.changes ++ n.tokens →
    Makes c t (front ++ n.gap) (n.written ++ n.behind.rest)
  | finish {front : List Char} {ts : List Token} {d : Cursor} :
    c.Passes front ts d → d.rest.dropWhile isGap = [] → t ∈ d.finish.tokens →
    Makes c t (front ++ d.rest) []

theorem Makes.step (n : c.Next) (h : n.behind.Makes t front ahead) :
    c.Makes t (n.gap ++ n.written ++ front) ahead := by
  cases h with
  | element m hpasses ht =>
    rw [← List.append_assoc]
    exact .element m (.step n hpasses) ht
  | finish hpasses hnil ht =>
    rw [← List.append_assoc]
    exact .finish (.step n hpasses) hnil ht

theorem makes_of_mem_placedTokens : ∀ p ∈ c.placedTokens, ∃ front, c.Makes p.1 front p.2 := by
  fun_induction placedTokens c with
  | case1 c h =>
    intro p hp
    obtain ⟨t, ht, rfl⟩ := List.mem_map.1 hp
    exact ⟨_, .finish (.refl c) h ht⟩
  | case2 => simp
  | case3 c first rest h tokens next hs _ ih =>
    intro p hp
    obtain ⟨n, htext, rfl, rfl⟩ := exists_next h hs
    rcases List.mem_append.1 hp with hp | hp
    · obtain ⟨t, ht, rfl⟩ := List.mem_map.1 hp
      rw [htext]
      exact ⟨_, .element n (.refl c) ht⟩
    · obtain ⟨front, hmakes⟩ := ih p hp
      exact ⟨_, hmakes.step n⟩

theorem Makes.rest_eq (h : c.Makes t front ahead) : c.rest = front ++ ahead := by
  cases h with
  | element n hpasses _ => rw [hpasses.rest_eq, n.rest_eq, List.append_assoc]
  | finish hpasses _ _ => rw [hpasses.rest_eq, List.append_nil]

/-- A change of indentation starts where the element behind it does, and takes nothing of it. -/
theorem Next.starts (n : c.Next) (h : t ∈ n.changes ++ n.tokens) :
    ∃ behind, t.Starts (n.written ++ n.behind.rest) behind ∧ n.behind.rest <:+ behind := by
  rcases List.mem_append.1 h with h | h
  · exact ⟨_, Token.starts_self (text_of_mem_layout n.layout_eq t h) _, List.suffix_append _ _⟩
  · exact ⟨_, ⟨_, standsFor_of_mem_take h n.isWritten, rfl⟩, List.suffix_refl _⟩

theorem Makes.starts (h : c.Makes t front ahead) : ∃ behind, t.Starts ahead behind := by
  cases h with
  | element n _ ht =>
    obtain ⟨behind, hstarts, -⟩ := n.starts ht
    exact ⟨behind, hstarts⟩
  | finish _ _ ht => exact ⟨[], Token.starts_self (text_of_mem_finish t ht) []⟩

theorem lineFeeds_of_dropWhile (h : c.rest.dropWhile isGap = []) : lineFeeds c.rest = 0 :=
  lineFeeds_of_forall isGap_of_lineEnd.1 (List.dropWhile_eq_nil_iff.1 h)

/-- A token has the line behind the line feeds in front of it. -/
theorem Makes.line_eq (h : c.Makes t front ahead) (hreturns : FeedsReturns c.rest) :
    t.line = c.line + lineFeeds front := by
  cases h with
  | element n hpasses ht =>
    have hline := (line_step (step_of_read n.layout_eq n.read_eq)).1 t ht
    rw [hline, hpasses.line_eq hreturns.1 fun _ => hreturns.2, lineFeeds_append, n.lineFeeds_gap]
    rfl
  | finish hpasses hnil ht =>
    rw [(of_mem_finish ht).2.1, hpasses.line_eq hreturns.1 fun _ => hreturns.2, lineFeeds_append,
      lineFeeds_of_dropWhile hnil]
    rfl

/-- The end of the text is on the line behind all its line feeds. -/
theorem line_ending (hreturns : FeedsReturns c.rest) {line : Nat} (h : c.lex.ending = .ok line) :
    line = c.line + lineFeeds c.rest := by
  obtain ⟨front, ts, d, hpasses, hnil, -, rfl, -⟩ := exists_passes_of_ok h
  rw [hpasses.rest_eq, lineFeeds_append, lineFeeds_of_dropWhile hnil]
  exact hpasses.line_eq hreturns.1 fun _ => hreturns.2

/-! ### The order of the places -/

theorem Next.isInFront_of_mem_changes (n : c.Next) (h : t ∈ n.changes) (u : Token) :
    IsInFront (t, n.written ++ n.behind.rest) (u, n.written ++ n.behind.rest) :=
  ⟨_, Token.starts_self (text_of_mem_layout n.layout_eq t h) _, List.suffix_refl _⟩

theorem pairwise_placedTokens (c : Cursor) : c.placedTokens.Pairwise IsInFront := by
  fun_induction placedTokens c with
  | case1 c h =>
    refine List.pairwise_map.2 (List.pairwise_of_forall_mem_list fun t ht u _ => ?_)
    exact ⟨[], Token.starts_self (text_of_mem_finish t ht) [], List.suffix_refl []⟩
  | case2 => exact .nil
  | case3 c first rest h tokens next hs _ ih =>
    obtain ⟨n, htext, rfl, rfl⟩ := exists_next h hs
    rw [htext]
    refine List.pairwise_append.2 ⟨List.pairwise_map.2 (List.pairwise_append.2 ⟨?_, ?_, ?_⟩), ih, ?_⟩
    · exact List.pairwise_of_forall_mem_list fun t ht u _ => n.isInFront_of_mem_changes ht u
    · have hlength : n.tokens.length ≤ 1 := length_take_le _ _ _
      cases htokens : n.tokens with
      | nil => exact .nil
      | cons t ts =>
        rw [htokens, List.length_cons] at hlength
        obtain rfl : ts = [] := List.eq_nil_of_length_eq_zero (by omega)
        exact List.pairwise_singleton _ _
    · exact fun t ht u _ => n.isInFront_of_mem_changes ht u
    · intro p hp q hq
      obtain ⟨t, ht, rfl⟩ := List.mem_map.1 hp
      obtain ⟨front, hmakes⟩ := makes_of_mem_placedTokens q hq
      obtain ⟨behind, hstarts, hsuffix⟩ := n.starts ht
      exact ⟨behind, hstarts, .trans ⟨front, hmakes.rest_eq.symm⟩ hsuffix⟩

end Cursor

/-! ### The tokens of a source -/

/-- The tokens of a source with the end marker, as far as there is one, each with the text from
where it starts. -/
def placedTokens (source : String) : List (Token × List Char) :=
  Cursor.placedTokens { rest := source.toList } ++
    match (tokenize source).ending with
    | .ok line => [(Token.endMarker line, [])]
    | .error _ => []

section Source

variable {source : String}

theorem map_fst_placedTokens (source : String) :
    (placedTokens source).map Prod.fst = (tokenize source).all := by
  have htokens : (Cursor.placedTokens { rest := source.toList }).map Prod.fst =
      (tokenize source).tokens := Cursor.map_fst_placedTokens _
  cases h : (tokenize source).ending with
  | ok line => simp [placedTokens, Lexed.all, h, htokens]
  | error e => simp [placedTokens, Lexed.all, h, htokens]

/-- A token of a source is one that the cursor makes on its way, or the end marker. -/
theorem makes_or_endMarker {p : Token × List Char} (h : p ∈ placedTokens source) :
    (∃ front, Cursor.Makes { rest := source.toList } p.1 front p.2) ∨
      ∃ line, (tokenize source).ending = .ok line ∧ p = (Token.endMarker line, []) := by
  rcases List.mem_append.1 h with h | h
  · exact .inl (Cursor.makes_of_mem_placedTokens p h)
  · split at h
    · next line hline => exact .inr ⟨line, hline, List.mem_singleton.1 h⟩
    · cases h

theorem starts_of_mem_placedTokens {p : Token × List Char} (h : p ∈ placedTokens source) :
    ∃ behind, p.1.Starts p.2 behind := by
  rcases makes_or_endMarker h with ⟨front, hmakes⟩ | ⟨line, -, rfl⟩
  · exact hmakes.starts
  · exact ⟨[], Token.starts_self rfl []⟩

theorem pairwise_placedTokens (source : String) : (placedTokens source).Pairwise IsInFront := by
  have htokens : (Cursor.placedTokens { rest := source.toList }).Pairwise IsInFront :=
    Cursor.pairwise_placedTokens _
  refine List.pairwise_append.2 ⟨htokens, ?_, fun p hp q hq => ?_⟩
  · split
    · exact List.pairwise_singleton _ _
    · exact .nil
  · obtain ⟨behind, hstarts⟩ := starts_of_mem_placedTokens (List.mem_append_left _ hp)
    split at hq
    · obtain rfl := List.mem_singleton.1 hq
      exact ⟨behind, hstarts, List.nil_suffix⟩
    · cases hq

theorem line_of_mem_placedTokens (hreturns : FeedsReturns source.toList) {p : Token × List Char}
    (h : p ∈ placedTokens source) :
    ∃ front, source.toList = front ++ p.2 ∧ p.1.line = 1 + lineFeeds front := by
  rcases makes_or_endMarker h with ⟨front, hmakes⟩ | ⟨line, hline, rfl⟩
  · exact ⟨front, hmakes.rest_eq, hmakes.line_eq hreturns⟩
  · exact ⟨source.toList, (List.append_nil _).symm, Cursor.line_ending hreturns hline⟩

/-- Where every carriage return stands directly in front of a line feed, each token of a source, the
end marker included, has the line behind the line feeds in front of the place where it starts: its
text is written there, and behind that of the tokens in front of it. The lines never decrease. -/
theorem line_placedTokens (hreturns : FeedsReturns source.toList) :
    (placedTokens source).map Prod.fst = (tokenize source).all ∧
      (placedTokens source).Pairwise IsInFront ∧
      (∀ p ∈ placedTokens source, (∃ behind, p.1.Starts p.2 behind) ∧
        ∃ front, source.toList = front ++ p.2 ∧ p.1.line = 1 + lineFeeds front) ∧
      (tokenize source).all.Pairwise (·.line ≤ ·.line) := by
  refine ⟨map_fst_placedTokens source, pairwise_placedTokens source,
    fun p hp => ⟨starts_of_mem_placedTokens hp, line_of_mem_placedTokens hreturns hp⟩, ?_⟩
  rw [← map_fst_placedTokens, List.pairwise_map]
  refine (pairwise_placedTokens source).imp_of_mem fun {p q} hp hq hfronts => ?_
  obtain ⟨behind, ⟨written, -, hstarts⟩, between, rfl⟩ := hfronts
  obtain ⟨front, hfront, hline⟩ := line_of_mem_placedTokens hreturns hp
  obtain ⟨front', hfront', hline'⟩ := line_of_mem_placedTokens hreturns hq
  have hsource : front ++ (written ++ between) ++ q.2 = front' ++ q.2 := by
    rw [← hfront', hfront, hstarts, List.append_assoc, List.append_assoc]
  obtain rfl := List.append_cancel_right hsource
  rw [hline, hline', lineFeeds_append]
  omega

/-- A string over two lines behind a joined line, with line ends of both kinds, and a stray quote. -/
def joinedString : String :=
  "x = \\\r\n  '''a\\\nb'''\r\n\"y\n"

theorem line_placedTokens_joinedString :
    FeedsReturns joinedString.toList ∧
      (tokenize joinedString).all.map Token.line = [1, 1, 2, 3, 4, 4, 4, 5] ∧
      ∀ p ∈ placedTokens joinedString, ∃ front,
        joinedString.toList = front ++ p.2 ∧ p.1.line = 1 + lineFeeds front :=
  have h : FeedsReturns joinedString.toList := by decide +kernel
  ⟨h, by decide +kernel, fun p hp => ((line_placedTokens h).2.2.1 p hp).2⟩

end Source

end PotExtract.Python
