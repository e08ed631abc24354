import PotExtract.Proofs.Python.LexemeTexts
import PotExtract.Proofs.Python.Lexing

/-! The text of a source in its tokens. The texts of the tokens stand in the source one behind the
other, and nothing stands between them but white space and joined lines: no character is passed
over, and none is taken twice. -/

namespace PotExtract.Python

/-- The ways to end a line. -/
def lineEnds : List (List Char) :=
  [['\n'], ['\r', '\n'], ['\r']]

/-- The text between two tokens: white space, and line ends behind a backslash. -/
inductive IsGapText : List Char → Prop
  | nil : IsGapText []
  | gap {c : Char} {s : List Char} : Cursor.isGap c → IsGapText s → IsGapText (c :: s)
  | joint {lineEnd s : List Char} :
    lineEnd ∈ lineEnds → IsGapText s → IsGapText ('\\' :: (lineEnd ++ s))

theorem IsGapText.of_forall {s : List Char} (h : ∀ c ∈ s, Cursor.isGap c) : IsGapText s := by
  induction s with
  | nil => exact .nil
  | cons c s ih =>
    obtain ⟨hc, hs⟩ := List.forall_mem_cons.1 h
    exact .gap hc (ih hs)

theorem IsGapText.append {s s' : List Char} (h : IsGapText s) (h' : IsGapText s') :
    IsGapText (s ++ s') := by
  induction h with
  | nil => exact h'
  | gap hc _ ih => exact .gap hc ih
  | joint hend _ ih =>
    rw [List.cons_append, List.append_assoc]
    exact .joint hend ih

namespace Token

/-- Whether the token has any text. -/
def hasText (t : Token) : Bool :=
  t.text != ""

/-- The text that a token stands for. It is the text of the token, and the line feed of a token
that ends a line may be any line end. -/
inductive StandsFor (t : Token) : List Char → Prop
  | text : t.StandsFor t.text.toList
  | lineEnd {written : List Char} : t.kind = .newline ∨ t.kind = .lineBreak → t.text = "\n" →
    written ∈ lineEnds → t.StandsFor written

end Token

/-- The tokens stand for the parts of a text one behind the other, with gaps around them. -/
inductive Tiles : List Token → List Char → Prop
  | nil {gap : List Char} : IsGapText gap → Tiles [] gap
  | cons {gap written s : List Char} {t : Token} {ts : List Token} :
    IsGapText gap → t.StandsFor written → Tiles ts s → Tiles (t :: ts) (gap ++ (written ++ s))

theorem Tiles.gap_append {gap s : List Char} {ts : List Token} (hgap : IsGapText gap)
    (h : Tiles ts s) : Tiles ts (gap ++ s) := by
  cases h with
  | nil hs => exact .nil (hgap.append hs)
  | cons hs ht hts =>
    rw [← List.append_assoc]
    exact .cons (hgap.append hs) ht hts

theorem mem_lineEnds {c : Char} (hc : Lexeme.isLineEnd c) :
    [c] ∈ lineEnds ∧ ['\r', '\n'] ∈ lineEnds := by
  obtain rfl | rfl : c = '\n' ∨ c = '\r' := by simpa [Lexeme.isLineEnd] using hc
  · decide
  · decide

namespace Cursor

variable {c : Cursor} {l : Lexeme} {rest written s : List Char} {ts : List Token}

theorem filter_hasText_eq_nil {ts : List Token} (h : ∀ t ∈ ts, t.text = "") :
    ts.filter Token.hasText = [] := by
  refine List.filter_eq_nil_iff.2 fun t ht => ?_
  simp [Token.hasText, h t ht]

theorem text_of_mem_layout {changes : List Token} {indents : List Nat}
    (h : c.layout = .ok (changes, indents)) : ∀ t ∈ changes, t.text = "" := by
  intro t ht
  rcases eq_of_mem_layout h ht with rfl | rfl <;> rfl

theorem text_of_mem_finish : ∀ t ∈ c.finish.tokens, t.text = "" := by
  intro t ht
  obtain ⟨-, rfl | rfl⟩ := eq_of_mem_finish ht <;> rfl

/-- The token of an element stands for its text. -/
theorem standsFor_of_mem_take {t : Token} (h : t ∈ (c.take l rest).1)
    (hl : l.IsWritten written) : t.StandsFor written := by
  cases l with
  | joint => cases h
  | lineEnd =>
    obtain rfl := List.mem_singleton.1 h
    obtain ⟨d, hd, hw⟩ := hl
    obtain ⟨hone, htwo⟩ := mem_lineEnds hd
    have hend : written ∈ lineEnds := by
      rcases hw with rfl | rfl
      · exact hone
      · exact htwo
    refine .lineEnd ?_ rfl hend
    dsimp only
    split
    · exact .inl rfl
    · exact .inr rfl
  | _ =>
    obtain rfl := List.mem_singleton.1 h
    obtain rfl : written = _ := hl
    simpa using Token.StandsFor.text (t := ⟨_, String.ofList written, c.line⟩)

/-- An element adds what is written for it: a joint to the gap, and any other to the tokens. -/
theorem tiles_take (hne : written ≠ []) (hl : l.IsWritten written) (h : Tiles ts s) :
    Tiles ((c.take l rest).1.filter Token.hasText ++ ts) (written ++ s) := by
  have hmem : ∀ t, (c.take l rest).1 = [t] → t.hasText →
      Tiles ((c.take l rest).1.filter Token.hasText ++ ts) (written ++ s) := by
    intro t ht htext
    have hstands := standsFor_of_mem_take (ht ▸ List.mem_singleton_self t) hl
    rw [ht, List.filter_cons_of_pos htext]
    exact Tiles.cons .nil hstands h
  have hsome : String.ofList written ≠ "" := by
    simpa using hne
  cases l with
  | joint =>
    obtain ⟨d, hd, hw⟩ := hl
    obtain ⟨hone, htwo⟩ := mem_lineEnds hd
    have hgap : IsGapText written := by
      rcases hw with rfl | rfl
      · exact .joint hone .nil
      · exact .joint htwo .nil
    exact h.gap_append hgap
  | lineEnd => exact hmem _ rfl rfl
  | _ =>
    obtain rfl : written = _ := hl
    exact hmem _ rfl (by simp [Token.hasText, hsome])

/-- The tokens from the cursor on tile the text up to where the reading stops, and all of it if it
comes to the end. -/
theorem exists_tiles (c : Cursor) :
    ∃ front rest, c.rest = front ++ rest ∧ Tiles (c.lex.tokens.filter Token.hasText) front ∧
      (c.lex.ending.isOk → rest = []) := by
  fun_induction lex c with
  | case1 c h =>
    have hgap : ∀ d ∈ c.rest, isGap d := List.dropWhile_eq_nil_iff.1 h
    refine ⟨c.rest, [], (List.append_nil _).symm, ?_, fun _ => rfl⟩
    rw [filter_hasText_eq_nil text_of_mem_finish]
    exact .nil (.of_forall hgap)
  | case2 c first rest h fault hs =>
    exact ⟨[], c.rest, rfl, .nil .nil, fun hok => by cases hok⟩
  | case3 c first rest h tokens next hs _ later ih =>
    obtain ⟨changes, indents, l, more, hlayout, hread, rfl, rfl⟩ := exists_of_step hs
    obtain ⟨written, hw, hl⟩ := Lexeme.isWritten_of_read hread
    obtain ⟨w, rfl, -⟩ := Lexeme.exists_cons_of_read hread hw
    obtain ⟨front, rest', hrest, htiles, hend⟩ := ih
    rw [take_rest] at hrest
    have hgap : IsGapText (c.rest.takeWhile isGap) :=
      .of_forall fun d hd => List.mem_takeWhile_imp hd
    refine ⟨c.rest.takeWhile isGap ++ (first :: w ++ front), rest', ?_, ?_, hend⟩
    · calc c.rest = c.rest.takeWhile isGap ++ c.rest.dropWhile isGap :=
            List.takeWhile_append_dropWhile.symm
        _ = _ := by rw [h, hw, hrest, List.append_assoc, List.append_assoc]
    · rw [List.filter_append, List.filter_append,
        filter_hasText_eq_nil (text_of_mem_layout hlayout), List.nil_append]
      exact (tiles_take (List.cons_ne_nil _ _) hl htiles).gap_append hgap

end Cursor

/-- The end marker has no text. -/
theorem filter_hasText_all (l : Lexed) :
    l.all.filter Token.hasText = l.tokens.filter Token.hasText := by
  unfold Lexed.all
  split
  · rw [List.filter_append]
    exact List.append_nil _
  · rfl

/-- Where the reading of a source comes to the end marker, the texts of its tokens are the source,
with nothing but gaps between them. -/
theorem tiles_tokenize {source : String} {line : Nat} (h : (tokenize source).ending = .ok line) :
    Tiles ((tokenize source).all.filter Token.hasText) source.toList := by
  obtain ⟨front, rest, hsource, htiles, hend⟩ := Cursor.exists_tiles { rest := source.toList }
  change source.toList = front ++ rest at hsource
  change Tiles ((tokenize source).tokens.filter _) front at htiles
  change (tokenize source).ending.isOk → rest = [] at hend
  have hrest : rest = [] := by
    apply hend
    rw [h]
    rfl
  rw [filter_hasText_all, hsource, hrest, List.append_nil]
  exact htiles

/-- A call over joined lines, with a quote that no other one closes behind it. -/
theorem tiles_tokenize_strayQuote :
    (tokenize "f(\\\r\n 'a' ) #c\r\"b\n").ending = .ok 4 ∧
      Tiles ((tokenize "f(\\\r\n 'a' ) #c\r\"b\n").all.filter Token.hasText)
        "f(\\\r\n 'a' ) #c\r\"b\n".toList :=
  have h : (tokenize "f(\\\r\n 'a' ) #c\r\"b\n").ending = .ok 4 := by decide +kernel
  ⟨h, tiles_tokenize h⟩

end PotExtract.Python
