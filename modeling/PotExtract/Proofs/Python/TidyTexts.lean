import PotExtract.Proofs.Python.ClosingBrace
import PotExtract.Proofs.Python.DeletedComments

/-! Texts in which nothing is stray. The code of an expression is such a text, also with the white space
around it, and in such a text an underscore behind an element starts a word. -/

namespace PotExtract.Python

open Text

/-! ### Texts without strays -/

/-- A text that is read to its end, and in which nothing is stray but white space. -/
inductive IsTidy : List Char → Prop
  | nil : IsTidy []
  | blank {c : Char} {s : List Char} : isBlank c → IsTidy s → IsTidy (c :: s)
  | element {c : Char} {s rest : List Char} {l : Lexeme} : isBlank c = false →
    Lexeme.read c s = some (l, rest) → (∀ text, l ≠ .stray text) → IsTidy rest → IsTidy (c :: s)

namespace IsTidy

variable {c : Char} {s rest : List Char} {l : Lexeme}

theorem blanks_append {w : List Char} (hw : ∀ c ∈ w, isBlank c) (h : IsTidy s) :
    IsTidy (w ++ s) := by
  induction w with
  | nil => exact h
  | cons c w ih =>
    obtain ⟨hc, hw⟩ := List.forall_mem_cons.1 hw
    exact .blank hc (ih hw)

theorem of_blank (hc : isBlank c) (h : IsTidy (c :: s)) : IsTidy s := by
  cases h with
  | blank _ hs => exact hs
  | element hne =>
    rw [hc] at hne
    cases hne

theorem of_blanks_append {w : List Char} (hw : ∀ c ∈ w, isBlank c) (h : IsTidy (w ++ s)) :
    IsTidy s := by
  induction w with
  | nil => exact h
  | cons c w ih =>
    obtain ⟨hc, hw⟩ := List.forall_mem_cons.1 hw
    exact ih hw (of_blank hc h)

/-- What is left behind an element is tidy, and the element is no stray, white space aside. -/
theorem of_read (h : IsTidy (c :: s)) (hgap : Cursor.isGap c = false)
    (hread : Lexeme.read c s = some (l, rest)) :
    IsTidy rest ∧ ∀ text, l = .stray text → ∀ d ∈ text, isBlank d := by
  cases h with
  | blank hc hs =>
    by_cases hend : Lexeme.isLineEnd c
    · rw [Lexeme.read_lineEnd hend] at hread
      cases hread
      refine ⟨?_, nofun⟩
      -- a carriage return takes the line feed behind it
      unfold Lexeme.afterLineEnd
      split
      · next heq =>
        obtain ⟨-, rfl⟩ := List.cons.inj heq
        exact of_blank (by decide) hs
      · next heq =>
        obtain ⟨-, rfl⟩ := List.cons.inj heq
        exact hs
      · exact .nil
    · rw [read_of_blank hc hgap (by simpa using hend)] at hread
      cases hread
      refine ⟨hs, ?_⟩
      rintro text ⟨⟩ d hd
      rwa [List.mem_singleton.1 hd]
  | element _ hread' hstray hrest =>
    obtain ⟨rfl, rfl⟩ := Prod.mk.inj (Option.some.inj (hread.symm.trans hread'))
    exact ⟨hrest, fun text heq => absurd heq (hstray text)⟩

/-- White space behind a text goes to the comment at its end, or stands for itself. -/
theorem append_blanks {w : List Char} (hw : ∀ c ∈ w, isBlank c) (h : IsTidy s)
    (hlast : ∀ c ∈ s.getLast?, isBlank c = false) : IsTidy (s ++ w) := by
  have hnil : IsTidy w := by simpa using IsTidy.nil.blanks_append hw
  induction h with
  | nil => exact hnil
  | @blank c s hc _ ih =>
    refine .blank hc (ih fun d hd => hlast d ?_)
    cases s with
    | nil => cases hd
    | cons e s => simpa using hd
  | @element c s rest l hc hread hstray _ ih =>
    have hrest : IsTidy (rest ++ w) := by
      refine ih fun d hd => hlast d ?_
      have hne : rest ≠ [] := by
        rintro rfl
        cases hd
      rwa [Cursor.getLast?_of_suffix ((Lexeme.read_suffix hread).trans (List.suffix_cons c s)) hne]
    by_cases hcomment : c = '#'
    · subst hcomment
      have hread' : Lexeme.read '#' (s ++ w) = _ := rfl
      cases hread
      refine .element hc hread' nofun ?_
      rw [List.dropWhile_append]
      split
      · obtain ⟨v, hv⟩ := List.dropWhile_suffix (!Lexeme.isLineEnd ·) (l := w)
        have hblank := fun d hd => hw d (hv ▸ List.mem_append_right v hd)
        simpa using IsTidy.nil.blanks_append hblank
      · exact hrest
    · have hopen : l.isOpen = false := by
        by_contra hopen
        obtain ⟨text, rfl⟩ := Lexeme.eq_stray_of_read hread hcomment (by simpa using hopen)
        exact hstray text rfl
      have hapart : Lexeme.IsApart w := fun d hd =>
        standsApart_of_blank (hw d (List.mem_of_mem_head? hd))
      refine .element hc (Lexeme.read_append hapart (fun hr => ?_) hread hopen) hstray hrest
      have := hlast '\r' hr
      cases this

end IsTidy

namespace Cursor

variable {c : Cursor}

/-- A stray character is no part of an expression. -/
theorem isTidy_of_foldTokens? {b b' : Beginning} (h : c.foldTokens? Beginning.take? b = some b') :
    IsTidy c.rest := by
  fun_induction foldTokens? Beginning.take? b c with
  | case1 b c hrest =>
    have hgap := List.dropWhile_eq_nil_iff.1 hrest
    simpa using IsTidy.nil.blanks_append fun d hd => isBlank_of_isGap (hgap d hd)
  | case2 | case3 => cases h
  | case4 b c first rest hfirst tokens next hs _ ih =>
    obtain ⟨b₁, htokens, hnext⟩ := Option.bind_eq_some_iff.1 h
    obtain ⟨changes, indents, l, more, -, hread, rfl, rfl⟩ := exists_of_step hs
    have hmore : IsTidy more := by
      have := ih b₁ hnext
      rwa [take_rest] at this
    have hstray : ∀ text, l ≠ .stray text := by
      rintro text rfl
      have hmem : (⟨.stray, String.ofList text, c.line⟩ : Token) ∈
          changes ++ (({ c with indents := indents } : Cursor).take (.stray text) more).1 :=
        List.mem_append_right changes List.mem_cons_self
      rw [Beginning.foldlM_of_isForeign hmem rfl] at htokens
      cases htokens
    rw [rest_eq_of_dropWhile hfirst]
    refine IsTidy.blanks_append (fun d hd => isBlank_of_isGap (List.mem_takeWhile_imp hd)) ?_
    by_cases hblank : isBlank first
    · by_cases hend : Lexeme.isLineEnd first
      · obtain ⟨written, hw, hwritten⟩ := Lexeme.exists_afterLineEnd hend rest
        rw [Lexeme.read_lineEnd hend] at hread
        cases hread
        rw [hw]
        refine hmore.blanks_append fun d hd => ?_
        rcases hwritten with rfl | rfl
        · rwa [List.mem_singleton.1 hd]
        · have hall : ['\r', '\n'].all isBlank := by decide
          exact List.all_eq_true.1 hall d hd
      · have hgap := isGap_of_dropWhile hfirst
        rw [read_of_blank hblank hgap (by simpa using hend)] at hread
        cases hread
        exact absurd rfl (hstray _)
    · exact .element (by simpa using hblank) hread hstray hmore

end Cursor

theorem isTidy_of_isExpression {code : String} (h : isExpression code) : IsTidy code.toList := by
  obtain ⟨b, hb, -⟩ := (Option.any_eq_true _ _).1 h
  obtain ⟨w, hw, hblank⟩ := exists_trimRight_append (trimLeft code.toList)
  have htidy : IsTidy (trimLeft code.toList) := by
    rw [hw]
    exact (Cursor.isTidy_of_foldTokens? hb).append_blanks hblank fun d hd => getLast?_trimRight hd
  have hleft : code.toList = code.toList.takeWhile isBlank ++ trimLeft code.toList :=
    List.takeWhile_append_dropWhile.symm
  rw [hleft]
  exact htidy.blanks_append fun d hd => List.mem_takeWhile_imp hd

/-! ### The character in front of a word -/

theorem isWordChar_of_isBlank {c : Char} (h : isBlank c) : isWordChar c = false := by
  have hword : !isWordChar c := forall_isBlank (p := fun d => !isWordChar d) (by decide +kernel) h
  simpa using hword

namespace Lexeme

variable {c : Char} {s rest written more : List Char} {l : Lexeme}

theorem readString_ne_operator {lead text : List Char} {quote : Char} :
    readString lead quote s ≠ some (.operator text, rest) := by
  intro h
  rcases cases_of_readString h with ⟨_, he, -⟩ | ⟨_, he, -⟩ | ⟨he, -⟩ <;> cases he

theorem readName_ne_operator {text : List Char} : readName s ≠ some (.operator text, rest) := by
  intro h
  unfold readName at h
  dsimp only at h
  split at h
  · split at h
    · exact readString_ne_operator h
    · cases h
  · cases h

/-- The operators are those in the lists. -/
theorem mem_of_read_operator {text : List Char} (h : read c s = some (.operator text, rest)) :
    text ∈ longOperators ++ pairOperators ++ singleOperators.map fun d => [d] := by
  have hread : readOperator c s = (.operator text, rest) := by
    unfold read at h
    split at h
    · cases h
    split at h
    · cases h
    split at h
    · cases h
    split at h
    · cases h
    split at h
    · exact absurd h readName_ne_operator
    split at h
    · exact absurd h readString_ne_operator
    · exact Option.some.inj h
  unfold readOperator at hread
  split at hread
  · next hlong =>
    cases hread
    exact List.mem_append_left _ (List.mem_append_left _ hlong)
  split at hread
  · next hpair =>
    cases hread
    exact List.mem_append_left _ (List.mem_append_right _ hpair)
  split at hread
  · next hsingle =>
    cases hread
    exact List.mem_append_right _ (List.mem_map_of_mem hsingle)
  · cases hread

theorem isWordChar_of_operator {text : List Char} (h : read c s = some (.operator text, rest)) :
    ∀ p ∈ text.getLast?, isWordChar p = false := by
  have hall : (longOperators ++ pairOperators ++ singleOperators.map fun d => [d]).all fun op =>
      op.getLast?.all (!isWordChar ·) := by decide +kernel
  intro p hp
  have hop := List.all_eq_true.1 hall text (mem_of_read_operator h)
  simpa using (Option.all_eq_true _ _).1 hop p hp

theorem ne_underscore_of_takeNumber (hex : Bool) (previous : Char) (s : List Char) :
    (takeNumber hex previous s).2 ≠ '_' :: more := by
  induction s generalizing previous with
  | nil => nofun
  | cons c s ih =>
    rw [takeNumber]
    split
    · exact ih c
    · next h =>
      rintro ⟨⟩
      simp at h

/-- A string ends in its quote. -/
theorem suffix_of_readString {lead text : List Char} {quote : Char} {lines : Nat}
    (h : readString lead quote s = some (.string text lines, rest)) : [quote] <:+ text := by
  rcases cases_of_readString h with ⟨body, he, -, hbody⟩ | ⟨body, he, -, hbody, -⟩ | ⟨he, -⟩
  · cases he
    exact (List.suffix_append [quote, quote] [quote]).trans (hbody.trans (List.suffix_append _ _))
  · cases he
    exact hbody.trans ((List.suffix_cons _ _).trans (List.suffix_append _ _))
  · cases he

/-- An element that an underscore follows does not end in a character of a word. -/
theorem isWordChar_of_read (h : read c s = some (l, '_' :: more))
    (hstray : ∀ text, l = .stray text → ∀ d ∈ text, isBlank d)
    (hw : c :: s = written ++ '_' :: more) : ∀ p ∈ written.getLast?, isWordChar p = false := by
  obtain ⟨written', hw', hl⟩ := isWritten_of_read h
  obtain rfl : written' = written := List.append_cancel_right (hw'.symm.trans hw)
  have hends : ∀ d, isLineEnd d → isWordChar d = false := by
    intro d hd
    obtain rfl | rfl : d = '\n' ∨ d = '\r' := by simpa [isLineEnd] using hd
    · decide
    · decide
  have hread := isReadAt_of_read h
  cases l with
  | comment text =>
    obtain ⟨rfl, -, -⟩ := hread
    have hend := isLineEnd_of_read_comment h '_' rfl
    cases hend
  | joint =>
    obtain ⟨d, hd, rfl | rfl⟩ := hl
    · simpa using hends d hd
    · simpa using hends '\n' rfl
  | lineEnd =>
    obtain ⟨d, hd, rfl | rfl⟩ := hl
    · simpa using hends d hd
    · simpa using hends '\n' rfl
  | number text =>
    obtain ⟨hex, -, hrest⟩ := hread
    exact absurd hrest.symm (ne_underscore_of_takeNumber hex c s)
  | name text =>
    obtain ⟨-, -, hrest⟩ := hread
    have hstop := List.head?_dropWhile_not isNameChar (c :: s)
    rw [← hrest] at hstop
    cases hstop
  | string text lines =>
    obtain rfl : written' = text := hl
    obtain ⟨lead, quote, tail, hquote, -, -, hstring⟩ := hread
    rw [Cursor.getLast?_of_suffix (suffix_of_readString hstring) (List.cons_ne_nil _ _)]
    have hquotes : isWordChar '"' = false ∧ isWordChar '\'' = false := by decide
    rcases hquote with rfl | rfl <;> simp [hquotes]
  | operator text =>
    obtain rfl : written' = text := hl
    exact isWordChar_of_operator h
  | stray text =>
    obtain rfl : written' = text := hl
    intro p hp
    have hblank := hstray _ rfl p (List.mem_of_mem_getLast? hp)
    exact isWordChar_of_isBlank hblank

end Lexeme

end PotExtract.Python
