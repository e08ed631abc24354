import Mathlib.Data.List.TakeWhile
import PotExtract.Proofs.Python.Lookahead

/-! What is known of an element that is read: which characters it takes, and that they stand in
front of what is left behind it. -/

namespace PotExtract.Python.Lexeme

variable {c quote : Char} {s lead text rest : List Char} {l : Lexeme}

theorem append_of_closeLine (h : closeLine quote s = some (text, rest)) : text ++ rest = s := by
  fun_induction closeLine quote s generalizing text rest with
  | case1 | case4 | case5 => cases h
  | case2 s ih | case3 c s _ ih | case7 c s _ _ _ _ _ ih =>
    obtain ⟨⟨t, r⟩, ht, he⟩ := Option.map_eq_some_iff.1 h
    cases he
    simp [ih ht]
  | case6 s =>
    cases h
    rfl

theorem append_of_closeTriple (h : closeTriple quote s = some (text, rest)) : text ++ rest = s := by
  fun_induction closeTriple quote s generalizing text rest with
  | case1 | case4 => cases h
  | case2 s ih | case3 c s _ ih | case6 c s _ _ _ _ ih =>
    obtain ⟨⟨t, r⟩, ht, he⟩ := Option.map_eq_some_iff.1 h
    cases he
    simp [ih ht]
  | case5 c s _ _ _ hq =>
    cases h
    have htake : s = s.take 2 ++ s.drop 2 := (List.take_append_drop 2 s).symm
    rw [hq.2] at htake
    rw [hq.1]
    exact congrArg (quote :: ·) htake.symm

theorem suffix_of_closeLine (h : closeLine quote s = some (text, rest)) : [quote] <:+ text := by
  fun_induction closeLine quote s generalizing text rest with
  | case1 | case4 | case5 => cases h
  | case2 s ih =>
    obtain ⟨⟨t, r⟩, ht, he⟩ := Option.map_eq_some_iff.1 h
    cases he
    exact (ih ht).trans (List.suffix_append ['\\', '\r', '\n'] t)
  | case3 c s _ ih =>
    obtain ⟨⟨t, r⟩, ht, he⟩ := Option.map_eq_some_iff.1 h
    cases he
    exact (ih ht).trans (List.suffix_append ['\\', c] t)
  | case6 s =>
    cases h
    exact List.suffix_refl _
  | case7 c s _ _ _ _ _ ih =>
    obtain ⟨⟨t, r⟩, ht, he⟩ := Option.map_eq_some_iff.1 h
    cases he
    exact (ih ht).trans (List.suffix_cons c t)

theorem suffix_of_closeTriple (h : closeTriple quote s = some (text, rest)) :
    [quote, quote, quote] <:+ text := by
  fun_induction closeTriple quote s generalizing text rest with
  | case1 | case4 => cases h
  | case2 s ih =>
    obtain ⟨⟨t, r⟩, ht, he⟩ := Option.map_eq_some_iff.1 h
    cases he
    exact (ih ht).trans (List.suffix_append ['\\', '\r', '\n'] t)
  | case3 c s _ ih =>
    obtain ⟨⟨t, r⟩, ht, he⟩ := Option.map_eq_some_iff.1 h
    cases he
    exact (ih ht).trans (List.suffix_append ['\\', c] t)
  | case5 c s _ _ _ hq =>
    cases h
    obtain ⟨rfl, -⟩ := hq
    exact List.suffix_refl _
  | case6 c s _ _ _ _ ih =>
    obtain ⟨⟨t, r⟩, ht, he⟩ := Option.map_eq_some_iff.1 h
    cases he
    exact (ih ht).trans (List.suffix_cons c t)

theorem isNameChar_of_lineEnd : isNameChar '\n' = false ∧ isNameChar '\r' = false := by decide

/-- At an opening quote a string is read up to its closing quotes, or the quote alone. -/
theorem cases_of_readString (h : readString lead quote s = some (l, rest)) :
    (∃ body, l = .string (lead ++ [quote, quote, quote] ++ body) (linesInside body) ∧
        s = [quote, quote] ++ (body ++ rest) ∧ [quote, quote, quote] <:+ body) ∨
      (∃ body, l = .string (lead ++ quote :: body) (linesInside body) ∧
        s = body ++ rest ∧ [quote] <:+ body ∧ s.take 2 ≠ [quote, quote]) ∨
      (l = .stray (lead ++ [quote]) ∧ s = rest) := by
  unfold readString at h
  split at h
  · next htwo =>
    obtain ⟨⟨body, tail⟩, hbody, he⟩ := Option.map_eq_some_iff.1 h
    cases he
    refine .inl ⟨body, rfl, ?_, suffix_of_closeTriple hbody⟩
    rw [append_of_closeTriple hbody, ← htwo, List.take_append_drop]
  · next htwo =>
    split at h
    · next body tail hbody =>
      cases h
      have happend := append_of_closeLine hbody
      exact .inr (.inl ⟨body, rfl, happend.symm, suffix_of_closeLine hbody, htwo⟩)
    · cases h
      exact .inr (.inr ⟨rfl, rfl⟩)

/-- What is known of an element that is read at `c :: s`, with `rest` left behind it. -/
def IsReadAt (c : Char) (s rest : List Char) : Lexeme → Prop
  | .comment text =>
    c = '#' ∧ text = c :: s.takeWhile (!isLineEnd ·) ∧ rest = s.dropWhile (!isLineEnd ·)
  | .joint => c = '\\' ∧ ∃ d t, s = d :: t ∧ isLineEnd d ∧ rest = afterLineEnd s
  | .lineEnd => isLineEnd c ∧ rest = afterLineEnd (c :: s)
  | .number text => ∃ hex, text = c :: (takeNumber hex c s).1 ∧ rest = (takeNumber hex c s).2
  | .name text =>
    isNameStart c ∧ text = (c :: s).takeWhile isNameChar ∧ rest = (c :: s).dropWhile isNameChar
  | .string text lines =>
    ∃ lead quote tail, (quote = '"' ∨ quote = '\'') ∧ (∀ d ∈ lead, isNameChar d) ∧
      c :: s = lead ++ quote :: tail ∧ readString lead quote tail = some (.string text lines, rest)
  | .operator text =>
    (text ∈ longOperators ∨ text ∈ pairOperators ∨ text = [c]) ∧ c :: s = text ++ rest
  | .stray text =>
    ∃ lead d, text = lead ++ [d] ∧ (∀ e ∈ lead, isNameChar e) ∧ isLineEnd d = false ∧
      c :: s = text ++ rest

theorem isReadAt_of_readString {tail : List Char} (hquote : quote = '"' ∨ quote = '\'')
    (hlead : ∀ d ∈ lead, isNameChar d) (hs : c :: s = lead ++ quote :: tail)
    (h : readString lead quote tail = some (l, rest)) : l.IsReadAt c s rest := by
  rcases cases_of_readString h with ⟨body, rfl, -⟩ | ⟨body, rfl, -⟩ | ⟨rfl, rfl⟩
  · exact ⟨lead, quote, tail, hquote, hlead, hs, h⟩
  · exact ⟨lead, quote, tail, hquote, hlead, hs, h⟩
  · have hend : isLineEnd quote = false := by rcases hquote with rfl | rfl <;> rfl
    exact ⟨lead, quote, rfl, hlead, hend, by simp [hs]⟩

theorem isReadAt_of_readName (hc : isNameStart c) (h : readName (c :: s) = some (l, rest)) :
    l.IsReadAt c s rest := by
  have happend : (c :: s).takeWhile isNameChar ++ (c :: s).dropWhile isNameChar = c :: s :=
    List.takeWhile_append_dropWhile
  unfold readName at h
  dsimp only at h
  split at h
  · next d tail hd =>
    split at h
    · next hquote =>
      have hword : ∀ e ∈ (c :: s).takeWhile isNameChar, isNameChar e := fun e he =>
        List.mem_takeWhile_imp he
      exact isReadAt_of_readString hquote.1 hword (by rw [← hd, happend]) h
    · cases h
      exact ⟨hc, rfl, rfl⟩
  · next hd =>
    cases h
    exact ⟨hc, rfl, hd.symm⟩

theorem isReadAt_readOperator (hc : isLineEnd c = false) (s : List Char) :
    (readOperator c s).1.IsReadAt c s (readOperator c s).2 := by
  unfold readOperator
  split
  · next hlong => exact ⟨.inl hlong, (List.take_append_drop 3 (c :: s)).symm⟩
  split
  · next hpair => exact ⟨.inr (.inl hpair), (List.take_append_drop 2 (c :: s)).symm⟩
  split
  · exact ⟨.inr (.inr rfl), rfl⟩
  · exact ⟨[], c, rfl, List.forall_mem_nil _, hc, rfl⟩

theorem isReadAt_of_read (h : read c s = some (l, rest)) : l.IsReadAt c s rest := by
  unfold read at h
  split at h
  · next hc =>
    cases h
    exact ⟨hc, rfl, rfl⟩
  split at h
  · next hjoint =>
    cases h
    cases s with
    | nil => simp at hjoint
    | cons d s => exact ⟨hjoint.1, d, s, rfl, by simpa using hjoint.2, rfl⟩
  split at h
  · next hend =>
    cases h
    exact ⟨hend, rfl⟩
  next hend =>
  split at h
  · cases h
    exact ⟨_, rfl, rfl⟩
  split at h
  · next hc => exact isReadAt_of_readName hc h
  split at h
  · next hquote => exact isReadAt_of_readString hquote (List.forall_mem_nil _) rfl h
  · have hread := isReadAt_readOperator (Bool.eq_false_iff.2 hend) s
    rwa [Option.some.inj h] at hread

/-- The text taken for an element. A line end is a line feed, a carriage return, or both. -/
def IsWritten : Lexeme → List Char → Prop
  | .comment text, written | .number text, written | .name text, written | .string text _, written
  | .operator text, written | .stray text, written => written = text
  | .joint, written => ∃ c, isLineEnd c ∧ (written = ['\\', c] ∨ written = ['\\', '\r', '\n'])
  | .lineEnd, written => ∃ c, isLineEnd c ∧ (written = [c] ∨ written = ['\r', '\n'])

theorem append_takeNumber (hex : Bool) (previous : Char) (s : List Char) :
    (takeNumber hex previous s).1 ++ (takeNumber hex previous s).2 = s := by
  induction s generalizing previous with
  | nil => rfl
  | cons c s ih =>
    rw [takeNumber]
    split
    · exact congrArg (c :: ·) (ih c)
    · rfl

theorem exists_afterLineEnd (hc : isLineEnd c) (s : List Char) :
    ∃ written, c :: s = written ++ afterLineEnd (c :: s) ∧
      (written = [c] ∨ written = ['\r', '\n']) := by
  unfold afterLineEnd
  split
  · next h =>
    obtain ⟨rfl, rfl⟩ := List.cons.inj h
    exact ⟨['\r', '\n'], rfl, .inr rfl⟩
  · next h =>
    obtain ⟨rfl, rfl⟩ := List.cons.inj h
    exact ⟨[c], rfl, .inl rfl⟩
  · next h => cases h

/-- Every element takes the text in front of what is left. -/
theorem isWritten_of_read (h : read c s = some (l, rest)) :
    ∃ written, c :: s = written ++ rest ∧ l.IsWritten written := by
  have hread := isReadAt_of_read h
  cases l with
  | comment text =>
    obtain ⟨-, rfl, rfl⟩ := hread
    exact ⟨_, congrArg (c :: ·) List.takeWhile_append_dropWhile.symm, rfl⟩
  | joint =>
    obtain ⟨rfl, d, t, rfl, hd, rfl⟩ := hread
    obtain ⟨written, hw, hl⟩ := exists_afterLineEnd hd t
    refine ⟨'\\' :: written, congrArg ('\\' :: ·) hw, d, hd, ?_⟩
    exact hl.imp (congrArg ('\\' :: ·)) (congrArg ('\\' :: ·))
  | lineEnd =>
    obtain ⟨hend, rfl⟩ := hread
    obtain ⟨written, hw, hl⟩ := exists_afterLineEnd hend s
    exact ⟨written, hw, c, hend, hl⟩
  | number text =>
    obtain ⟨hex, rfl, rfl⟩ := hread
    exact ⟨_, congrArg (c :: ·) (append_takeNumber hex c s).symm, rfl⟩
  | name text =>
    obtain ⟨-, rfl, rfl⟩ := hread
    exact ⟨_, List.takeWhile_append_dropWhile.symm, rfl⟩
  | string text lines =>
    obtain ⟨lead, quote, tail, -, -, hs, hstring⟩ := hread
    rcases cases_of_readString hstring with ⟨body, he, rfl, -⟩ | ⟨body, he, rfl, -⟩ | ⟨he, -⟩
    · cases he
      exact ⟨_, by simp [hs], rfl⟩
    · cases he
      exact ⟨_, by simp [hs], rfl⟩
    · cases he
  | operator text => exact ⟨text, hread.2, rfl⟩
  | stray text =>
    obtain ⟨_, _, -, -, -, hs⟩ := hread
    exact ⟨text, hs, rfl⟩

theorem exists_cons_of_read {written : List Char} (h : read c s = some (l, rest))
    (hs : c :: s = written ++ rest) : ∃ w, written = c :: w ∧ s = w ++ rest := by
  cases written with
  | nil =>
    have hlength := congrArg List.length hs
    have hle := length_read_le h
    simp only [List.nil_append, List.length_cons] at hlength
    omega
  | cons d w =>
    obtain ⟨rfl, rfl⟩ := List.cons.inj hs
    exact ⟨w, rfl, rfl⟩

end PotExtract.Python.Lexeme
