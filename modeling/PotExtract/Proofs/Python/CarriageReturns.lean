import PotExtract.Proofs.Python.Lexing
import PotExtract.Proofs.Python.LexemeTexts

/-! Line ends of two characters. With a carriage return in front of every line feed a text has the
same tokens on the same lines, but for the line feeds inside of strings. -/

namespace PotExtract

namespace Text

/-- The text with a carriage return in front of every line feed. -/
def withReturns : List Char → List Char
  | [] => []
  | c :: s => if c = '\n' then '\r' :: '\n' :: withReturns s else c :: withReturns s

variable {p : Char → Bool} {s t : List Char} {c : Char}

@[simp] theorem withReturns_feed (s : List Char) :
    withReturns ('\n' :: s) = '\r' :: '\n' :: withReturns s := rfl

theorem withReturns_cons (hc : c ≠ '\n') (s : List Char) :
    withReturns (c :: s) = c :: withReturns s := by
  rw [withReturns, if_neg hc]

@[simp] theorem withReturns_append (s t : List Char) :
    withReturns (s ++ t) = withReturns s ++ withReturns t := by
  induction s with
  | nil => rfl
  | cons c s ih =>
    by_cases hc : c = '\n'
    · simp [hc, ih]
    · simp [withReturns_cons hc, ih]

theorem withReturns_eq_self (h : '\n' ∉ s) : withReturns s = s := by
  induction s with
  | nil => rfl
  | cons c s ih =>
    simp only [List.mem_cons, not_or] at h
    rw [withReturns_cons (Ne.symm h.1), ih h.2]

theorem mem_withReturns (h : '\n' ∈ s) : '\r' ∈ withReturns s := by
  induction s with
  | nil => cases h
  | cons c s ih =>
    by_cases hc : c = '\n'
    · simp [hc]
    · rw [withReturns_cons hc]
      have hs : '\n' ∈ s := (List.mem_cons.1 h).resolve_left (Ne.symm hc)
      exact List.mem_cons_of_mem c (ih hs)

theorem takeWhile_withReturns (hfeed : p '\n' = false) (hreturn : p '\r' = false)
    (s : List Char) : (withReturns s).takeWhile p = s.takeWhile p := by
  induction s with
  | nil => rfl
  | cons c s ih =>
    by_cases hc : c = '\n'
    · simp [hc, hfeed, hreturn]
    · rw [withReturns_cons hc, List.takeWhile_cons, List.takeWhile_cons, ih]

theorem dropWhile_withReturns (hfeed : p '\n' = false) (hreturn : p '\r' = false)
    (s : List Char) : (withReturns s).dropWhile p = withReturns (s.dropWhile p) := by
  induction s with
  | nil => rfl
  | cons c s ih =>
    by_cases hc : c = '\n'
    · simp [hc, hfeed, hreturn]
    · rw [withReturns_cons hc, List.dropWhile_cons, List.dropWhile_cons, ih]
      split
      · rfl
      · rw [withReturns_cons hc]

theorem any_head?_withReturns (h : p '\n' = p '\r') (s : List Char) :
    (withReturns s).head?.any p = s.head?.any p := by
  cases s with
  | nil => rfl
  | cons c s =>
    by_cases hc : c = '\n'
    · simp [hc, h]
    · simp [withReturns_cons hc]

theorem take_withReturns {n : Nat} (h : '\n' ∉ s.take n) :
    (withReturns s).take n = s.take n ∧ (withReturns s).drop n = withReturns (s.drop n) := by
  induction n generalizing s with
  | zero => exact ⟨rfl, rfl⟩
  | succ n ih =>
    cases s with
    | nil => exact ⟨rfl, rfl⟩
    | cons c s =>
      simp only [List.take_succ_cons, List.mem_cons, not_or] at h
      obtain ⟨htake, hdrop⟩ := ih h.2
      rw [withReturns_cons (Ne.symm h.1)]
      exact ⟨congrArg (c :: ·) htake, hdrop⟩

theorem mem_take_withReturns {n : Nat} (h : '\n' ∈ s.take n) : '\r' ∈ (withReturns s).take n := by
  induction n generalizing s with
  | zero => cases h
  | succ n ih =>
    cases s with
    | nil => cases h
    | cons c s =>
      by_cases hc : c = '\n'
      · simp [hc]
      · rw [withReturns_cons hc]
        have hs : '\n' ∈ s.take n := (List.mem_cons.1 h).resolve_left (Ne.symm hc)
        exact List.mem_cons_of_mem c (ih hs)

/-- A row of characters without line ends stands in front of both texts or of none. -/
theorem take_withReturns_eq_iff {word : List Char} {n : Nat} (hfeed : '\n' ∉ word)
    (hreturn : '\r' ∉ word) : (withReturns s).take n = word ↔ s.take n = word := by
  by_cases h : '\n' ∈ s.take n
  · refine iff_of_false ?_ ?_
    · rintro rfl
      exact hreturn (mem_take_withReturns h)
    · rintro rfl
      exact hfeed h
  · rw [(take_withReturns h).1]

end Text

namespace Python

open Text

namespace Lexeme

/-- The element in a text with carriage returns. -/
def withReturns : Lexeme → Lexeme
  | .string text lines => .string (Text.withReturns text) lines
  | l => l

variable {s text rest : List Char} {c quote : Char}

/-- What is read of a text with carriage returns. -/
def resultWithReturns (r : Lexeme × List Char) : Lexeme × List Char :=
  (r.1.withReturns, Text.withReturns r.2)

theorem takeNumber_withReturns (hex : Bool) (previous : Char) (s : List Char) :
    takeNumber hex previous (Text.withReturns s) =
      ((takeNumber hex previous s).1, Text.withReturns (takeNumber hex previous s).2) := by
  induction s generalizing previous with
  | nil => rfl
  | cons c s ih =>
    by_cases hc : c = '\n'
    · subst hc
      rfl
    · rw [withReturns_cons hc, takeNumber, takeNumber]
      split
      · rw [ih c]
      · rw [withReturns_cons hc]

theorem afterLineEnd_withReturns (h : '\r' ∉ c :: s) :
    afterLineEnd (Text.withReturns (c :: s)) = Text.withReturns (afterLineEnd (c :: s)) := by
  have hc : c ≠ '\r' := by
    rintro rfl
    exact h List.mem_cons_self
  have hafter : ∀ t : List Char, afterLineEnd (c :: t) = t := by
    intro t
    rw [afterLineEnd.eq_def]
    split <;> simp_all
  rw [hafter]
  by_cases hn : c = '\n'
  · subst hn
    rfl
  · rw [withReturns_cons hn, hafter]

/-- The result of closing a string in a text with carriage returns. -/
def closedWithReturns (r : List Char × List Char) : List Char × List Char :=
  (Text.withReturns r.1, Text.withReturns r.2)

theorem ne_return_of_not_mem (h : '\r' ∉ c :: s) : c ≠ '\r' ∧ '\r' ∉ s := by
  simp only [List.mem_cons, not_or] at h
  exact ⟨Ne.symm h.1, h.2⟩

theorem closeLine_withReturns (hquote : isLineEnd quote = false) (h : '\r' ∉ s) :
    closeLine quote (Text.withReturns s) = (closeLine quote s).map closedWithReturns := by
  fun_induction closeLine quote s with
  | case1 => rfl
  | case2 s => simp at h
  | case3 c s _ ih =>
    obtain ⟨hc, hs⟩ := ne_return_of_not_mem (ne_return_of_not_mem h).2
    rw [withReturns_cons (by decide)]
    by_cases hfeed : c = '\n'
    · subst hfeed
      rw [withReturns_feed, closeLine, ih hs, Option.map_map, Option.map_map]
      rfl
    · rw [withReturns_cons hfeed, closeLine.eq_3 _ _ _ fun _ hr _ => hc hr, ih hs, Option.map_map,
        Option.map_map]
      congr 1
      funext r
      simp [closedWithReturns, withReturns_cons, hfeed]
  | case4 => rfl
  | case5 c s _ hcons hnil hend =>
    have hc : c = '\n' := by
      have hreturn := (ne_return_of_not_mem h).1
      simpa [isLineEnd, hreturn] using hend
    subst hc
    rfl
  | case6 s _ hcons hnil hend =>
    have hfeed : quote ≠ '\n' := by
      rintro rfl
      exact hend rfl
    rw [withReturns_cons hfeed, closeLine_cons _ (ne_backslash hcons hnil), if_neg hend, if_pos rfl]
    simp [closedWithReturns, Text.withReturns, hfeed]
  | case7 c s _ hcons hnil hend hq ih =>
    have hfeed : c ≠ '\n' := by
      rintro rfl
      exact hend rfl
    rw [withReturns_cons hfeed, closeLine_cons _ (ne_backslash hcons hnil), if_neg hend, if_neg hq,
      ih (ne_return_of_not_mem h).2, Option.map_map, Option.map_map]
    congr 1
    funext r
    simp [closedWithReturns, withReturns_cons hfeed]

theorem closeTriple_withReturns (hquote : isLineEnd quote = false) (h : '\r' ∉ s) :
    closeTriple quote (Text.withReturns s) = (closeTriple quote s).map closedWithReturns := by
  have hne : quote ≠ '\n' ∧ quote ≠ '\r' := by simpa [isLineEnd] using hquote
  have htwo : ∀ t : List Char, (Text.withReturns t).take 2 = [quote, quote] ↔
      t.take 2 = [quote, quote] := by
    intro t
    exact take_withReturns_eq_iff (by simp [Ne.symm hne.1]) (by simp [Ne.symm hne.2])
  fun_induction closeTriple quote s with
  | case1 => rfl
  | case2 s => simp at h
  | case3 c s _ ih =>
    obtain ⟨hc, hs⟩ := ne_return_of_not_mem (ne_return_of_not_mem h).2
    rw [withReturns_cons (by decide)]
    by_cases hfeed : c = '\n'
    · subst hfeed
      rw [withReturns_feed, closeTriple, ih hs, Option.map_map, Option.map_map]
      rfl
    · rw [withReturns_cons hfeed, closeTriple.eq_3 _ _ _ fun _ hr _ => hc hr, ih hs,
        Option.map_map, Option.map_map]
      congr 1
      funext r
      simp [closedWithReturns, withReturns_cons, hfeed]
  | case4 => rfl
  | case5 c s _ hcons hnil hq =>
    have hfeed : c ≠ '\n' := hq.1 ▸ hne.1
    have htake : '\n' ∉ s.take 2 := by simp [hq.2, Ne.symm hne.1]
    rw [withReturns_cons hfeed, closeTriple_cons _ (ne_backslash hcons hnil),
      if_pos ⟨hq.1, (htwo s).2 hq.2⟩, (take_withReturns htake).2]
    simp [closedWithReturns, Text.withReturns, hfeed]
  | case6 c s _ hcons hnil hq ih =>
    have hs := (ne_return_of_not_mem h).2
    by_cases hfeed : c = '\n'
    · subst hfeed
      rw [withReturns_feed, closeTriple_cons _ (by decide), if_neg fun hr => hne.2 hr.1.symm,
        closeTriple_cons _ (by decide), if_neg fun hr => hne.1 hr.1.symm, ih hs, Option.map_map,
        Option.map_map, Option.map_map]
      rfl
    · rw [withReturns_cons hfeed, closeTriple_cons _ (ne_backslash hcons hnil),
        if_neg fun hr => hq ⟨hr.1, (htwo s).1 hr.2⟩, ih hs, Option.map_map, Option.map_map]
      congr 1
      funext r
      simp [closedWithReturns, withReturns_cons hfeed]

theorem linesInside_withReturns (h : '\r' ∉ s) :
    linesInside (Text.withReturns s) = linesInside s := by
  fun_induction linesInside s with
  | case1 => rfl
  | case2 s => simp at h
  | case3 c s _ ih =>
    obtain ⟨hc, hs⟩ := ne_return_of_not_mem (ne_return_of_not_mem h).2
    rw [withReturns_cons (by decide)]
    by_cases hfeed : c = '\n'
    · subst hfeed
      rw [withReturns_feed, linesInside, ih hs]
      rfl
    · rw [withReturns_cons hfeed, linesInside.eq_3 _ _ fun _ hr _ => hc hr, ih hs]
  | case4 c s _ hcons ih =>
    have hs := (ne_return_of_not_mem h).2
    have hslash : c = '\\' → s = [] := by
      rintro rfl
      cases s with
      | nil => rfl
      | cons d t => exact (hcons d t rfl rfl).elim
    by_cases hc : c = '\\'
    · rw [hslash hc, hc]
      rfl
    by_cases hfeed : c = '\n'
    · subst hfeed
      simp [linesInside, ih hs]
    · simp [withReturns_cons hfeed, linesInside, hc, ih hs]

theorem readString_withReturns {lead : List Char} (hquote : isLineEnd quote = false)
    (hlead : '\n' ∉ lead) (h : '\r' ∉ s) :
    readString lead quote (Text.withReturns s) =
      (readString lead quote s).map resultWithReturns := by
  have hne : '\n' ≠ quote ∧ '\r' ≠ quote := by
    constructor <;> rintro rfl <;> cases hquote
  have htwo : (Text.withReturns s).take 2 = [quote, quote] ↔ s.take 2 = [quote, quote] :=
    take_withReturns_eq_iff (by simp [hne.1]) (by simp [hne.2])
  have hkeep : ∀ t, Text.withReturns (quote :: t) = quote :: Text.withReturns t :=
    withReturns_cons (Ne.symm hne.1)
  unfold readString
  simp only [htwo]
  split
  · next hopen =>
    have htake : '\n' ∉ s.take 2 := by simp [hopen, hne.1]
    have hdrop : '\r' ∉ s.drop 2 := fun hr => h (List.mem_of_mem_drop hr)
    rw [(take_withReturns htake).2, closeTriple_withReturns hquote hdrop]
    cases hclose : closeTriple quote (s.drop 2) with
    | none => rfl
    | some r =>
      obtain ⟨text, rest⟩ := r
      have htext : '\r' ∉ text := by
        intro hr
        rw [← append_of_closeTriple hclose] at hdrop
        exact hdrop (List.mem_append_left rest hr)
      simp [resultWithReturns, closedWithReturns, withReturns, linesInside_withReturns htext, hkeep,
        withReturns_eq_self hlead]
  · rw [closeLine_withReturns hquote h]
    cases hclose : closeLine quote s with
    | none => rfl
    | some r =>
      obtain ⟨text, rest⟩ := r
      have htext : '\r' ∉ text := by
        intro hr
        rw [← append_of_closeLine hclose] at h
        exact h (List.mem_append_left rest hr)
      simp [resultWithReturns, closedWithReturns, withReturns, linesInside_withReturns htext, hkeep,
        withReturns_eq_self hlead]

theorem readName_withReturns (h : '\r' ∉ s) :
    readName (Text.withReturns s) = (readName s).map resultWithReturns := by
  have hword := takeWhile_withReturns isNameChar_of_lineEnd.1 isNameChar_of_lineEnd.2 s
  have hrest := dropWhile_withReturns isNameChar_of_lineEnd.1 isNameChar_of_lineEnd.2 s
  have hreturn : '\r' ∉ s.dropWhile isNameChar := by
    intro hr
    exact h ((List.dropWhile_suffix isNameChar).mem hr)
  have hfeed : '\n' ∉ s.takeWhile isNameChar := by
    intro hn
    have hchar := List.mem_takeWhile_imp hn
    rw [isNameChar_of_lineEnd.1] at hchar
    cases hchar
  unfold readName
  dsimp only
  rw [hword, hrest]
  cases hs : s.dropWhile isNameChar with
  | nil => rfl
  | cons d tail =>
    by_cases hd : d = '\n'
    · subst hd
      rfl
    rw [withReturns_cons hd]
    dsimp only
    split
    · next hquote =>
      have hline : isLineEnd d = false := by
        rcases hquote.1 with rfl | rfl <;> rfl
      rw [hs] at hreturn
      exact readString_withReturns hline hfeed (ne_return_of_not_mem hreturn).2
    · simp [resultWithReturns, withReturns, withReturns_cons hd]

theorem take_mem_withReturns {n : Nat} (words : List (List Char))
    (h : words.all fun word => !word.contains '\n' && !word.contains '\r') :
    ((Text.withReturns s).take n ∈ words ↔ s.take n ∈ words) ∧
      (s.take n ∈ words → (Text.withReturns s).take n = s.take n ∧
        (Text.withReturns s).drop n = Text.withReturns (s.drop n)) := by
  have hfree : ∀ word ∈ words, '\n' ∉ word ∧ '\r' ∉ word := by
    intro word hword
    simpa using List.all_eq_true.1 h word hword
  constructor
  · constructor
    · intro hword
      obtain ⟨hfeed, hreturn⟩ := hfree _ hword
      rwa [(take_withReturns_eq_iff hfeed hreturn).1 rfl]
    · intro hword
      obtain ⟨hfeed, hreturn⟩ := hfree _ hword
      rwa [(take_withReturns_eq_iff hfeed hreturn).2 rfl]
  · intro hword
    exact take_withReturns (hfree _ hword).1

theorem readOperator_withReturns (hc : c ≠ '\n') (s : List Char) :
    readOperator c (Text.withReturns s) = resultWithReturns (readOperator c s) := by
  have hlong := take_mem_withReturns (s := c :: s) (n := 3) longOperators (by decide)
  have hpair := take_mem_withReturns (s := c :: s) (n := 2) pairOperators (by decide)
  rw [withReturns_cons hc] at hlong hpair
  unfold readOperator
  simp only [hlong.1, hpair.1]
  split
  · next h =>
    obtain ⟨htake, hdrop⟩ := hlong.2 h
    exact Prod.ext (congrArg Lexeme.operator htake) hdrop
  split
  · next h =>
    obtain ⟨htake, hdrop⟩ := hpair.2 h
    exact Prod.ext (congrArg Lexeme.operator htake) hdrop
  split <;> rfl

theorem read_feed (s : List Char) : read '\n' s = some (.lineEnd, s) ∧
    read '\r' ('\n' :: s) = some (.lineEnd, s) := by
  constructor <;> simp [read, isLineEnd, afterLineEnd]

/-- An element that is no line end is read alike in both texts. -/
theorem read_withReturns (hc : c ≠ '\n') (h : '\r' ∉ c :: s) :
    read c (Text.withReturns s) = (read c s).map resultWithReturns := by
  obtain ⟨hreturn, hs⟩ := ne_return_of_not_mem h
  have hhead : ∀ p : Char → Bool, p '\n' = p '\r' →
      (Text.withReturns s).head?.any p = s.head?.any p := fun p hp => any_head?_withReturns hp s
  unfold read
  split
  · next hcomment =>
    rw [takeWhile_withReturns rfl rfl, dropWhile_withReturns rfl rfl]
    rfl
  rw [hhead isLineEnd rfl]
  split
  · next hjoint =>
    cases s with
    | nil => simp at hjoint
    | cons d s =>
      rw [afterLineEnd_withReturns hs]
      rfl
  split
  · next hend => simp [isLineEnd, hc, hreturn] at hend
  rw [hhead Char.isDigit rfl, hhead (fun d => d == 'x' || d == 'X') rfl]
  split
  · simp [takeNumber_withReturns, resultWithReturns, withReturns]
  split
  · rw [← withReturns_cons hc]
    exact readName_withReturns h
  split
  · next hquote =>
    have hline : isLineEnd c = false := by simp [isLineEnd, hc, hreturn]
    exact readString_withReturns hline (by simp) hs
  · rw [readOperator_withReturns hc]
    rfl

end Lexeme

end Python

end PotExtract
