import PotExtract.Text.Blank
import PotExtract.Text.Lines

/-! The lines of a text: a text written line by line is read line by line, and cutting a text at its
lines keeps its words. -/

namespace PotExtract.Text

theorem splitOn_append_cons {c : Char} (s t : List Char) :
    (s ++ c :: t).splitOn c = s.splitOn c ++ t.splitOn c := by
  rw [List.splitOn_eq_splitOnP, List.splitOnP_append_cons _ _ (by simp)]
  rfl

/-- The characters of a piece are those of the text, without the one between the pieces. -/
theorem of_mem_splitOn {c d : Char} {s p : List Char} (hp : p ∈ s.splitOn c) (hd : d ∈ p) :
    d ≠ c ∧ d ∈ s := by
  induction s generalizing p with
  | nil =>
    rw [List.mem_singleton.1 hp] at hd
    cases hd
  | cons e s ih =>
    rw [List.splitOn_eq_splitOnP, List.splitOnP_cons_eq_if_modifyHead,
      ← List.splitOn_eq_splitOnP] at hp
    split at hp
    · rcases List.mem_cons.1 hp with rfl | hp
      · cases hd
      · exact ⟨(ih hp hd).1, List.mem_cons_of_mem e (ih hp hd).2⟩
    next he =>
    cases hs : s.splitOn c with
    | nil => exact absurd hs (by simp)
    | cons q qs =>
      rw [hs] at hp ih
      rcases List.mem_cons.1 hp with rfl | hp
      · rcases List.mem_cons.1 hd with rfl | hd
        · exact ⟨by simpa using he, List.mem_cons_self⟩
        · have h := ih List.mem_cons_self hd
          exact ⟨h.1, List.mem_cons_of_mem e h.2⟩
      · have h := ih (List.mem_cons_of_mem q hp) hd
        exact ⟨h.1, List.mem_cons_of_mem e h.2⟩

theorem getLast?_splitOn {c : Char} {s : List Char} (h : (s.splitOn c).getLast? = some []) :
    s = [] ∨ s.getLast? = some c := by
  induction s with
  | nil => exact .inl rfl
  | cons d s ih =>
    rw [List.splitOn_eq_splitOnP, List.splitOnP_cons_eq_if_modifyHead,
      ← List.splitOn_eq_splitOnP] at h
    have hlast : (s.splitOn c).getLast? = some [] ∧ (s = [] → d = c) := by
      cases hs : s.splitOn c with
      | nil => exact absurd hs (by simp)
      | cons p ps =>
        rw [hs] at h
        by_cases hd : d = c
        · rw [if_pos (by simpa using hd)] at h
          exact ⟨by simpa using h, fun _ => hd⟩
        · rw [if_neg (by simpa using hd)] at h
          -- the first piece has the character, so it is not the last one
          cases ps with
          | nil => simp at h
          | cons r ps =>
            refine ⟨by simpa using h, ?_⟩
            rintro rfl
            simp at hs
    rcases ih hlast.1 with hnil | hend
    · exact .inr (by rw [hlast.2 hnil, hnil]; rfl)
    · refine .inr ?_
      cases s with
      | nil => cases hend
      | cons e s => simpa using hend

/-- The text behind the last line feed is a line unless it is empty. -/
theorem exists_lines_eq (s : List Char) :
    ∃ ended last, s.splitOn '\n' = ended ++ [last] ∧
      lines s = ended.map chomp ++ if last = [] then [] else [last] := by
  obtain ⟨ended, last, hpieces⟩ : ∃ ended last, s.splitOn '\n' = ended ++ [last] :=
    ⟨_, _, (List.dropLast_concat_getLast (by simp)).symm⟩
  refine ⟨ended, last, hpieces, ?_⟩
  cases last <;> simp [lines, hpieces]

theorem lines_append_feed (s : List Char) : lines (s ++ ['\n']) = (s.splitOn '\n').map chomp := by
  simp [lines, splitOn_append_cons]

/-! ### Texts written line by line -/

theorem splitOn_flatMap {ls : List (List Char)} (h : ∀ l ∈ ls, '\n' ∉ l) :
    (ls.flatMap (· ++ ['\n'])).splitOn '\n' = ls ++ [[]] := by
  induction ls with
  | nil => rfl
  | cons l ls ih =>
    obtain ⟨hl, hls⟩ := List.forall_mem_cons.1 h
    rw [List.flatMap_cons, List.append_assoc, List.singleton_append, splitOn_append_cons, ih hls,
      List.splitOn_eq_singleton hl]
    rfl

theorem lines_flatMap {ls : List (List Char)} (h : ∀ l ∈ ls, '\n' ∉ l) :
    lines (ls.flatMap (· ++ ['\n'])) = ls.map chomp := by
  simp [lines, splitOn_flatMap h]

theorem linesWithEnds_flatMap {ls : List (List Char)} (h : ∀ l ∈ ls, '\n' ∉ l) :
    linesWithEnds (ls.flatMap (· ++ ['\n'])) = ls.map (· ++ ['\n']) := by
  simp [linesWithEnds, splitOn_flatMap h]

/-! ### Texts taken line by line -/

/-- A text is a line without an end, or a line with its end in front of a text. -/
theorem lines_induction {motive : List Char → Prop} (last : ∀ line, '\n' ∉ line → motive line)
    (cons : ∀ line rest, '\n' ∉ line → motive rest → motive (line ++ '\n' :: rest))
    (s : List Char) : motive s := by
  induction hlength : s.length using Nat.strongRecOn generalizing s with
  | _ n ih =>
    by_cases hfeed : '\n' ∈ s
    · obtain ⟨line, rest, rfl, hline⟩ := List.eq_append_cons_of_mem hfeed
      refine cons line rest hline (ih rest.length ?_ rest rfl)
      rw [← hlength, List.length_append, List.length_cons]
      omega
    · exact last s hfeed

theorem takeWhile_append_feed (s : List Char) :
    (s ++ ['\n']).takeWhile (· != '\n') = s.takeWhile (· != '\n') := by
  induction s with
  | nil => rfl
  | cons c s ih => rw [List.cons_append, List.takeWhile_cons, List.takeWhile_cons, ih]

/-- The text up to the first line end is the first line. -/
theorem takeWhile_line {line : List Char} (h : '\n' ∉ line) (rest : List Char) :
    (line ++ '\n' :: rest).takeWhile (· != '\n') = line := by
  have hline : ∀ c ∈ line, c != '\n' := fun c hc => bne_iff_ne.2 fun heq => h (heq ▸ hc)
  rw [List.takeWhile_append_of_pos hline, List.takeWhile_cons_of_neg (by simp), List.append_nil]

theorem linesWithEnds_of_notMem {s : List Char} (h : '\n' ∉ s) :
    linesWithEnds s = if s = [] then [] else [s] := by
  cases s <;> simp [linesWithEnds, List.splitOn_eq_singleton h]

theorem linesWithEnds_append_cons {line : List Char} (h : '\n' ∉ line) (rest : List Char) :
    linesWithEnds (line ++ '\n' :: rest) = (line ++ ['\n']) :: linesWithEnds rest := by
  obtain ⟨ended, last, hpieces⟩ : ∃ ended last, rest.splitOn '\n' = ended ++ [last] :=
    ⟨_, _, (List.dropLast_concat_getLast (by simp)).symm⟩
  have hall : (line ++ '\n' :: rest).splitOn '\n' = (line :: ended) ++ [last] := by
    rw [splitOn_append_cons, List.splitOn_eq_singleton h, hpieces]
    rfl
  rw [linesWithEnds, linesWithEnds, hpieces, hall]
  simp only [List.dropLast_concat, List.getLast?_concat]
  cases last <;> rfl

theorem flatten_linesWithEnds (s : List Char) : (linesWithEnds s).flatten = s := by
  induction s using lines_induction with
  | last line h =>
    rw [linesWithEnds_of_notMem h]
    split
    · next hline => rw [hline, List.flatten_nil]
    · exact List.flatten_singleton
  | cons line rest h ih =>
    rw [linesWithEnds_append_cons h, List.flatten_cons, ih, List.append_assoc, List.singleton_append]

/-- The lines of a text go on behind a text that ends with one. -/
theorem linesWithEnds_append {s : List Char} (h : ∀ c ∈ s.getLast?, c = '\n') (t : List Char) :
    linesWithEnds (s ++ t) = linesWithEnds s ++ linesWithEnds t := by
  induction s using lines_induction with
  | last line hline =>
    have hnil : line = [] := by
      cases hlast : line.getLast? with
      | none => exact List.getLast?_eq_none_iff.1 hlast
      | some c => exact absurd (List.mem_of_getLast? (h c hlast ▸ hlast)) hline
    subst hnil
    rfl
  | cons line rest hline ih =>
    have hrest : ∀ c ∈ rest.getLast?, c = '\n' := by
      intro c hc
      apply h
      cases rest with
      | nil => cases hc
      | cons d rest => simpa using hc
    rw [List.append_assoc, List.cons_append, linesWithEnds_append_cons hline,
      linesWithEnds_append_cons hline, ih hrest, List.cons_append]

/-! ### Words -/

/-- White space between two texts keeps their words apart. -/
theorem words_append_cons {c : Char} (hc : isBlank c) (s t : List Char) :
    words (s ++ c :: t) = words s ++ words t := by
  rw [words, List.splitOnP_append_cons _ _ hc, List.filter_append]
  rfl

theorem words_nil : words [] = [] := rfl

theorem words_intercalate {c : Char} (hc : isBlank c) (ls : List (List Char)) :
    words ([c].intercalate ls) = ls.flatMap words := by
  induction ls with
  | nil => rfl
  | cons l ls ih =>
    cases ls with
    | nil => simp
    | cons l' ls =>
      rw [List.intercalate_cons_cons, List.append_assoc, List.singleton_append,
        words_append_cons hc, ih]
      rfl

theorem words_flatMap_splitOn (s : List Char) : (s.splitOn '\n').flatMap words = words s := by
  rw [← words_intercalate (c := '\n') (by decide), List.intercalate_splitOn]

theorem words_chomp (l : List Char) : words (chomp l) = words l := by
  unfold chomp
  split
  · next h =>
    rw [List.getLast?_eq_some_iff] at h
    obtain ⟨s, rfl⟩ := h
    rw [List.dropLast_concat, words_append_cons (by decide), words_nil, List.append_nil]
  · rfl

theorem words_flatMap_lines (s : List Char) : (lines s).flatMap words = words s := by
  obtain ⟨ended, last, hpieces, hlines⟩ := exists_lines_eq s
  have hended : (ended.map chomp).flatMap words = ended.flatMap words := by
    rw [List.flatMap_map]
    simp only [words_chomp]
  rw [← words_flatMap_splitOn, hpieces, hlines, List.flatMap_append, List.flatMap_append, hended]
  split
  · next hlast =>
    rw [hlast]
    rfl
  · rfl

end PotExtract.Text
