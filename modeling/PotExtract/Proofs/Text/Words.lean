import Mathlib.Data.List.TakeWhile
import Mathlib.Data.List.Basic
import PotExtract.Proofs.Text.Lines

/-! The words of a text are all of it but its white space: of two texts with the same words, one
goes on as the other does, and a normalized text has the words of the text itself. -/

namespace PotExtract.Text

theorem words_cons_of_blank {c : Char} (h : isBlank c) (s : List Char) :
    words (c :: s) = words s :=
  words_append_cons h [] s

/-- A text without white space is a word. -/
theorem words_eq_singleton {w : List Char} (hne : w ≠ []) (h : ∀ c ∈ w, isBlank c = false) :
    words w = [w] := by
  rw [words, List.splitOnP_eq_singleton fun c hc => by simp [h c hc]]
  simp [hne]

/-- The words of a text are the one at its start, if there is one, and those behind it. -/
theorem words_eq (s : List Char) :
    words s = [s.takeWhile (!isBlank ·)].filter (fun w => !w.isEmpty) ++
      words (s.dropWhile (!isBlank ·)) := by
  have hword : ∀ c ∈ s.takeWhile (!isBlank ·), isBlank c = false := fun c hc => by
    simpa using List.mem_takeWhile_imp hc
  have hstart : words (s.takeWhile (!isBlank ·)) =
      [s.takeWhile (!isBlank ·)].filter (fun w => !w.isEmpty) := by
    by_cases hne : s.takeWhile (!isBlank ·) = []
    · rw [hne]
      rfl
    · rw [words_eq_singleton hne hword]
      simp [hne]
  conv_lhs => rw [← List.takeWhile_append_dropWhile (p := (!isBlank ·)) (l := s)]
  cases hrest : s.dropWhile (!isBlank ·) with
  | nil => rw [List.append_nil, words_nil, List.append_nil, hstart]
  | cons c rest =>
    have hc : isBlank c := by
      have := List.head?_dropWhile_not (!isBlank ·) s
      rw [hrest] at this
      simpa using this
    rw [words_append_cons hc, words_cons_of_blank hc, hstart]

theorem words_cons {c : Char} (h : isBlank c = false) (s : List Char) :
    words (c :: s) = (c :: s.takeWhile (!isBlank ·)) :: words (s.dropWhile (!isBlank ·)) := by
  rw [words_eq, List.takeWhile_cons_of_pos (by simp [h]), List.dropWhile_cons_of_pos (by simp [h])]
  rfl

theorem words_eq_nil_iff {s : List Char} : words s = [] ↔ ∀ c ∈ s, isBlank c := by
  induction s with
  | nil => exact ⟨fun _ c hc => absurd hc List.not_mem_nil, fun _ => words_nil⟩
  | cons c s ih =>
    rw [List.forall_mem_cons]
    by_cases hc : isBlank c
    · rw [words_cons_of_blank hc, ih]
      exact ⟨fun h => ⟨hc, h⟩, fun h => h.2⟩
    · rw [words_cons (by simpa using hc)]
      exact ⟨fun h => absurd h (List.cons_ne_nil _ _), fun h => absurd h.1 hc⟩

theorem of_mem_words {s w : List Char} (h : w ∈ words s) :
    w ≠ [] ∧ ∀ c ∈ w, isBlank c = false := by
  induction s with
  | nil => cases h
  | cons c s ih =>
    by_cases hc : isBlank c
    · rw [words_cons_of_blank hc] at h
      exact ih h
    · rw [words_cons (by simpa using hc)] at h
      rcases List.mem_cons.1 h with rfl | h
      · refine ⟨by simp, List.forall_mem_cons.2 ⟨by simpa using hc, fun d hd => ?_⟩⟩
        simpa using List.mem_takeWhile_imp hd
      · refine ih ?_
        rw [words_eq s]
        exact List.mem_append_right _ h

theorem words_normalize (s : List Char) : words (normalize s) = words s := by
  have hsingle : ∀ w ∈ words s, words w = [w] := fun w hw =>
    words_eq_singleton (of_mem_words hw).1 (of_mem_words hw).2
  rw [normalize, words_intercalate (by decide), List.flatMap_congr hsingle, List.flatMap_singleton']

theorem of_words_cons_eq {c d : Char} (hc : isBlank c = false) (hd : isBlank d = false)
    {s t : List Char} (h : words (c :: s) = words (d :: t)) :
    c = d ∧ words s = words t ∧ s.takeWhile (!isBlank ·) = t.takeWhile (!isBlank ·) := by
  rw [words_cons hc, words_cons hd] at h
  obtain ⟨hword, hrest⟩ := List.cons.inj h
  obtain ⟨rfl, hfirst⟩ := List.cons.inj hword
  refine ⟨rfl, ?_, hfirst⟩
  rw [words_eq s, words_eq t, hfirst, hrest]

/-- A text with the same words goes on with the same character behind white space, and with the same
words behind that. -/
theorem exists_of_words_cons {c : Char} (hc : isBlank c = false) {s t : List Char}
    (h : words (c :: s) = words t) :
    ∃ w t', t = w ++ c :: t' ∧ (∀ d ∈ w, isBlank d) ∧ words s = words t' ∧
      s.takeWhile (!isBlank ·) = t'.takeWhile (!isBlank ·) := by
  induction t with
  | nil =>
    rw [words_cons hc] at h
    cases h
  | cons d t ih =>
    by_cases hd : isBlank d
    · rw [words_cons_of_blank hd] at h
      obtain ⟨w, t', rfl, hw, hrest⟩ := ih h
      exact ⟨d :: w, t', rfl, List.forall_mem_cons.2 ⟨hd, hw⟩, hrest⟩
    · obtain ⟨rfl, hrest⟩ := of_words_cons_eq hc (by simpa using hd) h
      exact ⟨[], t, rfl, by simp, hrest⟩

end PotExtract.Text
