import PotExtract.Tales.Interpolation
import PotExtract.Proofs.Python.ClosingBrace

/-! The alternatives of an expression that goes on with a closing brace. They are those in front of
the last one, that one with the brace, and those behind the brace. The last one keeps its engine, so
if that is Python, the brace makes the whole expression unacceptable. -/

namespace PotExtract.Tales

open Text

section ReplacePair

variable {a b c : Char}

theorem replacePair_cons_of_ne {x : Char} (h : x ≠ a) (s : List Char) :
    replacePair a b c (x :: s) = x :: replacePair a b c s := by
  cases s with
  | nil => rfl
  | cons y s => simp [replacePair, h]

theorem replacePair_append {t : List Char} (h : ∀ x ∈ t.head?, x ≠ b) (s : List Char) :
    replacePair a b c (s ++ t) = replacePair a b c s ++ replacePair a b c t := by
  fun_induction replacePair a b c s with
  | case1 => rfl
  | case2 x =>
    cases t with
    | nil => rfl
    | cons y t =>
      have hy : y ≠ b := h y rfl
      simp [replacePair, hy]
  | case3 x y s hpair ih =>
    rw [List.cons_append, List.cons_append, replacePair, if_pos hpair, ih, List.cons_append]
  | case4 x y s hpair ih =>
    rw [List.cons_append, List.cons_append, replacePair, if_neg hpair, ← List.cons_append, ih,
      List.cons_append]

theorem replacePair_of_not_mem {s : List Char} (h : a ∉ s) : replacePair a b c s = s := by
  induction s with
  | nil => rfl
  | cons x s ih =>
    obtain ⟨hx, hs⟩ : a ≠ x ∧ a ∉ s := by simpa using h
    rw [replacePair_cons_of_ne (Ne.symm hx), ih hs]

theorem mem_replacePair {x : Char} {s : List Char} (h : x ∈ replacePair a b c s) :
    x = c ∨ x ∈ s := by
  fun_induction replacePair a b c s with
  | case1 => cases h
  | case2 y => exact .inr h
  | case3 y z s _ ih =>
    rcases List.mem_cons.1 h with rfl | h
    · exact .inl rfl
    · exact (ih h).imp_right fun h => by simp [h]
  | case4 y z s _ ih =>
    rcases List.mem_cons.1 h with rfl | h
    · exact .inr List.mem_cons_self
    · exact (ih h).imp_right (List.mem_cons_of_mem _)

end ReplacePair

/-! ### Cutting at pipes -/

theorem splitPipes_ne_nil (escaped : Bool) (s : List Char) : splitPipes escaped s ≠ [] := by
  fun_induction splitPipes escaped s with
  | case1 => simp
  | case2 => simp
  | case3 escaped c s _ ih => simpa using ih

theorem subset_of_mem_splitPipes {escaped : Bool} {s p : List Char} (h : p ∈ splitPipes escaped s) :
    p ⊆ s := by
  fun_induction splitPipes escaped s generalizing p with
  | case1 => simp_all
  | case2 escaped c s _ ih =>
    rcases List.mem_cons.1 h with rfl | h
    · simp
    · exact List.Subset.trans (ih h) (List.subset_cons_self c s)
  | case3 escaped c s _ ih =>
    cases hs : splitPipes (c == '\\') s with
    | nil => simp [hs] at h
    | cons q qs =>
      rw [hs] at h ih
      rcases List.mem_cons.1 h with rfl | h
      · exact List.cons_subset_cons c (ih List.mem_cons_self)
      · exact List.Subset.trans (ih (List.mem_cons_of_mem q h)) (List.subset_cons_self c s)

/-- A closing brace behind the last alternative becomes a part of it. -/
theorem splitPipes_append_brace (escaped : Bool) (s t : List Char) :
    ∃ init last y more, splitPipes escaped s = init ++ [last] ∧
      splitPipes escaped (s ++ '\x7d' :: t) = init ++ (last ++ '\x7d' :: y) :: more := by
  induction s generalizing escaped with
  | nil =>
    cases hs : splitPipes false t with
    | nil => exact absurd hs (splitPipes_ne_nil false t)
    | cons y more => exact ⟨[], [], y, more, rfl, by simp [splitPipes, hs]⟩
  | cons c s ih =>
    by_cases hc : c = '|' ∧ !escaped
    · obtain ⟨init, last, y, more, h, h'⟩ := ih false
      refine ⟨[] :: init, last, y, more, ?_, ?_⟩
      · rw [splitPipes, if_pos hc, h, List.cons_append]
      · rw [List.cons_append, splitPipes, if_pos hc, h', List.cons_append]
    · obtain ⟨init, last, y, more, h, h'⟩ := ih (c == '\\')
      cases init with
      | nil =>
        refine ⟨[], c :: last, y, more, ?_, ?_⟩
        · rw [splitPipes, if_neg hc, h]
          rfl
        · rw [List.cons_append, splitPipes, if_neg hc, h']
          rfl
      | cons p init =>
        refine ⟨(c :: p) :: init, last, y, more, ?_, ?_⟩
        · rw [splitPipes, if_neg hc, h]
          rfl
        · rw [List.cons_append, splitPipes, if_neg hc, h']
          rfl

/-! ### The engine of an alternative -/

theorem not_isEngineChar_of_blank {c : Char} (h : isBlank c) : isEngineChar c = false := by
  have : (fun c => !isEngineChar c) c := by
    apply forall_isBlank _ h
    decide
  simpa using this

/-- A text behind an alternative that can be no part of the name of its engine leaves that as it is.
-/
theorem enginePrefix?_append {t : List Char} (s : List Char)
    (ht : ∀ c ∈ t.head?, isEngineChar c = false ∧ c ≠ ':') :
    (enginePrefix? s = none ∧ enginePrefix? (s ++ t) = none) ∨
      ∃ engine code, code <:+ s ∧ enginePrefix? s = some (engine, trimLeft code) ∧
        enginePrefix? (s ++ t) = some (engine, trimLeft (code ++ t)) := by
  have hsuffix := List.dropWhile_suffix isEngineChar (l := s)
  have hhead : ∀ c ∈ t.head?, isEngineChar c = false := fun c hc => (ht c hc).1
  unfold enginePrefix?
  rw [Python.Lexeme.takeWhile_append_of_head hhead, Python.Lexeme.dropWhile_append_of_head hhead]
  cases htake : s.takeWhile isEngineChar with
  | nil => exact .inl ⟨rfl, rfl⟩
  | cons c cs =>
    cases hdrop : s.dropWhile isEngineChar with
    | nil =>
      refine .inl ⟨rfl, ?_⟩
      cases t with
      | nil => rfl
      | cons d t =>
        have hd : d ≠ ':' := (ht d rfl).2
        simp [hd]
    | cons d code =>
      by_cases hd : d = ':'
      · subst hd
        rw [hdrop] at hsuffix
        exact .inr ⟨c :: cs, code, (List.suffix_cons _ _).trans hsuffix, rfl, rfl⟩
      · exact .inl ⟨by simp [hd], by simp [hd]⟩

/-- An alternative that goes on with a closing brace keeps its engine, and the brace stands in its
code behind the code it has without. -/
theorem parse_append_brace (engine : Engine) (s t : List Char) (hs : '#' ∉ s) :
    ∃ u v, Part.parse engine (s ++ '\x7d' :: t) =
        ⟨(Part.parse engine s).engine, String.ofList (u ++ '\x7d' :: v)⟩ ∧
      trim u = trim (Part.parse engine s).code.toList ∧ '#' ∉ u := by
  obtain ⟨w, hw, hblank⟩ := exists_trimRight_append (trimLeft s)
  have hw_left : ∀ c ∈ w, c ∈ s := by
    intro c hc
    refine (List.dropWhile_suffix isBlank).subset (?_ : c ∈ trimLeft s)
    rw [hw]
    exact List.mem_append_right _ hc
  have hpipe : ∀ c ∈ (w ++ '\x7d' :: trimRight t).head?, c ≠ '|' := by
    rintro c hc rfl
    rcases blank_or_eq_of_head hblank hc with h | h
    · simp [isBlank] at h
    · cases h
  let written := replacePair '\\' '|' '|' (trim s)
  let v := replacePair '\\' '|' '|' (trimRight t)
  have htrim : replacePair '\\' '|' '|' (trim (s ++ '\x7d' :: t)) =
      written ++ (w ++ '\x7d' :: v) := by
    have hslash : '\\' ∉ w := fun h => by simpa [isBlank] using hblank _ h
    rw [trim_append_cons (by decide), hw, List.append_assoc, replacePair_append hpipe,
      replacePair_append (by simp), replacePair_of_not_mem hslash, replacePair_cons_of_ne (by decide)]
    rfl
  have hwritten : '#' ∉ written := by
    intro h
    rcases mem_replacePair h with h | h
    · cases h
    · exact hs (mem_of_mem_trim h)
  have htail : ∀ c ∈ (w ++ '\x7d' :: v).head?, isEngineChar c = false ∧ c ≠ ':' := by
    intro c hc
    rcases blank_or_eq_of_head hblank hc with h | rfl
    · refine ⟨not_isEngineChar_of_blank h, ?_⟩
      rintro rfl
      simp [isBlank] at h
    · decide
  rcases enginePrefix?_append written htail with ⟨h, h'⟩ | ⟨name, code, hcode, h, h'⟩
  · refine ⟨written ++ w, v, ?_, ?_, ?_⟩
    · simp only [Part.parse, htrim, h', List.append_assoc]
      simp only [written] at h
      rw [h]
    · simp only [written] at h
      simp only [Part.parse, h, String.toList_ofList]
      exact trim_append_of_blank hblank written
    · simpa [hwritten] using fun h => hs (hw_left _ h)
  · refine ⟨trimLeft (code ++ w), v, ?_, ?_, ?_⟩
    · simp only [Part.parse, htrim, h']
      simp only [written] at h
      rw [h, ← List.append_assoc, trimLeft_append_cons (by decide)]
    · simp only [written] at h
      simp only [Part.parse, h, String.toList_ofList]
      rw [trim_trimLeft, trim_trimLeft, trim_append_of_blank hblank]
    · intro h
      rcases List.mem_append.1 ((List.dropWhile_suffix isBlank).subset h) with h | h
      · exact hwritten (hcode.subset h)
      · exact hs (hw_left _ h)

/-- Whether the last alternative of an expression is Python. -/
def endsInPython (engine : Engine) (expression : List Char) : Bool :=
  (split expression engine).getLast?.any fun part => part.engine == Engine.python.name

/-- A closing brace behind Python code makes an acceptable expression unacceptable. -/
theorem isAcceptable_append_brace {engine : Engine} {expression : List Char}
    (hend : endsInPython engine expression) (hgood : isAcceptable engine expression)
    (hhash : '#' ∉ expression) (t : List Char) :
    isAcceptable engine (expression ++ '\x7d' :: t) = false := by
  obtain ⟨init, last, y, more, h, h'⟩ := splitPipes_append_brace false expression t
  have hlast : last ⊆ expression := by
    refine subset_of_mem_splitPipes (s := expression) (?_ : last ∈ splitPipes false expression)
    rw [h]
    exact List.mem_append_right _ List.mem_cons_self
  obtain ⟨u, v, hparse, htrim, hu⟩ := parse_append_brace engine last y fun hmem => hhash (hlast hmem)
  have hpython : (Part.parse engine last).engine == Engine.python.name := by
    simpa [endsInPython, split, h] using hend
  have hcode : Python.isExpression (Part.parse engine last).code := by
    refine List.all_eq_true.1 hgood _ (List.mem_map_of_mem (List.mem_filter.2 ⟨?_, hpython⟩))
    rw [split, h]
    simp
  have hfalse : Python.isExpression (String.ofList (u ++ '\x7d' :: v)) = false := by
    have htrim : trim (String.ofList u).toList = trim (Part.parse engine last).code.toList := by
      rwa [String.toList_ofList]
    rw [← Python.isExpression_of_trim_eq htrim] at hcode
    exact Python.isExpression_append_brace hcode hu
  rw [← Bool.not_eq_true]
  intro hall
  have hmem : Part.parse engine (last ++ '\x7d' :: y) ∈ split (expression ++ '\x7d' :: t) engine := by
    rw [split, h']
    simp
  rw [hparse] at hmem
  have := List.all_eq_true.1 hall _ (List.mem_map_of_mem (List.mem_filter.2 ⟨hmem, hpython⟩))
  rw [hfalse] at this
  cases this

end PotExtract.Tales
