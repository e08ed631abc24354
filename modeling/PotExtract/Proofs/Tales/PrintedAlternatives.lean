import PotExtract.Proofs.Tales.ExpressionCode
import PotExtract.Proofs.Tales.InterpolatedCalls

/-! Expressions as they are printed: every alternative with the name of its engine, the pipes of its
code behind backslashes, and pipes between spaces from one alternative to the next. Splitting a
printed expression gives its alternatives, whatever backslashes stand in front of their pipes and at
their ends, and the alternatives of any expression can be printed so. -/

namespace PotExtract.Tales

open Text

variable {p : Part} {parts : List Part}

/-- An alternative with a name for its engine and no white space around its code. -/
structure Part.IsPrintable (p : Part) : Prop where
  engine_ne_nil : p.engine.toList ≠ []
  isEngineChar : ∀ c ∈ p.engine.toList, isEngineChar c
  head : ∀ c ∈ p.code.toList.head?, isBlank c = false
  getLast : ∀ c ∈ p.code.toList.getLast?, isBlank c = false

/-- The alternative as it is printed. -/
def Part.print (p : Part) : List Char :=
  p.engine.toList ++ ':' :: escapePipes p.code.toList

/-- The expression of alternatives as it is printed. -/
def printAll (parts : List Part) : List Char :=
  " | ".toList.intercalate (parts.map Part.print)

namespace Part.IsPrintable

theorem trim_print (h : p.IsPrintable) : trim p.print = p.print := by
  refine trim_eq_self (fun c hc => ?_) fun c hc => ?_
  · rw [print, List.head?_append_of_ne_nil _ h.engine_ne_nil] at hc
    rw [Bool.eq_false_iff]
    intro hblank
    have hchar := h.isEngineChar c (List.mem_of_mem_head? hc)
    rw [not_isEngineChar_of_blank hblank] at hchar
    cases hchar
  · -- the code ends as it does with its pipes behind backslashes
    have hcode : (escapePipes p.code.toList).getLast? = p.code.toList.getLast? := by
      rw [← getLast?_replacePair, replacePair_escapePipes]
    rw [print, List.getLast?_append, List.getLast?_cons, hcode, Option.some_or,
      Option.mem_some_iff] at hc
    cases hlast : p.code.toList.getLast? with
    | none =>
      rw [hlast] at hc
      subst hc
      decide
    | some d =>
      rw [hlast] at hc
      subst hc
      exact h.getLast _ hlast

theorem not_mem_engine (h : p.IsPrintable) {c : Char} (hc : Tales.isEngineChar c = false) :
    c ∉ p.engine.toList := fun hmem => by
  rw [h.isEngineChar c hmem] at hc
  cases hc

/-- A printed alternative is not cut. -/
theorem pipesEscaped_print (h : p.IsPrintable) (w : List Char) (hw : '\\' ∉ w ∧ '|' ∉ w) :
    pipesEscaped false (w ++ p.print) := by
  have hname : '\\' ∉ w ++ p.engine.toList ++ [':'] ∧ '|' ∉ w ++ p.engine.toList ++ [':'] := by
    simp [hw, h.not_mem_engine (c := '\\') rfl, h.not_mem_engine (c := '|') rfl]
  have hparts : w ++ p.print = w ++ p.engine.toList ++ [':'] ++ escapePipes p.code.toList := by
    simp [print]
  rw [hparts, pipesEscaped_append_plain hname.1 hname.2]
  exact pipesEscaped_escapePipes false _

/-- A printed alternative is read, white space around it aside. -/
theorem parse_print (h : p.IsPrintable) (default : Engine) {w v : List Char}
    (hw : ∀ c ∈ w, isBlank c) (hv : ∀ c ∈ v, isBlank c) :
    Part.parse default (w ++ (p.print ++ v)) = p := by
  have htrim : trim (w ++ (p.print ++ v)) = p.print := by
    rw [trim, trimLeft_of_blank hw]
    exact (trim_append_of_blank hv p.print).trans h.trim_print
  have hcode : replacePair '\\' '|' '|' p.print = p.engine.toList ++ ':' :: p.code.toList := by
    rw [print, replacePair_append_of_not_mem (h.not_mem_engine rfl),
      replacePair_cons_of_ne (by decide), replacePair_escapePipes]
  have hprefix : enginePrefix? (p.engine.toList ++ ':' :: p.code.toList) =
      some (p.engine.toList, p.code.toList) := by
    have hcolon : Tales.isEngineChar ':' = false := rfl
    obtain ⟨c, cs, hengine⟩ := List.exists_cons_of_ne_nil h.engine_ne_nil
    rw [enginePrefix?, List.takeWhile_append_of_pos h.isEngineChar,
      List.dropWhile_append_of_pos h.isEngineChar, List.takeWhile_cons_of_neg (by simp [hcolon]),
      List.dropWhile_cons_of_neg (by simp [hcolon]), List.append_nil, hengine]
    simp only [trimLeft_eq_self h.head]
  rw [Part.parse, htrim, hcode, hprefix]
  simp only [String.ofList_toList]

end Part.IsPrintable

theorem printAll_cons_cons (p q : Part) (parts : List Part) :
    printAll (p :: q :: parts) = p.print ++ [' '] ++ '|' :: (' ' :: printAll (q :: parts)) := by
  simp [printAll]

theorem split_space_printAll (default : Engine) (h : ∀ p ∈ parts, p.IsPrintable) (hne : parts ≠ [])
    {w : List Char} (hw : w = [] ∨ w = [' ']) : split (w ++ printAll parts) default = parts := by
  have hblank : ∀ {v : List Char}, v = [] ∨ v = [' '] → ∀ c ∈ v, isBlank c := by
    rintro v (rfl | rfl) c hc
    · cases hc
    · rw [List.mem_singleton.1 hc]
      rfl
  have hplain : '\\' ∉ w ∧ '|' ∉ w := by
    rcases hw with rfl | rfl <;> decide
  induction parts generalizing w with
  | nil => exact absurd rfl hne
  | cons p parts ih =>
    obtain ⟨hp, hparts⟩ := List.forall_mem_cons.1 h
    cases parts with
    | nil =>
      have hread := hp.parse_print default (hblank hw) (v := []) (hblank (.inl rfl))
      rw [List.append_nil] at hread
      rw [show printAll [p] = p.print from List.append_nil _, split,
        splitPipes_of_pipesEscaped (hp.pipesEscaped_print w hplain), List.map_singleton, hread]
    | cons q parts =>
      have hescaped : pipesEscaped false (w ++ (p.print ++ [' '])) := by
        rw [← List.append_assoc, pipesEscaped_append_of_not_mem (by decide)]
        exact hp.pipesEscaped_print w hplain
      have hcut := splitPipes_append_pipe hescaped (fun _ => rfl) (by simp)
        (' ' :: printAll (q :: parts))
      rw [printAll_cons_cons, split, ← List.append_assoc, hcut, List.map_cons,
        hp.parse_print default (hblank hw) (hblank (.inr rfl))]
      exact congrArg (p :: ·) (ih hparts (by simp) (.inr rfl) (by decide))

/-! ### The alternatives of any expression -/

theorem head?_replacePair (s : List Char) (h : ∀ c ∈ s.head?, isBlank c = false) :
    ∀ c ∈ (replacePair '\\' '|' '|' s).head?, isBlank c = false := by
  fun_cases replacePair '\\' '|' '|' s with
  | case1 => exact h
  | case2 x => exact h
  | case3 x y s hpair => simp [isBlank]
  | case4 x y s hpair => simpa using h

/-- An alternative that is read can be printed. -/
theorem isPrintable_parse (default : Engine) (s : List Char) :
    (Part.parse default s).IsPrintable := by
  have hlast := getLast?_parse default s
  unfold Part.parse at hlast ⊢
  dsimp only at hlast ⊢
  split at hlast
  · next name code hprefix =>
    unfold enginePrefix? at hprefix
    split at hprefix
    · next c cs rest htake _ =>
      cases hprefix
      refine ⟨?_, ?_, ?_, hlast⟩
      · simp
      · rw [String.toList_ofList, ← htake]
        exact fun d hd => List.mem_takeWhile_imp hd
      · rw [String.toList_ofList]
        exact fun d hd => head?_trimLeft hd
    · cases hprefix
  · refine ⟨?_, ?_, ?_, hlast⟩
    · cases default <;> simp [Engine.name]
    · cases default <;> simp [Engine.name, isEngineChar]
    · rw [String.toList_ofList]
      exact head?_replacePair _ fun c hc => head?_trim hc

theorem split_ne_nil (default : Engine) (s : List Char) : split s default ≠ [] := by
  simpa [split] using splitPipes_ne_nil false s

theorem isPrintable_of_mem_split {default : Engine} {s : List Char} (h : p ∈ split s default) :
    p.IsPrintable := by
  obtain ⟨q, -, rfl⟩ := List.mem_map.1 h
  exact isPrintable_parse default q

/-- An expression can be printed with the names of all its engines, and is then the same whatever
engine evaluates code that names none. -/
theorem split_printAll_split (default other : Engine) (s : List Char) :
    split (printAll (split s default)) other = split s default :=
  split_space_printAll other (fun _ h => isPrintable_of_mem_split h) (split_ne_nil default s)
    (.inl rfl)

/-- Printing and splitting gives alternatives back exactly if there are some, each with a name of its
engine and code without white space around it. -/
theorem split_printAll_iff (default : Engine) (parts : List Part) :
    split (printAll parts) default = parts ↔ parts ≠ [] ∧ ∀ p ∈ parts, p.IsPrintable := by
  constructor
  · intro h
    rw [← h]
    exact ⟨split_ne_nil default _, fun p hp => isPrintable_of_mem_split hp⟩
  · rintro ⟨hne, h⟩
    exact split_space_printAll default h hne (.inl rfl)

/-- A backslash of the code in front of a pipe and one at its end are kept. -/
example : split (printAll [⟨"python", "a\\|b\\"⟩, ⟨"string", ""⟩, ⟨"not-_", "c:d"⟩]) .tales =
    [⟨"python", "a\\|b\\"⟩, ⟨"string", ""⟩, ⟨"not-_", "c:d"⟩] := by
  decide +kernel

end PotExtract.Tales
