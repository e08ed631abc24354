import PotExtract.Proofs.Outcome
import PotExtract.Proofs.Tales.Pipes
import PotExtract.Proofs.Text.Bytes
import PotExtract.Proofs.Text.Trim
import PotExtract.Tales.Define

/-! Code is cut out of the expressions that hold it: alternatives, clauses, the expressions of
bindings and those of interpolations are parts of the text that they are read from. -/

namespace PotExtract.Tales

open Text

variable {s p : List Char}

/-! ### Alternatives -/

theorem splitPipes_isInfix {escaped : Bool} {ps : List (List Char)}
    (h : splitPipes escaped s = p :: ps) : p <+: s ∧ ∀ q ∈ ps, q <:+: s := by
  fun_induction splitPipes escaped s generalizing p ps with
  | case1 =>
    obtain ⟨rfl, rfl⟩ := List.cons.inj h
    simp
  | case2 escaped c s _ ih =>
    obtain ⟨rfl, rfl⟩ := List.cons.inj h
    refine ⟨List.nil_prefix, fun q hq => ?_⟩
    cases hs : splitPipes false s with
    | nil => exact absurd hs (splitPipes_ne_nil false s)
    | cons r rs =>
      obtain ⟨hr, hrs⟩ := ih hs
      rw [hs] at hq
      rcases List.mem_cons.1 hq with rfl | hq
      · exact List.infix_cons hr.isInfix
      · exact List.infix_cons (hrs q hq)
  | case3 escaped c s _ ih =>
    cases hs : splitPipes (c == '\\') s with
    | nil => exact absurd hs (splitPipes_ne_nil _ s)
    | cons r rs =>
      obtain ⟨hr, hrs⟩ := ih hs
      rw [hs] at h
      obtain ⟨rfl, rfl⟩ := List.cons.inj h
      exact ⟨(List.cons_prefix_cons).2 ⟨rfl, hr⟩, fun q hq => List.infix_cons (hrs q hq)⟩

theorem infix_of_mem_splitPipes {escaped : Bool} (h : p ∈ splitPipes escaped s) : p <:+: s := by
  cases hs : splitPipes escaped s with
  | nil => exact absurd hs (splitPipes_ne_nil escaped s)
  | cons q qs =>
    obtain ⟨hq, hqs⟩ := splitPipes_isInfix hs
    rw [hs] at h
    rcases List.mem_cons.1 h with rfl | h
    · exact hq.isInfix
    · exact hqs p h

theorem trim_isInfix (s : List Char) : trim s <:+: s := by
  obtain ⟨w, hw, -⟩ := exists_trimRight_append (trimLeft s)
  have hprefix : trimRight (trimLeft s) <+: trimLeft s := ⟨w, hw.symm⟩
  exact hprefix.isInfix.trans (List.dropWhile_suffix _).isInfix

theorem parse_suffix (engine : Engine) (s : List Char) :
    (Part.parse engine s).code.toList <:+ replacePair '\\' '|' '|' (trim s) := by
  unfold Part.parse
  dsimp only
  split
  · next name code hprefix =>
    unfold enginePrefix? at hprefix
    split at hprefix
    · next rest _ hdrop =>
      cases hprefix
      rw [String.toList_ofList]
      have hrest : rest <:+ replacePair '\\' '|' '|' (trim s) := by
        have hsuffix := List.dropWhile_suffix isEngineChar (l := replacePair '\\' '|' '|' (trim s))
        rw [hdrop] at hsuffix
        exact (List.suffix_cons _ _).trans hsuffix
      exact (List.dropWhile_suffix _).trans hrest
    · cases hprefix
  · exact ⟨[], by rw [String.toList_ofList, List.nil_append]⟩

theorem getLast?_replacePair (s : List Char) :
    (replacePair '\\' '|' '|' s).getLast? = s.getLast? := by
  fun_induction replacePair '\\' '|' '|' s with
  | case1 => rfl
  | case2 c => rfl
  | case3 c d s hpair ih =>
    obtain ⟨rfl, rfl⟩ := hpair
    rw [List.getLast?_cons, List.getLast?_cons_cons, List.getLast?_cons, ih]
  | case4 c d s _ ih => rw [List.getLast?_cons, ih, ← List.getLast?_cons]

/-- No white space stands at the end of the code of an alternative. -/
theorem getLast?_parse (engine : Engine) (s : List Char) :
    ∀ c ∈ (Part.parse engine s).code.toList.getLast?, isBlank c = false := by
  intro c hc
  obtain ⟨lead, hlead⟩ := parse_suffix engine s
  have hlast : c ∈ (replacePair '\\' '|' '|' (trim s)).getLast? := by
    rw [← hlead, List.getLast?_append, Option.mem_def.1 hc]
    rfl
  rw [getLast?_replacePair] at hlast
  exact getLast?_trimRight hlast

/-- An alternative is a part of its expression, with its pipes behind backslashes read as pipes. No
white space stands at its end. -/
theorem exists_of_mem_pythonParts {engine : Engine} {code : String}
    (h : code ∈ pythonParts s engine) :
    ∃ p, p <:+: s ∧ code.toList <:+ replacePair '\\' '|' '|' p ∧
      ∀ c ∈ code.toList.getLast?, isBlank c = false := by
  obtain ⟨part, hpart, rfl⟩ := List.mem_map.1 h
  obtain ⟨q, hq, rfl⟩ := List.mem_map.1 (List.mem_of_mem_filter hpart)
  exact ⟨trim q, (trim_isInfix q).trans (infix_of_mem_splitPipes hq), parse_suffix engine q,
    getLast?_parse engine q⟩

theorem stripStructure_suffix (s : List Char) : stripStructure s <:+ s := by
  have hword : ∀ word rest : List Char, afterWord? word (trimLeft s) = some rest → rest <:+ s := by
    intro word rest h
    unfold afterWord? at h
    split at h
    · next c tail hafter =>
      split at h
      · cases h
        have htail : c :: tail <:+ trimLeft s := ⟨word, (after?_eq_some hafter).symm⟩
        exact (List.dropWhile_suffix _).trans ((List.suffix_cons c tail).trans
          (htail.trans (List.dropWhile_suffix _)))
      · cases h
    · cases h
  unfold stripStructure
  cases hs : afterWord? "structure".toList (trimLeft s) with
  | some rest => exact hword _ rest hs
  | none =>
    cases ht : afterWord? "text".toList (trimLeft s) with
    | some rest => exact hword _ rest ht
    | none => exact List.suffix_rfl

/-! ### Bindings -/

namespace Define

theorem names?_suffix {names : List String} {rest : List Char} (h : names? s = some (names, rest)) :
    rest <:+ s := by
  unfold names? at h
  split at h
  · cases h
  · next c tail =>
    split at h
    · cases h
      exact (List.dropWhile_suffix _).trans (List.suffix_cons c tail)
    · split at h
      · next hdrop _ =>
        cases h
        have hsuffix := List.dropWhile_suffix isListChar (l := tail)
        rw [hdrop] at hsuffix
        exact (List.suffix_cons _ _).trans (hsuffix.trans (List.suffix_cons _ _))
      · cases h

theorem binding?_suffix {scope : DefineScope} {d : Define} (h : binding? scope s = some d) :
    d.expression.toList <:+ s := by
  unfold binding? at h
  split at h
  · next names c rest hnames =>
    split at h
    · cases h
      rw [String.toList_ofList]
      exact (List.dropWhile_suffix _).trans ((List.suffix_cons c rest).trans (names?_suffix hnames))
    · cases h
  · cases h

theorem scoped?_suffix {scope : DefineScope} {d : Define} (h : scoped? scope s = some d) :
    d.expression.toList <:+ s := by
  obtain ⟨rest, hrest, h⟩ := Option.bind_eq_some_iff.1 h
  have hsuffix : rest <:+ s := ⟨scope.word.toList, (after?_eq_some hrest).symm⟩
  exact (binding?_suffix h).trans ((List.dropWhile_suffix _).trans hsuffix)

theorem parse?_suffix {d : Define} (h : parse? s = some d) : d.expression.toList <:+ s := by
  have htrim : d.expression.toList <:+ trimLeft s := by
    unfold parse? at h
    rcases Option.or_eq_some_iff.1 h with h | ⟨-, h⟩
    · rcases Option.or_eq_some_iff.1 h with h | ⟨-, h⟩
      · exact scoped?_suffix h
      · exact scoped?_suffix h
    · exact binding?_suffix h
  exact htrim.trans (List.dropWhile_suffix _)

theorem splitClauses_ne_nil (s : List Char) : splitClauses s ≠ [] := by
  fun_induction splitClauses s with
  | case1 => simp
  | case2 s ih => simpa using ih
  | case3 => simp
  | case4 c s hpair hc ih => simpa using ih

theorem exists_of_mem_parseAll {ds : List Define} {d : Define} (h : parseAll s = .ok ds)
    (hd : d ∈ ds) : ∃ clause ∈ splitClauses s, d.expression.toList <:+ clause := by
  unfold parseAll at h
  generalize splitClauses s = clauses at h ⊢
  induction clauses generalizing ds with
  | nil =>
    cases h
    cases hd
  | cons clause clauses ih =>
    rw [parseClauses] at h
    split at h
    · obtain ⟨q, hq, hsuffix⟩ := ih hd h
      exact ⟨q, List.mem_cons_of_mem clause hq, hsuffix⟩
    · split at h
      · next e he =>
        obtain ⟨es, hes, rfl⟩ := map_eq_ok.1 h
        rcases List.mem_cons.1 hd with rfl | hd
        · exact ⟨clause, List.mem_cons_self, parse?_suffix he⟩
        · obtain ⟨q, hq, hsuffix⟩ := ih hd hes
          exact ⟨q, List.mem_cons_of_mem clause hq, hsuffix⟩
      · cases h

end Define

/-! ### Interpolations -/

theorem exists_of_opening? {escaped : Bool} {offset start : Nat} {body : List Char}
    (h : opening? escaped offset s = some (start, body)) :
    ∃ lead, s = lead ++ '$' :: '\x7b' :: body ∧ start = offset + byteLength lead := by
  fun_induction opening? escaped offset s with
  | case1 offset s ih =>
    obtain ⟨lead, rfl, rfl⟩ := ih h
    refine ⟨'$' :: '\x7b' :: lead, rfl, ?_⟩
    simp only [byteLength_cons, show ('$' : Char).utf8Size = 1 from rfl,
      show ('\x7b' : Char).utf8Size = 1 from rfl]
    omega
  | case2 offset s =>
    cases h
    exact ⟨[], rfl, rfl⟩
  | case3 escaped offset c s _ ih =>
    obtain ⟨lead, rfl, rfl⟩ := ih h
    refine ⟨c :: lead, rfl, ?_⟩
    rw [byteLength_cons]
    omega
  | case4 => cases h

/-- The code of an interpolation is that of the expression behind its opening brace. -/
theorem exists_of_mem_interpolationsFrom {engine : Engine} {offset : Nat}
    {found : List Interpolation} {i : Interpolation}
    (h : interpolationsFrom engine offset s = .ok found) (hi : i ∈ found) :
    ∃ lead inner rest, s = lead ++ '$' :: '\x7b' :: (inner ++ '\x7d' :: rest) ∧
      i.offset = offset + byteLength lead ∧ i.code ∈ pythonParts inner engine := by
  fun_induction interpolationsFrom engine offset s generalizing found with
  | case1 | case2 =>
    cases h
    cases hi
  | case3 => cases h
  | case4 offset s start body ho _ inner rest ha _ _ =>
    rename_i ih
    obtain ⟨lead, rfl, rfl⟩ := exists_of_opening? ho
    obtain ⟨rfl, -⟩ := accepted?_eq_some ha
    obtain ⟨later, hlater, rfl⟩ := map_eq_ok.1 h
    rcases List.mem_append.1 hi with hi | hi
    · obtain ⟨code, hcode, rfl⟩ := List.mem_map.1 hi
      exact ⟨lead, inner, rest, rfl, rfl, hcode⟩
    · obtain ⟨lead', inner', rest', rfl, hoffset, hcode⟩ := ih hlater hi
      refine ⟨lead ++ '$' :: '\x7b' :: (inner ++ '\x7d' :: lead'), inner', rest', by simp, ?_,
        hcode⟩
      have hsizes : ('$' : Char).utf8Size = 1 ∧ ('\x7b' : Char).utf8Size = 1 ∧
        ('\x7d' : Char).utf8Size = 1 := ⟨rfl, rfl, rfl⟩
      simp only [hoffset, byteLength_append, byteLength_cons, hsizes]
      omega

theorem exists_of_mem_interpolations {engine : Engine} {found : List Interpolation}
    {i : Interpolation} (h : interpolations engine s = .ok found) (hi : i ∈ found) :
    ∃ lead inner rest, s = lead ++ '$' :: '\x7b' :: (inner ++ '\x7d' :: rest) ∧
      i.offset = byteLength lead ∧ i.code ∈ pythonParts inner engine := by
  simpa using exists_of_mem_interpolationsFrom h hi

end PotExtract.Tales
