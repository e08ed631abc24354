import PotExtract.Proofs.Format.Conversions

/-! Texts as formats. A text is cut into conversions and characters that are no percent signs in at
most one way, as conversions are prefix-free. The flag of a format goes to the texts that can be cut
so and have a conversion other than the two percent signs that print one. -/

namespace PotExtract.Format

/-- A piece of a text: a character, or a conversion as it is written. -/
inductive Piece where
  | plain (c : Char)
  | conversion (text : List Char)
  deriving DecidableEq, Repr

namespace Piece

/-- The text of a piece. -/
def text : Piece → List Char
  | plain c => [c]
  | conversion text => text

/-- A character is no percent sign, and a conversion is written as one. -/
def IsValid : Piece → Prop
  | plain c => c ≠ '%'
  | conversion text => ∃ c : Conversion, c.IsWellFormed ∧ c.write = text

/-- The conversion that a piece is. -/
def conversion? : Piece → Option (List Char)
  | plain _ => none
  | conversion text => some text

end Piece

/-- A text is cut into pieces. -/
structure IsDecomposition (ps : List Piece) (s : List Char) : Prop where
  valid : ∀ p ∈ ps, p.IsValid
  text : ps.flatMap Piece.text = s

variable {ps qs : List Piece} {p q : Piece} {s t : List Char} {cs : List Conversion}

namespace IsDecomposition

theorem cons (hp : p.IsValid) (h : IsDecomposition ps s) :
    IsDecomposition (p :: ps) (p.text ++ s) :=
  ⟨List.forall_mem_cons.2 ⟨hp, h.valid⟩, congrArg (p.text ++ ·) h.text⟩

theorem exists_of_cons (h : IsDecomposition (p :: ps) s) :
    ∃ t, s = p.text ++ t ∧ p.IsValid ∧ IsDecomposition ps t :=
  ⟨ps.flatMap Piece.text, h.text.symm, h.valid p List.mem_cons_self,
    fun q hq => h.valid q (List.mem_cons_of_mem _ hq), rfl⟩

end IsDecomposition

/-! ### One way to cut a text -/

theorem Piece.text_ne_nil (h : p.IsValid) : p.text ≠ [] := by
  cases p with
  | plain c => exact List.cons_ne_nil _ _
  | conversion text =>
    obtain ⟨c, -, rfl⟩ := h
    exact List.cons_ne_nil _ _

/-- The first piece of a text is known by the text. -/
theorem Piece.text_append_inj (hp : p.IsValid) (hq : q.IsValid) (h : p.text ++ s = q.text ++ t) :
    p = q ∧ s = t := by
  cases p with
  | plain c =>
    cases q with
    | plain d =>
      obtain ⟨rfl, rfl⟩ := List.cons.inj h
      exact ⟨rfl, rfl⟩
    | conversion text =>
      obtain ⟨d, -, rfl⟩ := hq
      exact absurd (List.cons.inj h).1 hp
  | conversion text =>
    obtain ⟨c, hc, rfl⟩ := hp
    cases q with
    | plain d => exact absurd (List.cons.inj h).1.symm hq
    | conversion text =>
      obtain ⟨d, hd, rfl⟩ := hq
      obtain ⟨hwrite, hrest⟩ := Conversion.write_append_inj hc hd h
      exact ⟨congrArg _ hwrite, hrest⟩

/-- A text is cut in at most one way. -/
theorem IsDecomposition.unique (hps : IsDecomposition ps s) (hqs : IsDecomposition qs s) :
    ps = qs := by
  induction ps generalizing qs s with
  | nil =>
    obtain rfl : [] = s := hps.text
    cases qs with
    | nil => rfl
    | cons q qs =>
      obtain ⟨t, htext, hq, -⟩ := hqs.exists_of_cons
      exact absurd (List.append_eq_nil_iff.1 htext.symm).1 (Piece.text_ne_nil hq)
  | cons p ps ih =>
    obtain ⟨t, rfl, hp, hrest⟩ := hps.exists_of_cons
    cases qs with
    | nil => exact absurd (List.append_eq_nil_iff.1 hqs.text.symm).1 (Piece.text_ne_nil hp)
    | cons q qs =>
      obtain ⟨u, htext, hq, hqrest⟩ := hqs.exists_of_cons
      obtain ⟨rfl, rfl⟩ := Piece.text_append_inj hp hq htext
      rw [ih hrest hqrest]

/-! ### The way a text is read -/

/-- Conversions that are read are those of pieces that the text is cut into. -/
theorem exists_decomposition (h : conversions? s = some cs) :
    ∃ ps, IsDecomposition ps s ∧ ps.filterMap Piece.conversion? = cs.map Conversion.write ∧
      ∀ c ∈ cs, c.IsWellFormed := by
  fun_induction conversions? s generalizing cs with
  | case1 =>
    cases h
    exact ⟨[], ⟨by simp, rfl⟩, rfl, by simp⟩
  | case2 s conversion rest hread _ ih =>
    obtain ⟨cs, hcs, rfl⟩ := Option.map_eq_some_iff.1 h
    obtain ⟨ps, hps, hconversions, hformed⟩ := ih hcs
    obtain ⟨htext, hconversion⟩ := eq_of_conversion? hread
    refine ⟨.conversion conversion.write :: ps, ?_, congrArg (conversion.write :: ·) hconversions,
      List.forall_mem_cons.2 ⟨hconversion, hformed⟩⟩
    rw [htext]
    exact .cons ⟨conversion, hconversion, rfl⟩ hps
  | case3 => cases h
  | case4 c s hc ih =>
    obtain ⟨ps, hps, hconversions, hformed⟩ := ih h
    exact ⟨.plain c :: ps, .cons hc hps, hconversions, hformed⟩

theorem conversions?_percent {c : Conversion} {rest : List Char}
    (h : conversion? s = some (c, rest)) :
    conversions? ('%' :: s) = (conversions? rest).map (c :: ·) := by
  rw [conversions?, if_pos rfl]
  split
  · next heq =>
    rw [h] at heq
    cases heq
    rfl
  · next heq =>
    rw [h] at heq
    cases heq

/-- A text that can be cut is read, and its conversions are found. -/
theorem IsDecomposition.exists_conversions? (h : IsDecomposition ps s) :
    ∃ cs, conversions? s = some cs ∧
      ps.filterMap Piece.conversion? = cs.map Conversion.write ∧ ∀ c ∈ cs, c.IsWellFormed := by
  induction ps generalizing s with
  | nil =>
    obtain rfl : [] = s := h.text
    exact ⟨[], by rw [conversions?], rfl, by simp⟩
  | cons p ps ih =>
    obtain ⟨t, rfl, hp, hrest⟩ := h.exists_of_cons
    obtain ⟨cs, hcs, hconversions, hformed⟩ := ih hrest
    cases p with
    | plain c =>
      refine ⟨cs, ?_, hconversions, hformed⟩
      rw [Piece.text, List.singleton_append, conversions?, if_neg hp, hcs]
    | conversion text =>
      obtain ⟨c, hc, rfl⟩ := hp
      obtain ⟨d, hread, hd, hwrite⟩ := exists_conversion?_write hc t
      refine ⟨d :: cs, ?_, ?_, List.forall_mem_cons.2 ⟨hd, hformed⟩⟩
      · have htext : Piece.text (.conversion c.write) ++ t = '%' :: (c.middle ++ c.letter :: t) := by
          simp [Piece.text, Conversion.write]
        rw [htext, conversions?_percent hread, hcs]
        rfl
      · rw [List.map_cons, hwrite, ← hconversions]
        rfl

theorem Piece.mem_filterMap_conversion? {text : List Char} :
    text ∈ ps.filterMap Piece.conversion? ↔ .conversion text ∈ ps := by
  rw [List.mem_filterMap]
  constructor
  · rintro ⟨p, hp, htext⟩
    cases p with
    | plain => cases htext
    | conversion => exact Option.some.inj htext ▸ hp
  · exact fun h => ⟨_, h, rfl⟩

/-- A text is a format if it can be cut, and one of its conversions is not the two percent signs. -/
theorem isPrintf_iff : isPrintf s ↔
    ∃ ps, IsDecomposition ps s ∧ ∃ text, .conversion text ∈ ps ∧ text ≠ ['%', '%'] := by
  constructor
  · intro h
    unfold isPrintf at h
    split at h
    · next cs hcs =>
      obtain ⟨c, hc, hpercent⟩ := List.any_eq_true.1 h
      obtain ⟨ps, hps, hconversions, hformed⟩ := exists_decomposition hcs
      refine ⟨ps, hps, c.write, ?_, fun hwrite => ?_⟩
      · rw [← Piece.mem_filterMap_conversion?, hconversions]
        exact List.mem_map_of_mem hc
      · simp [(Conversion.isPercent_iff (hformed c hc)).2 hwrite] at hpercent
    · cases h
  · rintro ⟨ps, hps, text, htext, hne⟩
    obtain ⟨cs, hcs, hconversions, hformed⟩ := hps.exists_conversions?
    rw [← Piece.mem_filterMap_conversion?, hconversions] at htext
    obtain ⟨c, hc, rfl⟩ := List.mem_map.1 htext
    have hpercent : ¬ c.isPercent := fun h =>
      hne ((Conversion.isPercent_iff (hformed c hc)).1 h)
    simp only [isPrintf, hcs]
    exact List.any_eq_true.2 ⟨c, hc, by simp [hpercent]⟩

/-- The flag of a format is put behind the flags if the text can be cut into characters that are no
percent signs and conversions, one of them other than two percent signs, and else the flags stay. The
way to cut a text is unique. -/
theorem checkPrintf_iff_decomposition (text : String) {flags : List String}
    (hformat : "c-format" ∉ flags) (hnone : "no-c-format" ∉ flags) :
    (checkPrintf text flags = flags ++ ["c-format"] ↔
      ∃ ps, IsDecomposition ps text.toList ∧
        ∃ conversion, .conversion conversion ∈ ps ∧ conversion ≠ ['%', '%']) ∧
    (checkPrintf text flags = flags ++ ["c-format"] ∨ checkPrintf text flags = flags) ∧
    ∀ ps qs, IsDecomposition ps text.toList → IsDecomposition qs text.toList → ps = qs := by
  have hcheck : checkPrintf text flags =
      if isPrintf text.toList then flags ++ ["c-format"] else flags := by
    simp [checkPrintf, addFlag, hformat, hnone]
  refine ⟨?_, ?_, fun ps qs => IsDecomposition.unique⟩
  · rw [← isPrintf_iff, hcheck]
    split <;> simp [*]
  · rw [hcheck]
    split
    · exact .inl rfl
    · exact .inr rfl

/-- All parts of a conversion, and one with a zero that is a flag. -/
theorem checkPrintf_iff_decomposition_all_parts :
    "c-format" ∉ ["fuzzy"] ∧ "no-c-format" ∉ ["fuzzy"] ∧
      checkPrintf "a%1$-*.3lld%%%05x" ["fuzzy"] = ["fuzzy", "c-format"] := by
  have hformat : "c-format" ∉ ["fuzzy"] := by decide
  have hnone : "no-c-format" ∉ ["fuzzy"] := by decide
  refine ⟨hformat, hnone, (checkPrintf_iff_decomposition _ hformat hnone).1.2 ?_⟩
  let full : Conversion :=
    ⟨some ['1'], ['-'], some .star, some (.digits ['3']), ['l', 'l'], 'd'⟩
  let percent : Conversion := ⟨none, [], none, none, [], '%'⟩
  let padded : Conversion := ⟨none, ['0'], some (.digits ['5']), none, [], 'x'⟩
  have hvalid : ∀ p ∈ [Piece.plain 'a', .conversion full.write, .conversion percent.write,
      .conversion padded.write], p.IsValid := by
    simp only [List.forall_mem_cons, List.not_mem_nil, false_imp_iff, implies_true, and_true]
    exact ⟨show 'a' ≠ '%' by decide, ⟨full, by decide, rfl⟩, ⟨percent, by decide, rfl⟩,
      ⟨padded, by decide, rfl⟩⟩
  exact ⟨_, ⟨hvalid, by decide⟩, full.write, by simp, by decide⟩

end PotExtract.Format
