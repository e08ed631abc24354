import PotExtract.Markup.Entity

/-! Writing a text so that markup holds it: the characters that markup gives a meaning stand as
entities, which are decoded to the text again. -/

namespace PotExtract.Markup

open Text

/-- A character as it stands in markup. -/
def encodeChar (c : Char) : List Char :=
  if c = '&' then "&amp;".toList
  else if c = '<' then "&lt;".toList
  else if c = '>' then "&gt;".toList
  else [c]

/-- The text as it stands in markup. -/
def encode (s : List Char) : List Char :=
  s.flatMap encodeChar

theorem decodeEntities_of_entity {s rest : List Char} {d : Char}
    (h : entity? s = some (d, rest)) : decodeEntities ('&' :: s) = d :: decodeEntities rest := by
  rw [decodeEntities, if_pos rfl]
  split
  · next h' =>
    obtain ⟨rfl, rfl⟩ := Prod.mk.inj (Option.some.inj (h.symm.trans h'))
    rfl
  · next h' =>
    rw [h] at h'
    cases h'

/-- An entity that is short enough stands for its character. -/
theorem decodeEntities_entity {entity : List Char} {d : Char} (h : entityChar? entity = some d)
    (hplain : ';' ∉ entity) (hlen : byteLength entity + 1 ≤ 12) (rest : List Char) :
    decodeEntities ('&' :: (entity ++ ';' :: rest)) = d :: decodeEntities rest := by
  refine decodeEntities_of_entity ?_
  rw [entity?, cut?_append_cons hplain]
  simp only [hlen, if_true, h, Option.map_some]

/-- An entity with a name stands for the character of that name. -/
theorem decodeEntities_named (name : List Char) {d : Char} (hname : namedChar? name = some d)
    (hplain : ';' ∉ name) (hhash : name.head? ≠ some '#') (hlen : byteLength name + 1 ≤ 12)
    (rest : List Char) :
    decodeEntities ('&' :: (name ++ ';' :: rest)) = d :: decodeEntities rest := by
  have hchar : entityChar? name = some d := by
    rw [entityChar?.eq_def]
    split
    · simp at hhash
    · exact hname
  exact decodeEntities_entity hchar hplain hlen rest

theorem decodeEntities_encodeChar (c : Char) (s : List Char) :
    decodeEntities (encodeChar c ++ s) = c :: decodeEntities s := by
  unfold encodeChar
  by_cases hamp : c = '&'
  · rw [if_pos hamp, hamp]
    exact decodeEntities_named "amp".toList (by decide) (by decide) (by decide)
      (by decide) s
  rw [if_neg hamp]
  by_cases hlt : c = '<'
  · rw [if_pos hlt, hlt]
    exact decodeEntities_named "lt".toList (by decide) (by decide) (by decide)
      (by decide) s
  rw [if_neg hlt]
  by_cases hgt : c = '>'
  · rw [if_pos hgt, hgt]
    exact decodeEntities_named "gt".toList (by decide) (by decide) (by decide)
      (by decide) s
  rw [if_neg hgt, List.singleton_append, decodeEntities, if_neg hamp]

theorem decodeEntities_encode (s : List Char) : decodeEntities (encode s) = s := by
  induction s with
  | nil => rw [encode, List.flatMap_nil, decodeEntities]
  | cons c s ih =>
    show decodeEntities (encodeChar c ++ encode s) = c :: s
    rw [decodeEntities_encodeChar, ih]

/-- A text without entities stands for itself. -/
theorem decodeEntities_eq_self {s : List Char} (h : '&' ∉ s) : decodeEntities s = s := by
  induction s with
  | nil => rw [decodeEntities]
  | cons c s ih =>
    obtain ⟨hc, hs⟩ : '&' ≠ c ∧ '&' ∉ s := by simpa using h
    rw [decodeEntities, if_neg (Ne.symm hc), ih hs]

/-- No bracket that opens a tag stands in the text. -/
theorem not_mem_encode (s : List Char) : '<' ∉ encode s := by
  intro h
  obtain ⟨c, -, hc⟩ := List.mem_flatMap.1 h
  unfold encodeChar at hc
  split at hc
  · revert hc
    decide
  split at hc
  · revert hc
    decide
  split at hc
  · revert hc
    decide
  · next hlt _ => exact hlt (List.mem_singleton.1 hc).symm

end PotExtract.Markup
