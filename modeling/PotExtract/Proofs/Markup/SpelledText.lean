import Mathlib.Data.List.Forall2
import PotExtract.Proofs.Markup.Encoding
import PotExtract.Proofs.Text.Numerals

/-! Texts spelled character by character: each as itself, by its name or by its number in base ten or
sixteen. However the characters of a text are spelled, decoding gives the text: it goes on behind
each entity, so what an entity stands for is neither decoded again nor part of another one. -/

namespace PotExtract.Markup

open Text

/-- The characters that have names. -/
def characterNames : List (List Char × Char) :=
  [("amp".toList, '&'), ("lt".toList, '<'), ("gt".toList, '>'), ("quot".toList, '"'),
    ("apos".toList, '\''), ("nbsp".toList, '\xa0')]

/-- A text spells a character. The digits of its number are written without leading zeros, letters
among them in either case. -/
inductive Spells : List Char → Char → Prop
  | itself {c : Char} : c ≠ '&' → Spells [c] c
  | name {name : List Char} {c : Char} : (name, c) ∈ characterNames →
    Spells ('&' :: (name ++ [';'])) c
  | decimal (c : Char) : Spells ('&' :: '#' :: (Nat.toDigits 10 c.toNat ++ [';'])) c
  | hexadecimal {x : Char} {digits : List Char} {c : Char} : x = 'x' ∨ x = 'X' →
    digits.map Char.toLower = Nat.toDigits 16 c.toNat →
    Spells ('&' :: '#' :: x :: (digits ++ [';'])) c

/-! ### References by number -/

theorem charOfCode?_toNat (c : Char) : charOfCode? c.toNat = some c := by
  have hvalid : c.toNat.isValidChar := c.valid
  rw [charOfCode?, if_pos hvalid, Char.ofNat_toNat]

theorem toNat_lt (c : Char) : c.toNat < 0x110000 := by
  have : c.toNat < 0xD800 ∨ 0xDFFF < c.toNat ∧ c.toNat < 0x110000 := c.valid
  omega

/-- A reference by a number with few digits stands for the character with this number. -/
theorem decodeEntities_reference (number : List Char) {c : Char}
    (h : referenceCode? number = some c.toNat) (hdigits : ∀ d ∈ number, d.isAlphanum)
    (hlen : number.length ≤ 10) (rest : List Char) :
    decodeEntities ('&' :: '#' :: (number ++ ';' :: rest)) = c :: decodeEntities rest := by
  have hchar : entityChar? ('#' :: number) = some c := by
    show (referenceCode? number).bind charOfCode? = some c
    rw [h, Option.bind_some, charOfCode?_toNat]
  have hplain : ';' ∉ '#' :: number := by
    rw [List.mem_cons, not_or]
    exact ⟨by decide, fun hmem => absurd (hdigits ';' hmem) (by decide)⟩
  refine decodeEntities_entity hchar hplain ?_ rest
  rw [byteLength_cons, byteLength_of_isAlphanum hdigits, show '#'.utf8Size = 1 from rfl]
  omega

theorem decodeEntities_decimal (c : Char) (rest : List Char) :
    decodeEntities ('&' :: '#' :: (Nat.toDigits 10 c.toNat ++ ';' :: rest)) =
      c :: decodeEntities rest := by
  have hlt := toNat_lt c
  have hdigit : ∀ d ∈ Nat.toDigits 10 c.toNat, d.isDigit := fun d hd =>
    Nat.isDigit_of_mem_toDigits (by decide) (by decide) hd
  have hread : readNumeral 10 limit32 (Nat.toDigits 10 c.toNat) = .ok c.toNat :=
    readNumeral_toDigits (by decide) (by decide) (Nat.lt_trans hlt (by decide))
  refine decodeEntities_reference _ ?_ (fun _ => isAlphanum_of_mem_toDigits) ?_ rest
  · -- the first digit is not the letter in front of digits in base sixteen
    unfold referenceCode?
    split
    · next heq => exact absurd (hdigit 'x' (heq ▸ List.mem_cons_self)) (by decide)
    · next heq => exact absurd (hdigit 'X' (heq ▸ List.mem_cons_self)) (by decide)
    · rw [hread]
      rfl
  · exact (Nat.length_toDigits_le_iff (by decide) (by decide)).2 (Nat.lt_trans hlt (by decide))

theorem decodeEntities_hexadecimal {x : Char} (hx : x = 'x' ∨ x = 'X') {digits : List Char}
    {c : Char} (h : digits.map Char.toLower = Nat.toDigits 16 c.toNat) (rest : List Char) :
    decodeEntities ('&' :: '#' :: x :: (digits ++ ';' :: rest)) = c :: decodeEntities rest := by
  have hlt := toNat_lt c
  have hread : readDigits 16 limit32 0 digits = .ok c.toNat := by
    rw [← readDigits_map_toLower, h]
    exact readDigits_toDigits (by decide) (by decide) (Nat.lt_trans hlt (by decide))
  refine decodeEntities_reference (x :: digits) ?_ ?_ ?_ rest
  · have hne : digits ≠ [] := by
      rintro rfl
      exact Nat.toDigits_ne_nil h.symm
    rcases hx with rfl | rfl
    all_goals
      show (readNumeral 16 limit32 digits).toOption = _
      rw [readNumeral_of_readDigits hne hread]
      rfl
  · refine List.forall_mem_cons.2 ⟨?_, isAlphanum_of_readDigits hread⟩
    rcases hx with rfl | rfl <;> decide
  · have hlen : digits.length ≤ 6 := by
      rw [← List.length_map Char.toLower, h]
      exact (Nat.length_toDigits_le_iff (by decide) (by decide)).2 (Nat.lt_trans hlt (by decide))
    rw [List.length_cons]
    omega

/-! ### Texts -/

/-- What spells a character is decoded to it, and the text behind goes on being decoded. -/
theorem Spells.decodeEntities_append {w : List Char} {c : Char} (h : Spells w c)
    (rest : List Char) : decodeEntities (w ++ rest) = c :: decodeEntities rest := by
  cases h with
  | itself hc => rw [List.singleton_append, decodeEntities, if_neg hc]
  | @name name c hname =>
    have hnames : ∀ p ∈ characterNames, namedChar? p.1 = some p.2 ∧ ';' ∉ p.1 ∧
        p.1.head? ≠ some '#' ∧ byteLength p.1 + 1 ≤ 12 := by
      decide
    obtain ⟨hchar, hplain, hhash, hlen⟩ := hnames (name, c) hname
    simpa using decodeEntities_named name hchar hplain hhash hlen rest
  | decimal c => simpa using decodeEntities_decimal c rest
  | hexadecimal hx hdigits => simpa using decodeEntities_hexadecimal hx hdigits rest

/-- However the characters of a text are spelled, decoding gives the text. -/
theorem decodeEntities_spelled {pieces : List (List Char)} {s : List Char}
    (h : List.Forall₂ Spells pieces s) : decodeEntities pieces.flatten = s := by
  induction h with
  | nil => rw [List.flatten_nil, decodeEntities]
  | cons hc _ ih => rw [List.flatten_cons, hc.decodeEntities_append, ih]

/-- Ampersands and semicolons that are spelled do not make entities of the text around them. -/
theorem decodeEntities_spelled_lookalikes :
    decodeEntities "&amp;lt;&#38;#65;&#xE9;&#X1f600;&apos;".toList = "&lt;&#65;é😀'".toList := by
  have hamp : ("amp".toList, '&') ∈ characterNames := by decide
  have hapos : ("apos".toList, '\'') ∈ characterNames := by decide
  have hupper : "E9".toList.map Char.toLower = Nat.toDigits 16 'é'.toNat := by decide
  have hlower : "1f600".toList.map Char.toLower = Nat.toDigits 16 '😀'.toNat := by decide
  have hspells : List.Forall₂ Spells
      ["&amp;".toList, ['l'], ['t'], [';'], "&#38;".toList, ['#'], ['6'], ['5'], [';'],
        "&#xE9;".toList, "&#X1f600;".toList, "&apos;".toList] "&lt;&#65;é😀'".toList :=
    .cons (.name hamp) <| .cons (.itself (by decide)) <| .cons (.itself (by decide)) <|
    .cons (.itself (by decide)) <| .cons (.decimal '&') <| .cons (.itself (by decide)) <|
    .cons (.itself (by decide)) <| .cons (.itself (by decide)) <| .cons (.itself (by decide)) <|
    .cons (.hexadecimal (.inl rfl) hupper) <| .cons (.hexadecimal (.inr rfl) hlower) <|
    .cons (.name hapos) .nil
  exact decodeEntities_spelled hspells

end PotExtract.Markup
