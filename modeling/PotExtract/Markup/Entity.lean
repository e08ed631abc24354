import PotExtract.Text.Numeral
import PotExtract.Text.Pieces

/-! Entities in the text of templates: a few names and character references by number. Whatever is
not one of them stays as it is written. -/

namespace PotExtract.Markup

open Text

/-- The number of a character reference. -/
def referenceCode? : List Char → Option Nat
  | 'x' :: digits | 'X' :: digits => (readNumeral 16 limit32 digits).toOption
  | digits => (readNumeral 10 limit32 digits).toOption

/-- The characters with names. -/
def namedChar? (name : List Char) : Option Char :=
  if name = "amp".toList then some '&'
  else if name = "lt".toList then some '<'
  else if name = "gt".toList then some '>'
  else if name = "quot".toList then some '"'
  else if name = "apos".toList then some '\''
  else if name = "nbsp".toList then some '\xa0'
  else none

/-- The character that an entity stands for. -/
def entityChar? (entity : List Char) : Option Char :=
  match entity with
  | '#' :: number => (referenceCode? number).bind charOfCode?
  | _ => namedChar? entity

/-- Reads the entity behind an ampersand, with its semicolon at most twelve bytes off. -/
def entity? (s : List Char) : Option (Char × List Char) :=
  match cut? ';' s with
  | some (entity, rest) =>
    if byteLength entity + 1 ≤ 12 then (entityChar? entity).map (·, rest) else none
  | none => none

theorem length_entity?_lt {s rest : List Char} {c : Char} (h : entity? s = some (c, rest)) :
    rest.length < s.length := by
  unfold entity? at h
  split at h
  · next hc =>
    split at h
    · obtain ⟨d, -, he⟩ := Option.map_eq_some_iff.1 h
      cases he
      exact length_cut?_lt hc
    · simp at h
  · simp at h

/-- The text with its entities replaced. -/
def decodeEntities : List Char → List Char
  | [] => []
  | c :: s =>
    if c = '&' then
      match h : entity? s with
      | some (d, rest) =>
        have := length_entity?_lt h
        d :: decodeEntities rest
      | none => '&' :: decodeEntities s
    else c :: decodeEntities s
  termination_by s => s.length

end PotExtract.Markup
