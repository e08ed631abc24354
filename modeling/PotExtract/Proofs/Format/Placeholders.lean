import Mathlib.Data.List.TakeWhile
import PotExtract.Format.Placeholder
import PotExtract.Proofs.Text.Numerals

/-! Placeholders as they are written. No part of a placeholder has a brace, so it reaches from an
opening brace to the next brace, which closes it. Where all braces of a text are written twice, the
inner ones of the pairs are an opening brace and the next brace as well: such a text holds a
placeholder whenever the text itself does. -/

namespace PotExtract.Format

open Text

/-! ### The grammar -/

/-- A character of an identifier behind the first one. -/
def isIdentifierChar (c : Char) : Bool :=
  c.isAlphanum || c == '_'

/-- A letter or an underscore, and letters, digits and underscores behind it. -/
def IsIdentifier : List Char → Prop
  | [] => False
  | c :: s => (c.isAlpha || c == '_') ∧ ∀ d ∈ s, isIdentifierChar d

def isBrace (c : Char) : Bool :=
  c == '{' || c == '}'

/-- A step from a value to a part of it. -/
inductive Accessor where
  | member (name : List Char)
  | item (key : List Char)
  deriving DecidableEq, Repr

namespace Accessor

def IsWellFormed : Accessor → Prop
  | member name => IsIdentifier name
  | item key => ∀ c ∈ key, c ≠ ']' ∧ isBrace c = false

def write : Accessor → List Char
  | member name => '.' :: name
  | item key => '[' :: (key ++ [']'])

end Accessor

/-- A placeholder in its parts. A field without characters is none. -/
structure Placeholder where
  field : List Char := []
  accessors : List Accessor := []
  conversion : Option Char := none
  specification : Option (List Char) := none
  deriving DecidableEq, Repr

/-- A field is known by its name or number. -/
def IsField (s : List Char) : Prop :=
  IsIdentifier s ∨ ∀ c ∈ s, isDecimal c

def writeConversion (conversion : Option Char) : List Char :=
  conversion.elim [] fun c => ['!', c]

def writeSpecification (specification : Option (List Char)) : List Char :=
  specification.elim [] (':' :: ·)

namespace Placeholder

structure IsWellFormed (p : Placeholder) : Prop where
  field : IsField p.field
  accessors : ∀ a ∈ p.accessors, a.IsWellFormed
  conversion : ∀ c ∈ p.conversion, c ∈ ['r', 's', 'a']
  specification : ∀ s ∈ p.specification, ∀ c ∈ s, isBrace c = false

/-- What is written between the braces. -/
def body (p : Placeholder) : List Char :=
  p.field ++ (p.accessors.flatMap Accessor.write ++
    (writeConversion p.conversion ++ writeSpecification p.specification))

def write (p : Placeholder) : List Char :=
  '{' :: (p.body ++ ['}'])

end Placeholder

variable {s t name key rest : List Char} {c : Char}

/-! ### Classes of characters -/

/-- The characters that the parts behind a field start with, and the closing brace. -/
def isMark (c : Char) : Bool :=
  c ∈ ['.', '[', '!', ':', '}']

theorem of_isMark (h : isMark c) : c.isAlpha = false ∧ c ≠ '_' ∧ isIdentifierChar c = false ∧
    isDecimal c = false := by
  have hall : ['.', '[', '!', ':', '}'].all fun c =>
      !c.isAlpha && c != '_' && !isIdentifierChar c && !isDecimal c := by
    decide +kernel
  simpa [and_assoc] using List.all_eq_true.1 hall c (of_decide_eq_true h)

theorem isMark_of_mem (h : c ∈ ['!', ':', '}']) : isMark c := by
  apply decide_eq_true
  simp only [List.mem_cons, List.not_mem_nil, or_false] at h ⊢
  tauto

theorem isIdentifierChar_of_start (h : c.isAlpha || c == '_') : isIdentifierChar c := by
  rw [Bool.or_eq_true] at h
  rw [isIdentifierChar, Bool.or_eq_true]
  exact h.imp_left fun hletter => isAlphanum_iff.2 (.inl hletter)

/-- The digits of other scripts lie behind the letters of ASCII. -/
theorem not_start_of_isDecimal (h : isDecimal c) : (c.isAlpha || c == '_') = false := by
  rw [isDecimal, Bool.or_eq_true, Bool.and_eq_true] at h
  have hcode : (48 ≤ c.toNat ∧ c.toNat ≤ 57) ∨ 0x660 ≤ c.toNat := by
    rcases h with h | ⟨h, -⟩
    · exact .inl (isDigit_iff.1 h)
    · rw [show digitRanges = (0x660, 0x669) :: digitRanges.tail from rfl, inRanges,
        Bool.and_eq_true, decide_eq_true_eq] at h
      exact .inr h.1
  have hunderscore : c ≠ '_' := by
    rintro rfl
    have : '_'.toNat = 95 := rfl
    omega
  have hletter : ¬ c.isAlpha := by
    rw [isAlpha_iff]
    omega
  simp [hunderscore, hletter]

theorem not_isBrace_of_class {p : Char → Bool} (hopen : p '{' = false) (hclose : p '}' = false)
    (h : p c) : isBrace c = false := by
  rw [isBrace, Bool.or_eq_false_iff, beq_eq_false_iff_ne, beq_eq_false_iff_ne]
  constructor
  · rintro rfl
    simp [hopen] at h
  · rintro rfl
    simp [hclose] at h

theorem not_isBrace_of_isIdentifierChar (h : isIdentifierChar c) : isBrace c = false :=
  not_isBrace_of_class (by decide) (by decide) h

theorem not_isBrace_of_isDecimal (h : isDecimal c) : isBrace c = false :=
  not_isBrace_of_class (by decide +kernel) (by decide +kernel) h

theorem IsIdentifier.isIdentifierChar_of_mem (h : IsIdentifier s) :
    ∀ c ∈ s, isIdentifierChar c := by
  cases s with
  | nil => exact List.forall_mem_nil _
  | cons c s => exact List.forall_mem_cons.2 ⟨isIdentifierChar_of_start h.1, h.2⟩

/-! ### What is read -/

theorem exists_identifier (h : c.isAlpha || c == '_') (s : List Char) :
    ∃ name, c :: s = name ++ (c :: s).dropWhile isIdentifierChar ∧ IsIdentifier name := by
  refine ⟨c :: s.takeWhile isIdentifierChar, ?_, h, fun d hd => List.mem_takeWhile_imp hd⟩
  rw [List.dropWhile_cons_of_pos (isIdentifierChar_of_start h), List.cons_append,
    List.takeWhile_append_dropWhile]

theorem exists_field (s : List Char) : ∃ field, s = field ++ dropField s ∧ IsField field := by
  cases s with
  | nil => exact ⟨[], rfl, .inr (List.forall_mem_nil _)⟩
  | cons c s =>
    rw [dropField]
    split
    · next hstart =>
      obtain ⟨name, hname, hidentifier⟩ := exists_identifier hstart s
      exact ⟨name, hname, .inl hidentifier⟩
    · exact ⟨_, List.takeWhile_append_dropWhile.symm, .inr fun d hd => List.mem_takeWhile_imp hd⟩

theorem exists_member (h : dropAttribute? s = some rest) :
    ∃ name, s = name ++ rest ∧ IsIdentifier name := by
  cases s with
  | nil => cases h
  | cons c s =>
    rw [dropAttribute?] at h
    split at h
    · next hstart =>
      obtain ⟨name, hname, hidentifier⟩ := exists_identifier hstart s
      refine ⟨name, ?_, hidentifier⟩
      rw [List.dropWhile_cons_of_pos (isIdentifierChar_of_start hstart)] at hname
      rw [← Option.some.inj h]
      exact hname
    · cases h

theorem exists_item (h : dropSubscript? s = some rest) :
    ∃ key, s = key ++ ']' :: rest ∧ ∀ c ∈ key, c ≠ ']' ∧ isBrace c = false := by
  unfold dropSubscript? at h
  split at h
  · next behind hdrop =>
    cases h
    refine ⟨s.takeWhile fun c => !(c == ']' || c == '{' || c == '}'), ?_, fun c hc => ?_⟩
    · rw [← hdrop, List.takeWhile_append_dropWhile]
    · have hkey := List.mem_takeWhile_imp hc
      simp only [Bool.not_eq_true', Bool.or_eq_false_iff, beq_eq_false_iff_ne] at hkey
      simp [isBrace, hkey]
  · cases h

theorem exists_accessors (s : List Char) : ∃ accessors : List Accessor,
    s = accessors.flatMap Accessor.write ++ dropAccessors s ∧
      ∀ a ∈ accessors, a.IsWellFormed := by
  fun_induction dropAccessors s with
  | case1 s tail hread _ ih =>
    obtain ⟨name, rfl, hname⟩ := exists_member hread
    obtain ⟨accessors, htail, haccessors⟩ := ih
    refine ⟨.member name :: accessors, ?_, List.forall_mem_cons.2 ⟨hname, haccessors⟩⟩
    rw [List.flatMap_cons, List.append_assoc, ← htail]
    rfl
  | case3 s tail hread _ ih =>
    obtain ⟨key, rfl, hkey⟩ := exists_item hread
    obtain ⟨accessors, htail, haccessors⟩ := ih
    refine ⟨.item key :: accessors, ?_, List.forall_mem_cons.2 ⟨hkey, haccessors⟩⟩
    rw [List.flatMap_cons, List.append_assoc, ← htail]
    simp [Accessor.write]
  | case2 | case4 | case5 => exact ⟨[], rfl, by simp⟩

theorem exists_conversion (s : List Char) : ∃ conversion,
    s = writeConversion conversion ++ dropConversion s ∧
      ∀ c ∈ conversion, c ∈ ['r', 's', 'a'] := by
  unfold dropConversion
  split
  · next c s =>
    split
    · next hc => exact ⟨some c, rfl, fun d hd => Option.some.inj hd ▸ hc⟩
    · exact ⟨none, rfl, by simp⟩
  · exact ⟨none, rfl, by simp⟩

theorem exists_specification (s : List Char) : ∃ specification,
    s = writeSpecification specification ++ dropSpecification s ∧
      ∀ t ∈ specification, ∀ c ∈ t, isBrace c = false := by
  unfold dropSpecification
  split
  · next s =>
    refine ⟨some (s.takeWhile (!isBrace ·)), ?_, fun t ht c hc => ?_⟩
    · exact congrArg (':' :: ·) List.takeWhile_append_dropWhile.symm
    · rw [← Option.some.inj ht] at hc
      simpa using List.mem_takeWhile_imp hc
  · exact ⟨none, rfl, by simp⟩

/-! ### What is written is read -/

theorem dropWhile_identifier (h : ∀ d ∈ name, isIdentifierChar d) (hc : isMark c) :
    (name ++ c :: t).dropWhile isIdentifierChar = c :: t := by
  rw [List.dropWhile_append_of_pos h, List.dropWhile_cons_of_neg (by simp [of_isMark hc])]

theorem dropField_append (h : IsField s) (hc : isMark c) : dropField (s ++ c :: t) = c :: t := by
  obtain ⟨hletter, hunderscore, -, hdecimal⟩ := of_isMark hc
  have hdigits (ds : List Char) (hds : ∀ d ∈ ds, isDecimal d) :
      (ds ++ c :: t).dropWhile isDecimal = c :: t := by
    rw [List.dropWhile_append_of_pos hds, List.dropWhile_cons_of_neg (by simp [hdecimal])]
  cases s with
  | nil =>
    rw [List.nil_append, dropField, if_neg (by simp [hletter, hunderscore])]
    exact hdigits [] (List.forall_mem_nil _)
  | cons d ds =>
    rw [List.cons_append, dropField]
    rcases h with h | h
    · have hname : ∀ e ∈ d :: ds, isIdentifierChar e := h.isIdentifierChar_of_mem
      rw [if_pos h.1]
      exact dropWhile_identifier hname hc
    · rw [if_neg (by simp [not_start_of_isDecimal (h d List.mem_cons_self)])]
      exact hdigits (d :: ds) h

theorem dropAttribute?_append (h : IsIdentifier name) (hc : isMark c) :
    dropAttribute? (name ++ c :: t) = some (c :: t) := by
  cases name with
  | nil => cases h
  | cons d ds =>
    rw [List.cons_append, dropAttribute?, if_pos h.1]
    exact congrArg some (dropWhile_identifier h.2 hc)

theorem dropSubscript?_append (h : ∀ d ∈ key, d ≠ ']' ∧ isBrace d = false) :
    dropSubscript? (key ++ ']' :: t) = some t := by
  have hkey : ∀ d ∈ key, (!(d == ']' || d == '{' || d == '}')) = true := by
    intro d hd
    obtain ⟨hclose, hbrace⟩ := h d hd
    rw [isBrace, Bool.or_eq_false_iff] at hbrace
    simp [hclose, hbrace]
  rw [dropSubscript?, List.dropWhile_append_of_pos hkey]
  rfl

theorem dropAccessors_write {a : Accessor} (h : a.IsWellFormed) (hc : isMark c) :
    dropAccessors (a.write ++ c :: t) = dropAccessors (c :: t) := by
  cases a with
  | member name =>
    have hread := dropAttribute?_append (t := t) h hc
    rw [Accessor.write, List.cons_append, dropAccessors]
    split
    · next heq =>
      rw [hread] at heq
      exact congrArg dropAccessors (Option.some.inj heq).symm
    · next heq =>
      rw [hread] at heq
      cases heq
  | item key =>
    have hread := dropSubscript?_append (t := c :: t) h
    rw [Accessor.write, List.cons_append, List.append_assoc, List.singleton_append, dropAccessors]
    split
    · next heq =>
      rw [hread] at heq
      exact congrArg dropAccessors (Option.some.inj heq).symm
    · next heq =>
      rw [hread] at heq
      cases heq

theorem exists_mark (accessors : List Accessor) (hc : isMark c) :
    ∃ d u, accessors.flatMap Accessor.write ++ c :: t = d :: u ∧ isMark d := by
  cases accessors with
  | nil => exact ⟨c, t, rfl, hc⟩
  | cons a accessors =>
    cases a with
    | member name => exact ⟨'.', _, rfl, rfl⟩
    | item key => exact ⟨'[', _, rfl, rfl⟩

theorem dropAccessors_append {accessors : List Accessor} (h : ∀ a ∈ accessors, a.IsWellFormed)
    (hc : c ∈ ['!', ':', '}']) :
    dropAccessors (accessors.flatMap Accessor.write ++ c :: t) = c :: t := by
  induction accessors with
  | nil =>
    simp only [List.mem_cons, List.not_mem_nil, or_false] at hc
    rw [List.flatMap_nil, List.nil_append]
    rcases hc with rfl | rfl | rfl <;> rw [dropAccessors] <;> simp
  | cons a accessors ih =>
    obtain ⟨ha, haccessors⟩ := List.forall_mem_cons.1 h
    obtain ⟨d, u, hrest, hd⟩ := exists_mark (t := t) accessors (isMark_of_mem hc)
    rw [List.flatMap_cons, List.append_assoc, hrest, dropAccessors_write ha hd, ← hrest,
      ih haccessors]

theorem dropConversion_append {conversion : Option Char}
    (h : ∀ d ∈ conversion, d ∈ ['r', 's', 'a']) (hc : c ≠ '!') :
    dropConversion (writeConversion conversion ++ c :: t) = c :: t := by
  cases conversion with
  | none =>
    unfold dropConversion
    split
    · next heq => exact absurd (List.cons.inj heq).1 hc
    · rfl
  | some d => exact if_pos (h d rfl)

theorem dropSpecification_append {specification : Option (List Char)}
    (h : ∀ s ∈ specification, ∀ c ∈ s, isBrace c = false) :
    dropSpecification (writeSpecification specification ++ '}' :: t) = '}' :: t := by
  cases specification with
  | none => rfl
  | some s =>
    have hs : ∀ c ∈ s, (!isBrace c) = true := fun c hc => by simp [h s rfl c hc]
    show (s ++ '}' :: t).dropWhile (!isBrace ·) = '}' :: t
    rw [List.dropWhile_append_of_pos hs]
    rfl

theorem exists_behindConversion (specification : Option (List Char)) (t : List Char) :
    ∃ c u, writeSpecification specification ++ '}' :: t = c :: u ∧ c ∈ [':', '}'] := by
  cases specification with
  | none => exact ⟨'}', t, rfl, by simp⟩
  | some s => exact ⟨':', s ++ '}' :: t, rfl, by simp⟩

theorem exists_behindAccessors (conversion : Option Char) (hc : c ∈ [':', '}']) (t : List Char) :
    ∃ d u, writeConversion conversion ++ c :: t = d :: u ∧ d ∈ ['!', ':', '}'] := by
  cases conversion with
  | none => exact ⟨c, t, rfl, List.mem_cons_of_mem _ hc⟩
  | some d => exact ⟨'!', d :: c :: t, rfl, by simp⟩

/-- Behind an opening brace a placeholder is found exactly if one is written there. -/
theorem isPlaceholder_iff :
    isPlaceholder s ↔ ∃ p : Placeholder, p.IsWellFormed ∧ ∃ t, s = p.body ++ '}' :: t := by
  constructor
  · intro h
    obtain ⟨field, hfield, hfieldFormed⟩ := exists_field s
    obtain ⟨accessors, haccessors, haccessorsFormed⟩ := exists_accessors (dropField s)
    obtain ⟨conversion, hconversion, hletter⟩ :=
      exists_conversion (dropAccessors (dropField s))
    obtain ⟨specification, hspecification, hspecificationFormed⟩ :=
      exists_specification (dropConversion (dropAccessors (dropField s)))
    obtain ⟨t, ht⟩ := List.head?_eq_some_iff.1 (of_decide_eq_true h)
    refine ⟨⟨field, accessors, conversion, specification⟩,
      ⟨hfieldFormed, haccessorsFormed, hletter, hspecificationFormed⟩, t, ?_⟩
    calc s = field ++ (accessors.flatMap Accessor.write ++ (writeConversion conversion ++
          (writeSpecification specification ++ '}' :: t))) := by
            rw [← ht, ← hspecification, ← hconversion, ← haccessors, ← hfield]
      _ = _ := by simp [Placeholder.body]
  · rintro ⟨p, hp, t, rfl⟩
    obtain ⟨c, u, hspecification, hc⟩ := exists_behindConversion p.specification t
    obtain ⟨d, v, hconversion, hd⟩ := exists_behindAccessors p.conversion hc u
    obtain ⟨e, w, haccessors, he⟩ := exists_mark (t := v) p.accessors (isMark_of_mem hd)
    have hne : c ≠ '!' := by
      rintro rfl
      simp at hc
    have hbody : p.body ++ '}' :: t = p.field ++ e :: w := by
      rw [Placeholder.body, ← haccessors, ← hconversion, ← hspecification]
      simp
    have hrest : dropSpecification (dropConversion (dropAccessors (dropField
        (p.body ++ '}' :: t)))) = '}' :: t := by
      rw [hbody, dropField_append hp.field he, ← haccessors, dropAccessors_append hp.accessors hd,
        ← hconversion, dropConversion_append hp.conversion hne, ← hspecification,
        dropSpecification_append hp.specification]
    simp [isPlaceholder, hrest]

/-! ### Placeholders in a text -/

theorem Accessor.not_isBrace_of_mem {a : Accessor} (h : a.IsWellFormed) :
    ∀ c ∈ a.write, isBrace c = false := by
  cases a with
  | member name =>
    refine List.forall_mem_cons.2 ⟨rfl, fun c hc => ?_⟩
    exact not_isBrace_of_isIdentifierChar (h.isIdentifierChar_of_mem c hc)
  | item key =>
    refine List.forall_mem_cons.2 ⟨rfl, List.forall_mem_append.2 ⟨fun c hc => (h c hc).2, ?_⟩⟩
    exact List.forall_mem_singleton.2 rfl

/-- No part of a placeholder has a brace. -/
theorem Placeholder.IsWellFormed.not_isBrace_of_mem {p : Placeholder} (h : p.IsWellFormed) :
    ∀ c ∈ p.body, isBrace c = false := by
  refine List.forall_mem_append.2 ⟨?_, List.forall_mem_append.2 ⟨?_,
    List.forall_mem_append.2 ⟨?_, ?_⟩⟩⟩
  · intro c hc
    rcases h.field with hfield | hfield
    · exact not_isBrace_of_isIdentifierChar (hfield.isIdentifierChar_of_mem c hc)
    · exact not_isBrace_of_isDecimal (hfield c hc)
  · intro c hc
    obtain ⟨a, ha, hc⟩ := List.mem_flatMap.1 hc
    exact Accessor.not_isBrace_of_mem (h.accessors a ha) c hc
  · cases hconversion : p.conversion with
    | none => exact List.forall_mem_nil _
    | some c =>
      have hletter : ∀ d ∈ ['!', 'r', 's', 'a'], isBrace d = false := by simp [isBrace]
      have hc : c ∈ ['r', 's', 'a'] := h.conversion c hconversion
      refine List.forall_mem_cons.2 ⟨rfl, List.forall_mem_singleton.2 ?_⟩
      exact hletter c (List.mem_cons_of_mem _ hc)
  · cases hspecification : p.specification with
    | none => exact List.forall_mem_nil _
    | some s => exact List.forall_mem_cons.2 ⟨rfl, h.specification s hspecification⟩

/-- A placeholder behind an opening brace reaches to the next brace. -/
theorem isPlaceholder_iff_takeWhile : isPlaceholder s ↔
    (∃ p : Placeholder, p.IsWellFormed ∧ s.takeWhile (!isBrace ·) = p.body) ∧
      (s.dropWhile (!isBrace ·)).head? = some '}' := by
  rw [isPlaceholder_iff]
  constructor
  · rintro ⟨p, hp, t, rfl⟩
    have hbody : ∀ c ∈ p.body, (!isBrace c) = true := fun c hc => by
      simp [hp.not_isBrace_of_mem c hc]
    rw [List.takeWhile_append_of_pos hbody, List.dropWhile_append_of_pos hbody]
    exact ⟨⟨p, hp, List.append_nil _⟩, rfl⟩
  · rintro ⟨⟨p, hp, hbody⟩, hclose⟩
    obtain ⟨t, ht⟩ := List.head?_eq_some_iff.1 hclose
    refine ⟨p, hp, t, ?_⟩
    rw [← hbody, ← ht, List.takeWhile_append_dropWhile]

/-- A placeholder is found in a text exactly if one is written in it. -/
theorem hasPlaceholder_iff : hasPlaceholder s ↔ ∃ front, ∃ p : Placeholder, ∃ behind,
    p.IsWellFormed ∧ s = front ++ (p.write ++ behind) := by
  induction s with
  | nil =>
    refine ⟨nofun, ?_⟩
    rintro ⟨front, p, behind, -, h⟩
    simp [Placeholder.write] at h
  | cons c s ih =>
    rw [hasPlaceholder, Bool.or_eq_true, Bool.and_eq_true, beq_iff_eq, isPlaceholder_iff, ih]
    constructor
    · rintro (⟨rfl, p, hp, t, rfl⟩ | ⟨front, p, behind, hp, rfl⟩)
      · exact ⟨[], p, t, hp, by simp [Placeholder.write]⟩
      · exact ⟨c :: front, p, behind, hp, rfl⟩
    · rintro ⟨front, p, behind, hp, h⟩
      cases front with
      | nil =>
        obtain ⟨rfl, rfl⟩ := List.cons.inj h
        exact .inl ⟨rfl, p, hp, behind, by simp⟩
      | cons d front =>
        obtain ⟨rfl, rfl⟩ := List.cons.inj h
        exact .inr ⟨front, p, behind, hp, rfl⟩

/-! ### Braces written twice -/

/-- The text with every brace written twice, as a format writes a brace that stands for itself. -/
def doubleBraces (s : List Char) : List Char :=
  s.flatMap fun c => if isBrace c then [c, c] else [c]

theorem doubleBraces_brace (h : isBrace c) (s : List Char) :
    doubleBraces (c :: s) = c :: c :: doubleBraces s := by
  rw [doubleBraces, List.flatMap_cons, if_pos h]
  rfl

theorem doubleBraces_cons (h : isBrace c = false) (s : List Char) :
    doubleBraces (c :: s) = c :: doubleBraces s := by
  rw [doubleBraces, List.flatMap_cons, if_neg (by simp [h])]
  rfl

/-- Up to the first brace a text is left as it is, and that brace comes first among the doubled. -/
theorem span_doubleBraces (s : List Char) :
    (doubleBraces s).takeWhile (!isBrace ·) = s.takeWhile (!isBrace ·) ∧
      ((doubleBraces s).dropWhile (!isBrace ·)).head? = (s.dropWhile (!isBrace ·)).head? := by
  induction s with
  | nil => exact ⟨rfl, rfl⟩
  | cons c s ih =>
    cases hc : isBrace c with
    | true => simp [doubleBraces_brace hc, hc]
    | false => simpa [doubleBraces_cons hc, hc] using ih

theorem isPlaceholder_doubleBraces (s : List Char) :
    isPlaceholder (doubleBraces s) = isPlaceholder s := by
  obtain ⟨htake, hhead⟩ := span_doubleBraces s
  rw [Bool.eq_iff_iff, isPlaceholder_iff_takeWhile, isPlaceholder_iff_takeWhile, htake, hhead]

/-- An opening brace is no part of a placeholder that is open. -/
theorem isPlaceholder_brace (s : List Char) : isPlaceholder ('{' :: s) = false := by
  rw [Bool.eq_false_iff]
  intro h
  have hclose := (isPlaceholder_iff_takeWhile.1 h).2
  simp [isBrace] at hclose

theorem hasPlaceholder_doubleBraces (s : List Char) :
    hasPlaceholder (doubleBraces s) = hasPlaceholder s := by
  induction s with
  | nil => rfl
  | cons c s ih =>
    cases hc : isBrace c with
    | false =>
      rw [doubleBraces_cons hc, hasPlaceholder, hasPlaceholder, isPlaceholder_doubleBraces, ih]
    | true =>
      rw [doubleBraces_brace hc, hasPlaceholder, hasPlaceholder, hasPlaceholder, ih,
        isPlaceholder_doubleBraces]
      -- of two opening braces only the second one can open a placeholder
      by_cases hopen : c = '{'
      · simp [hopen, isPlaceholder_brace]
      · simp [hopen]

/-- The flag of a format with placeholders is added to a text with its braces written twice exactly
if it is added to the text itself: where no flag settles the matter and a placeholder is written in
the text, which its inner braces then still enclose. -/
theorem checkPlaceholders_doubleBraces (text : String) {flags : List String}
    (hformat : "python-format" ∉ flags) :
    ("python-format" ∈ checkPlaceholders (String.ofList (doubleBraces text.toList)) flags ↔
      "no-python-format" ∉ flags ∧ ∃ front, ∃ p : Placeholder, ∃ behind,
        p.IsWellFormed ∧ text.toList = front ++ (p.write ++ behind)) ∧
    checkPlaceholders (String.ofList (doubleBraces text.toList)) flags =
      checkPlaceholders text flags := by
  have hsame : checkPlaceholders (String.ofList (doubleBraces text.toList)) flags =
      checkPlaceholders text flags := by
    simp only [checkPlaceholders, String.toList_ofList, hasPlaceholder_doubleBraces]
  refine ⟨?_, hsame⟩
  rw [hsame, ← hasPlaceholder_iff, checkPlaceholders]
  by_cases hnone : "no-python-format" ∈ flags
  · simp [hnone, hformat]
  · rw [if_neg (by simp [hformat, hnone])]
    split
    · next hholds => simp [addFlag, hformat, hnone, hholds]
    · next hholds => simp [hformat, hholds]

/-- All parts of a placeholder, with braces around it that belong to none. -/
theorem checkPlaceholders_doubleBraces_allParts :
    "python-format" ∉ ["fuzzy"] ∧
      "python-format" ∈ checkPlaceholders (String.ofList
        (doubleBraces "\x7d\x7bcow.name[0 .]!r:>3\x7d\x7b".toList)) ["fuzzy"] := by
  have hformat : "python-format" ∉ ["fuzzy"] := by decide
  let p : Placeholder := ⟨"cow".toList, [.member "name".toList, .item "0 .".toList], some 'r',
    some ">3".toList⟩
  have hp : p.IsWellFormed := by
    refine ⟨.inl ⟨rfl, List.all_eq_true.1 rfl⟩, ?_, by simp [p], by simp [p, isBrace]⟩
    have hkey : ∀ c ∈ "0 .".toList, c ≠ ']' ∧ isBrace c = false := by simp [isBrace]
    exact List.forall_mem_cons.2 ⟨⟨rfl, List.all_eq_true.1 rfl⟩, List.forall_mem_singleton.2 hkey⟩
  refine ⟨hformat, (checkPlaceholders_doubleBraces _ hformat).1.2 ⟨by decide, ?_⟩⟩
  exact ⟨['}'], p, ['{'], hp, by decide⟩

/-- The braces of a text that only speaks of a placeholder. -/
theorem checkPlaceholders_doubledName :
    String.ofList (doubleBraces "\x7bname\x7d".toList) = "\x7b\x7bname\x7d\x7d" ∧
      "python-format" ∉ ([] : List String) ∧
      "python-format" ∈ checkPlaceholders "\x7b\x7bname\x7d\x7d" [] := by
  decide +kernel

end PotExtract.Format
