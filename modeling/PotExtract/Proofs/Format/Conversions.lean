import Mathlib.Data.List.TakeWhile
import PotExtract.Format.Printf

/-! Conversions as they are written. No character in front of the letter of a conversion is such a
letter, so a conversion ends at the first one, and none is the beginning of another. The reader of
conversions takes what is written of one, and it takes every one. -/

namespace PotExtract.Format

open Text

/-! ### The grammar -/

/-- Digits, at least one. -/
def IsNumber (ds : List Char) : Prop :=
  ds ≠ [] ∧ ∀ d ∈ ds, isDecimal d

/-- A width or precision is a number or a star. -/
def Amount.IsWellFormed : Amount → Prop
  | .digits ds => IsNumber ds
  | .star => True

/-- The length modifiers, the empty one included. -/
def modifiers : List (List Char) :=
  [[], ['h', 'h'], ['h'], ['l', 'l'], ['l'], ['L'], ['q'], ['j'], ['z'], ['t']]

/-- A conversion has a number as its argument, flags as its flags, and so on. -/
structure Conversion.IsWellFormed (c : Conversion) : Prop where
  argument : ∀ ds ∈ c.argument, IsNumber ds
  flags : ∀ f ∈ c.flags, isFlag f
  width : ∀ a ∈ c.width, a.IsWellFormed
  precision : ∀ a ∈ c.precision, a.IsWellFormed
  modifier : c.modifier ∈ modifiers
  letter : isConversionLetter c.letter

instance : DecidablePred IsNumber := fun ds =>
  decidable_of_iff (ds ≠ [] ∧ ds.all isDecimal) (by simp [IsNumber])

instance : DecidablePred Amount.IsWellFormed
  | .digits ds => inferInstanceAs (Decidable (IsNumber ds))
  | .star => .isTrue trivial

instance : DecidablePred Conversion.IsWellFormed := fun c =>
  decidable_of_iff
    ((∀ ds ∈ c.argument, IsNumber ds) ∧ c.flags.all isFlag ∧ (∀ a ∈ c.width, a.IsWellFormed) ∧
      (∀ a ∈ c.precision, a.IsWellFormed) ∧ modifiers.contains c.modifier ∧
      isConversionLetter c.letter)
    ⟨fun ⟨ha, hf, hw, hp, hm, hl⟩ =>
      ⟨ha, List.all_eq_true.1 hf, hw, hp, List.contains_iff_mem.1 hm, hl⟩,
      fun h => ⟨h.argument, List.all_eq_true.2 h.flags, h.width, h.precision,
        List.contains_iff_mem.2 h.modifier, h.letter⟩⟩

/-- A width as it is written, or a precision without its point. -/
def Amount.write : Amount → List Char
  | .digits ds => ds
  | .star => ['*']

namespace Conversion

/-- The argument number with its dollar sign, if there is one. -/
def writeArgument (c : Conversion) : List Char :=
  c.argument.elim [] (· ++ ['$'])

/-- The width, if there is one. -/
def writeWidth (c : Conversion) : List Char :=
  c.width.elim [] Amount.write

/-- The precision with its point, if there is one. -/
def writePrecision (c : Conversion) : List Char :=
  c.precision.elim [] fun a => '.' :: a.write

/-- What is written between the argument number and the letter. -/
def writeOptions (c : Conversion) : List Char :=
  c.flags ++ (c.writeWidth ++ (c.writePrecision ++ c.modifier))

/-- What is written between the percent sign and the letter. -/
def middle (c : Conversion) : List Char :=
  c.writeArgument ++ c.writeOptions

/-- The conversion as it is written. -/
def write (c : Conversion) : List Char :=
  '%' :: (c.middle ++ [c.letter])

end Conversion

variable {c d : Conversion} {s t ds : List Char} {x : Char}

/-! ### Classes of characters -/

/-- The letters of length modifiers. -/
def modifierLetters : List Char :=
  ['h', 'l', 'L', 'q', 'j', 'z', 't']

/-- The characters that may stand between the argument number and the letter. -/
def isOption (x : Char) : Bool :=
  isDecimal x || isFlag x || x == '*' || x == '.' || x ∈ modifierLetters

/-- The characters that the part behind a precision starts with. -/
def behindPrecision : List Char :=
  modifierLetters ++ "diuoxXfFeEgGaAcspn%".toList

/-- What may stand behind a width or precision is none of what may stand in one or in front of it. -/
theorem of_mem_behindPrecision (h : x = '.' ∨ x ∈ behindPrecision) :
    isDecimal x = false ∧ isFlag x = false ∧ x ≠ '*' ∧ x ≠ '$' := by
  have hall : ('.' :: behindPrecision).all fun x =>
      !isDecimal x && !isFlag x && x != '*' && x != '$' := by
    decide +kernel
  simpa [and_assoc] using List.all_eq_true.1 hall x (List.mem_cons.2 h)

theorem not_isOption_of_isConversionLetter (h : isConversionLetter x) : isOption x = false := by
  have hall : "diuoxXfFeEgGaAcspn%".toList.all fun x => !isOption x := by decide +kernel
  simpa using List.all_eq_true.1 hall x (of_decide_eq_true h)

theorem not_isConversionLetter_of_isOption (h : isOption x) : isConversionLetter x = false :=
  Bool.eq_false_iff.2 fun hx => by simp [not_isOption_of_isConversionLetter hx] at h

theorem mem_behindPrecision (h : isConversionLetter x) : x ∈ behindPrecision :=
  List.mem_append_right _ (of_decide_eq_true h)

theorem forall_mem_modifiers (h : s ∈ modifiers) : ∀ x ∈ s, x ∈ modifierLetters := by
  have hall : modifiers.all fun s => s.all fun x => x ∈ modifierLetters := by decide
  exact fun x hx => of_decide_eq_true (List.all_eq_true.1 (List.all_eq_true.1 hall s h) x hx)

/-! ### The first letter -/

theorem Amount.isOption_of_mem {a : Amount} (h : a.IsWellFormed) : ∀ x ∈ a.write, isOption x := by
  intro x hx
  cases a with
  | digits ds => simp [isOption, h.2 x hx]
  | star =>
    rw [List.mem_singleton.1 hx]
    rfl

namespace Conversion

theorem IsWellFormed.isOption_of_mem (h : c.IsWellFormed) : ∀ x ∈ c.writeOptions, isOption x := by
  intro x hx
  simp only [writeOptions, List.mem_append] at hx
  rcases hx with hx | hx | hx | hx
  · simp [isOption, h.flags x hx]
  · cases hwidth : c.width with
    | none => simp [writeWidth, hwidth] at hx
    | some a =>
      rw [writeWidth, hwidth] at hx
      exact Amount.isOption_of_mem (h.width a hwidth) x hx
  · cases hprecision : c.precision with
    | none => simp [writePrecision, hprecision] at hx
    | some a =>
      rw [writePrecision, hprecision] at hx
      rcases List.mem_cons.1 hx with rfl | hx
      · rfl
      · exact Amount.isOption_of_mem (h.precision a hprecision) x hx
  · simp [isOption, forall_mem_modifiers h.modifier x hx]

/-- Nothing in front of the letter of a conversion is such a letter. -/
theorem IsWellFormed.not_isConversionLetter (h : c.IsWellFormed) :
    ∀ x ∈ c.middle, isConversionLetter x = false := by
  intro x hx
  rcases List.mem_append.1 hx with hx | hx
  · cases hargument : c.argument with
    | none => simp [writeArgument, hargument] at hx
    | some ds =>
      rw [writeArgument, hargument] at hx
      rcases List.mem_append.1 hx with hx | hx
      · exact not_isConversionLetter_of_isOption
          (by simp [isOption, (h.argument ds hargument).2 x hx])
      · rw [List.mem_singleton.1 hx]
        rfl
  · exact not_isConversionLetter_of_isOption (h.isOption_of_mem x hx)

theorem takeWhile_middle (h : c.IsWellFormed) (rest : List Char) :
    (c.middle ++ c.letter :: rest).takeWhile (fun x => !isConversionLetter x) = c.middle := by
  rw [List.takeWhile_append_of_pos fun x hx => by simp [h.not_isConversionLetter x hx],
    List.takeWhile_cons_of_neg (by simp [h.letter]), List.append_nil]

/-- Conversions are prefix-free: where one is written, no other one is. -/
theorem write_append_inj (hc : c.IsWellFormed) (hd : d.IsWellFormed)
    (h : c.write ++ s = d.write ++ t) : c.write = d.write ∧ s = t := by
  have htail : c.middle ++ c.letter :: s = d.middle ++ d.letter :: t := by
    simpa [write] using h
  have hmiddle : c.middle = d.middle := by
    rw [← takeWhile_middle hc s, htail, takeWhile_middle hd t]
  rw [hmiddle, List.append_cancel_left_eq, List.cons.injEq] at htail
  exact ⟨by rw [write, write, hmiddle, htail.1], htail.2⟩

theorem Amount.write_ne_nil {a : Amount} (h : a.IsWellFormed) : a.write ≠ [] := by
  cases a with
  | digits ds => exact h.1
  | star => exact List.cons_ne_nil _ _

/-- A conversion is written as two percent signs if it is the one that stands for itself. -/
theorem isPercent_iff (h : c.IsWellFormed) : c.isPercent ↔ c.write = ['%', '%'] := by
  constructor
  · intro hc
    rw [eq_of_beq hc]
    rfl
  · intro hwrite
    obtain ⟨hmiddle, hletter⟩ : c.middle = [] ∧ c.letter = '%' := by
      cases hm : c.middle <;> simp_all [write]
    simp only [middle, writeOptions, List.append_eq_nil_iff] at hmiddle
    obtain ⟨hargument, hflags, hwidth, hprecision, hmodifier⟩ := hmiddle
    have hargument : c.argument = none := by
      cases ha : c.argument <;> simp_all [writeArgument]
    have hwidth : c.width = none := by
      cases hw : c.width with
      | none => rfl
      | some a =>
        rw [writeWidth, hw] at hwidth
        exact absurd hwidth (Amount.write_ne_nil (h.width a hw))
    have hprecision : c.precision = none := by
      cases hp : c.precision <;> simp_all [writePrecision]
    obtain ⟨argument, flags, width, precision, modifier, letter⟩ := c
    subst hargument hflags hwidth hprecision hmodifier hletter
    rfl

end Conversion

/-! ### What is read -/

section Reading

variable {rest : List Char} {amount : Option Amount}

theorem eq_of_takeArgument {argument : Option (List Char)}
    (h : takeArgument s = (argument, rest)) :
    s = argument.elim [] (· ++ ['$']) ++ rest ∧ ∀ ds ∈ argument, IsNumber ds := by
  unfold takeArgument at h
  split at h
  · next d ds behind htake hdrop =>
    cases h
    refine ⟨?_, fun ds' hds => ?_⟩
    · have happend := List.takeWhile_append_dropWhile (p := isDecimal) (l := s)
      rw [htake, hdrop] at happend
      simpa using happend.symm
    · obtain rfl := Option.some.inj hds
      exact ⟨List.cons_ne_nil _ _, fun x hx => List.mem_takeWhile_imp (htake ▸ hx)⟩
  · cases h
    exact ⟨rfl, by simp⟩

theorem eq_of_takeAmount (h : takeAmount s = (amount, rest)) :
    s = amount.elim [] Amount.write ++ rest ∧ ∀ a ∈ amount, a.IsWellFormed := by
  unfold takeAmount at h
  split at h
  · cases h
    exact ⟨rfl, fun a ha => Option.some.inj ha ▸ trivial⟩
  · split at h
    · cases h
      exact ⟨rfl, by simp⟩
    · next hne =>
      cases h
      refine ⟨List.takeWhile_append_dropWhile.symm, fun a ha => ?_⟩
      obtain rfl := Option.some.inj ha
      exact ⟨hne, fun x hx => List.mem_takeWhile_imp hx⟩

theorem eq_of_takePrecision (h : takePrecision s = (amount, rest)) :
    s = amount.elim [] (fun a => '.' :: a.write) ++ rest ∧ ∀ a ∈ amount, a.IsWellFormed := by
  unfold takePrecision at h
  split at h
  · split at h
    · next htake =>
      cases h
      obtain ⟨htext, hformed⟩ := eq_of_takeAmount htake
      exact ⟨congrArg ('.' :: ·) htext, hformed⟩
    · cases h
      exact ⟨rfl, by simp⟩
  · cases h
    exact ⟨rfl, by simp⟩

theorem eq_of_takeModifier {modifier : List Char} (h : takeModifier s = (modifier, rest)) :
    s = modifier ++ rest ∧ modifier ∈ modifiers := by
  unfold takeModifier at h
  split at h
  · cases h
    exact ⟨rfl, by decide⟩
  · cases h
    exact ⟨rfl, by decide⟩
  · split at h
    · next hx =>
      cases h
      have hall : modifierLetters.all fun x => [x] ∈ modifiers := by decide
      exact ⟨rfl, of_decide_eq_true (List.all_eq_true.1 hall _ hx)⟩
    · cases h
      exact ⟨rfl, List.mem_cons_self⟩
  · cases h
    exact ⟨rfl, List.mem_cons_self⟩

theorem eq_of_takeLetter (h : takeLetter s = some (x, rest)) :
    s = x :: rest ∧ isConversionLetter x := by
  cases s with
  | nil => cases h
  | cons y s =>
    rw [takeLetter] at h
    split at h
    · next hy =>
      cases h
      exact ⟨rfl, hy⟩
    · cases h

/-- A conversion that is read stands there as it is written. -/
theorem eq_of_conversion? (h : conversion? s = some (c, rest)) :
    '%' :: s = c.write ++ rest ∧ c.IsWellFormed := by
  rcases hA : takeArgument s with ⟨argument, s₁⟩
  rcases hW : takeAmount (s₁.dropWhile isFlag) with ⟨width, s₂⟩
  rcases hP : takePrecision s₂ with ⟨precision, s₃⟩
  rcases hM : takeModifier s₃ with ⟨modifier, s₄⟩
  simp only [conversion?, hA, hW, hP, hM, Option.map_eq_some_iff, Prod.mk.injEq,
    Prod.exists] at h
  obtain ⟨letter, _, hL, rfl, rfl⟩ := h
  obtain ⟨hargument, hnumber⟩ := eq_of_takeArgument hA
  obtain ⟨hwidth, hwidthFormed⟩ := eq_of_takeAmount hW
  obtain ⟨hprecision, hprecisionFormed⟩ := eq_of_takePrecision hP
  obtain ⟨hmodifier, hmember⟩ := eq_of_takeModifier hM
  obtain ⟨hrest, hletter⟩ := eq_of_takeLetter hL
  refine ⟨?_, hnumber, fun f hf => List.mem_takeWhile_imp hf, hwidthFormed, hprecisionFormed,
    hmember, hletter⟩
  have hflags : s₁ = s₁.takeWhile isFlag ++ s₁.dropWhile isFlag :=
    List.takeWhile_append_dropWhile.symm
  rw [hwidth, hprecision, hmodifier, hrest] at hflags
  refine (congrArg ('%' :: ·) (hargument.trans (congrArg _ hflags))).trans ?_
  simp [Conversion.write, Conversion.middle, Conversion.writeArgument, Conversion.writeOptions,
    Conversion.writeWidth, Conversion.writePrecision]

end Reading

/-! ### What is written is read -/

section Writing

variable {rest : List Char}

/-- Digits as a width or precision are read, all of them, and no digits are none. -/
theorem takeAmount_digits (ds : List Char) (hds : ∀ d ∈ ds, isDecimal d)
    (hx : x = '.' ∨ x ∈ behindPrecision) :
    takeAmount (ds ++ x :: rest) = (if ds = [] then none else some (.digits ds), x :: rest) := by
  obtain ⟨hdecimal, -, hstar, -⟩ := of_mem_behindPrecision hx
  have htake : (ds ++ x :: rest).takeWhile isDecimal = ds := by
    rw [List.takeWhile_append_of_pos hds, List.takeWhile_cons_of_neg (by simp [hdecimal]),
      List.append_nil]
  have hdrop : (ds ++ x :: rest).dropWhile isDecimal = x :: rest := by
    rw [List.dropWhile_append_of_pos hds, List.dropWhile_cons_of_neg (by simp [hdecimal])]
  unfold takeAmount
  split
  · next heq =>
    cases ds with
    | nil => exact absurd (List.cons.inj heq).1 hstar
    | cons d ds =>
      obtain rfl : d = '*' := (List.cons.inj heq).1
      exact absurd (hds '*' List.mem_cons_self) (by decide)
  · rw [htake, hdrop]
    split
    · next hnil => rw [hnil, List.nil_append]
    · rfl

theorem takePrecision_write (h : ∀ a ∈ c.precision, a.IsWellFormed) (hx : x ∈ behindPrecision) :
    takePrecision (c.writePrecision ++ x :: rest) = (c.precision, x :: rest) := by
  cases hprecision : c.precision with
  | none =>
    rw [Conversion.writePrecision, hprecision]
    have hne : x ≠ '.' := by
      rintro rfl
      revert hx
      decide
    unfold takePrecision
    split
    · next heq => exact absurd (List.cons.inj heq).1 hne
    · rfl
  | some a =>
    rw [Conversion.writePrecision, hprecision]
    cases a with
    | star => rfl
    | digits ds =>
      obtain ⟨hne, hds⟩ := h _ hprecision
      simp [takePrecision, Amount.write, takeAmount_digits ds hds (.inr hx), hne]

theorem takeModifier_append (hs : s ∈ modifiers) (hx : isConversionLetter x) :
    takeModifier (s ++ x :: rest) = (s, x :: rest) := by
  have hne : x ∉ modifierLetters := fun hmem => by
    simpa [isOption, hmem] using not_isOption_of_isConversionLetter hx
  simp only [modifierLetters, List.mem_cons, List.not_mem_nil, or_false, not_or] at hne
  simp only [modifiers, List.mem_cons, List.not_mem_nil, or_false] at hs
  rcases hs with rfl | rfl | rfl | rfl | rfl | rfl | rfl | rfl | rfl | rfl <;>
    simp [takeModifier, hne]

/-- The argument number is read where there is one. Where there is none, the digits of a width stay,
as no dollar sign is behind them. -/
theorem takeArgument_write (h : c.IsWellFormed) :
    (takeArgument (c.middle ++ c.letter :: rest)).2 = c.writeOptions ++ c.letter :: rest := by
  cases hargument : c.argument with
  | none =>
    have hmiddle : c.middle = c.writeOptions := by
      simp [Conversion.middle, Conversion.writeArgument, hargument]
    obtain ⟨hdecimal, -, -, hdollar⟩ := of_mem_behindPrecision (.inr (mem_behindPrecision h.letter))
    rw [hmiddle]
    unfold takeArgument
    split
    · next hdrop =>
      rw [List.dropWhile_append, List.dropWhile_cons_of_neg (by simp [hdecimal])] at hdrop
      split at hdrop
      · exact absurd (List.cons.inj hdrop).1 hdollar
      · next hne =>
        obtain ⟨y, t, hy⟩ := List.exists_cons_of_ne_nil (mt List.isEmpty_iff.2 hne)
        rw [hy, List.cons_append] at hdrop
        obtain rfl : y = '$' := (List.cons.inj hdrop).1
        have hmem : '$' ∈ c.writeOptions.dropWhile isDecimal := by simp [hy]
        exact absurd (h.isOption_of_mem _ ((List.dropWhile_suffix _).subset hmem)) (by decide)
    · rfl
  | some ds =>
    obtain ⟨hne, hds⟩ := h.argument ds hargument
    obtain ⟨d, ds, rfl⟩ := List.exists_cons_of_ne_nil hne
    have htext : c.middle ++ c.letter :: rest =
        (d :: ds) ++ '$' :: (c.writeOptions ++ c.letter :: rest) := by
      simp [Conversion.middle, Conversion.writeArgument, hargument]
    have hdollar : ¬ isDecimal '$' := by decide
    simp only [htext, takeArgument, List.takeWhile_append_of_pos hds,
      List.dropWhile_append_of_pos hds, List.takeWhile_cons_of_neg hdollar,
      List.dropWhile_cons_of_neg hdollar, List.append_nil]

/-- Behind the flags, to which zeros in front of the width belong, the width is read. -/
theorem takeAmount_write (h : c.IsWellFormed) (hx : x = '.' ∨ x ∈ behindPrecision) :
    (takeAmount ((c.flags ++ (c.writeWidth ++ x :: rest)).dropWhile isFlag)).2 = x :: rest := by
  obtain ⟨-, hflag, -, -⟩ := of_mem_behindPrecision hx
  rw [List.dropWhile_append_of_pos h.flags]
  cases hwidth : c.width with
  | none =>
    rw [Conversion.writeWidth, hwidth, Option.elim_none, List.nil_append,
      List.dropWhile_cons_of_neg (by simp [hflag])]
    exact congrArg Prod.snd (takeAmount_digits [] (by simp) hx)
  | some a =>
    rw [Conversion.writeWidth, hwidth, Option.elim_some]
    cases a with
    | star => rfl
    | digits ds =>
      have hdrop : (ds ++ x :: rest).dropWhile isFlag = ds.dropWhile isFlag ++ x :: rest := by
        rw [List.dropWhile_append, List.dropWhile_cons_of_neg (by simp [hflag])]
        split
        · next hnil => rw [List.isEmpty_iff.1 hnil, List.nil_append]
        · rfl
      rw [Amount.write, hdrop]
      exact congrArg Prod.snd (takeAmount_digits _
        (fun d hd => (h.width _ hwidth).2 d ((List.dropWhile_suffix _).subset hd)) hx)

/-- What stands behind a precision starts with a letter. -/
theorem exists_behindPrecision (h : c.IsWellFormed) (rest : List Char) :
    ∃ x t, c.modifier ++ c.letter :: rest = x :: t ∧ x ∈ behindPrecision := by
  cases hmodifier : c.modifier with
  | nil => exact ⟨c.letter, rest, rfl, mem_behindPrecision h.letter⟩
  | cons x t =>
    exact ⟨x, t ++ c.letter :: rest, rfl, List.mem_append_left _
      (forall_mem_modifiers h.modifier x (hmodifier ▸ List.mem_cons_self))⟩

/-- What stands behind a width starts with the point of a precision, or with a letter. -/
theorem exists_behindWidth (h : c.IsWellFormed) (rest : List Char) :
    ∃ x t, c.writePrecision ++ (c.modifier ++ c.letter :: rest) = x :: t ∧
      (x = '.' ∨ x ∈ behindPrecision) := by
  cases hprecision : c.precision with
  | none =>
    obtain ⟨x, t, htext, hx⟩ := exists_behindPrecision h rest
    exact ⟨x, t, by simp [Conversion.writePrecision, hprecision, htext], .inr hx⟩
  | some a => exact ⟨'.', _, by simp [Conversion.writePrecision, hprecision]; rfl, .inl rfl⟩

/-- A conversion that is written is read, whatever is behind it. -/
theorem exists_conversion?_write (h : c.IsWellFormed) (rest : List Char) :
    ∃ d, conversion? (c.middle ++ c.letter :: rest) = some (d, rest) ∧ d.IsWellFormed ∧
      d.write = c.write := by
  obtain ⟨x, t, hwidth, hx⟩ := exists_behindWidth h rest
  obtain ⟨y, u, hprecision, hy⟩ := exists_behindPrecision h rest
  have hoptions : c.writeOptions ++ c.letter :: rest = c.flags ++ (c.writeWidth ++ x :: t) := by
    simp [Conversion.writeOptions, hwidth]
  have hletter : takeLetter (takeModifier (takePrecision (takeAmount ((takeArgument
      (c.middle ++ c.letter :: rest)).2.dropWhile isFlag)).2).2).2 = some (c.letter, rest) := by
    rw [takeArgument_write h, hoptions, takeAmount_write h hx, ← hwidth, hprecision,
      takePrecision_write h.precision hy, ← hprecision, takeModifier_append h.modifier h.letter,
      takeLetter, if_pos h.letter]
  obtain ⟨d, hd⟩ : ∃ d, conversion? (c.middle ++ c.letter :: rest) = some (d, rest) :=
    ⟨_, by rw [conversion?, hletter]; rfl⟩
  obtain ⟨htext, hformed⟩ := eq_of_conversion? hd
  have hwrite : c.write ++ rest = d.write ++ rest := by
    simpa [Conversion.write] using htext
  exact ⟨d, hd, hformed, (List.append_cancel_right hwrite).symm⟩

end Writing

end PotExtract.Format
