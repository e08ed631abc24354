import Mathlib.Data.List.DropRight
import PotExtract.Text.Blank
import PotExtract.Text.Letter
import PotExtract.Text.Lines

/-! White space at the ends of a text. A character that is no white space bounds what is trimmed off
on its side. -/

namespace PotExtract.Text

/-- White space is finite, so what holds of all of it can be checked. -/
def blanks : List Nat :=
  [0x20, 9, 10, 11, 12, 13, 0x85, 0xA0, 0x1680, 0x2000, 0x2001, 0x2002, 0x2003, 0x2004, 0x2005, 0x2006,
    0x2007, 0x2008, 0x2009, 0x200A, 0x2028, 0x2029, 0x202F, 0x205F, 0x3000]

theorem toNat_mem_blanks {c : Char} (h : isBlank c) : c.toNat ∈ blanks := by
  simp only [isBlank, Bool.or_eq_true, Bool.and_eq_true, beq_iff_eq, decide_eq_true_eq] at h
  simp only [blanks, List.mem_cons, List.not_mem_nil, or_false]
  omega

/-- No white space is a letter, a number or one of the characters in `others`. -/
theorem forall_isBlank {p : Char → Bool} (h : ∀ n ∈ blanks, p (Char.ofNat n)) {c : Char}
    (hc : isBlank c) : p c := by
  have := h c.toNat (toNat_mem_blanks hc)
  rwa [Char.ofNat_toNat] at this

variable {s t : List Char} {c : Char}

theorem isBlank_of_isAlphanum (h : c.isAlphanum) : isBlank c = false := by
  rw [Bool.eq_false_iff]
  intro hblank
  have := forall_isBlank (p := fun c => !c.isAlphanum) (by decide) hblank
  rw [h] at this
  cases this

theorem trimLeft_of_blank (h : ∀ c ∈ s, isBlank c) (t : List Char) :
    trimLeft (s ++ t) = trimLeft t := by
  rw [trimLeft, List.dropWhile_append_of_pos h]
  rfl

theorem blank_or_eq_of_head {w : List Char} (h : ∀ c ∈ w, isBlank c) {d : Char} {t : List Char} :
    c ∈ (w ++ d :: t).head? → isBlank c ∨ c = d := by
  intro hc
  cases w with
  | nil => exact .inr (Option.some.inj hc).symm
  | cons e w => exact .inl (Option.some.inj hc ▸ h e List.mem_cons_self)

theorem trimLeft_append_cons (hc : isBlank c = false) (s t : List Char) :
    trimLeft (s ++ c :: t) = trimLeft s ++ c :: t := by
  unfold trimLeft
  rw [List.dropWhile_append]
  split
  · next h => rw [List.dropWhile_cons_of_neg (by simp [hc]), List.isEmpty_iff.1 h, List.nil_append]
  · rfl

theorem trimRight_append_cons (hc : isBlank c = false) (s t : List Char) :
    trimRight (s ++ c :: t) = s ++ c :: trimRight t := by
  have : (s ++ c :: t).reverse = t.reverse ++ c :: s.reverse := by simp
  unfold trimRight
  rw [this]
  show (trimLeft (t.reverse ++ c :: s.reverse)).reverse = _
  rw [trimLeft_append_cons hc]
  simp [trimLeft]

theorem trim_append_cons (hc : isBlank c = false) (s t : List Char) :
    trim (s ++ c :: t) = trimLeft s ++ c :: trimRight t := by
  rw [trim, trimLeft_append_cons hc, trimRight_append_cons hc]

theorem trim_cons (hc : isBlank c = false) (t : List Char) : trim (c :: t) = c :: trimRight t :=
  trim_append_cons hc [] t

/-- A text is what is left of it with the white space at its end. -/
theorem exists_trimRight_append (s : List Char) :
    ∃ w, s = trimRight s ++ w ∧ ∀ c ∈ w, isBlank c := by
  refine ⟨(s.reverse.takeWhile isBlank).reverse, ?_, fun c hc => ?_⟩
  · rw [trimRight, ← List.reverse_append, List.takeWhile_append_dropWhile, List.reverse_reverse]
  · exact List.mem_takeWhile_imp (List.mem_reverse.1 hc)

theorem getLast?_trimRight (h : c ∈ (trimRight s).getLast?) : isBlank c = false := by
  rw [trimRight, List.getLast?_reverse] at h
  have := List.head?_dropWhile_not isBlank s.reverse
  rw [Option.mem_def.1 h] at this
  exact this

theorem head?_trimLeft (h : c ∈ (trimLeft s).head?) : isBlank c = false := by
  have := List.head?_dropWhile_not isBlank s
  rw [show (s.dropWhile isBlank).head? = some c from h] at this
  exact this

theorem head?_trim (h : c ∈ (trim s).head?) : isBlank c = false := by
  obtain ⟨w, hw, -⟩ := exists_trimRight_append (trimLeft s)
  refine head?_trimLeft (s := s) ?_
  rw [hw, List.head?_append, show (trimRight (trimLeft s)).head? = some c from h]
  rfl

/-- Text that does not begin with white space is not trimmed there. -/
theorem trimLeft_eq_self (h : ∀ c ∈ s.head?, isBlank c = false) : trimLeft s = s := by
  cases s with
  | nil => rfl
  | cons c s => exact List.dropWhile_cons_of_neg (by simp [h c rfl])

/-- A text without white space at its ends is not trimmed. -/
theorem trim_eq_self (hfirst : ∀ c ∈ s.head?, isBlank c = false)
    (hlast : ∀ c ∈ s.getLast?, isBlank c = false) : trim s = s := by
  have hleft : trimLeft s = s := trimLeft_eq_self hfirst
  have hright : trimRight s = s := by
    obtain ⟨w, hw, hblank⟩ := exists_trimRight_append s
    cases w using List.reverseRecOn with
    | nil => simpa using hw.symm
    | append_singleton w c =>
      have hc := hlast c (by rw [hw]; simp)
      rw [hblank c (by simp)] at hc
      cases hc
  rw [trim, hleft, hright]

theorem trim_of_isAlphanum (h : ∀ c ∈ s, c.isAlphanum) : trim s = s :=
  trim_eq_self (fun c hc => isBlank_of_isAlphanum (h c (List.mem_of_mem_head? hc)))
    fun c hc => isBlank_of_isAlphanum (h c (List.mem_of_getLast? hc))

theorem trim_trimLeft (s : List Char) : trim (trimLeft s) = trim s := by
  rw [trim, trim, trimLeft, trimLeft, List.dropWhile_idempotent]

theorem trimRight_append_of_blank {w : List Char} (h : ∀ c ∈ w, isBlank c) (s : List Char) :
    trimRight (s ++ w) = trimRight s := by
  have hw : ∀ c ∈ w.reverse, isBlank c := fun c hc => h c (List.mem_reverse.1 hc)
  rw [trimRight, List.reverse_append]
  exact congrArg List.reverse (trimLeft_of_blank hw s.reverse)

theorem trim_append_of_blank {w : List Char} (h : ∀ c ∈ w, isBlank c) (s : List Char) :
    trim (s ++ w) = trim s := by
  have hleft : trimLeft (s ++ w) = if trimLeft s = [] then [] else trimLeft s ++ w := by
    unfold trimLeft
    simp only [List.dropWhile_append, List.isEmpty_iff]
    split
    · exact List.dropWhile_eq_nil_iff.2 h
    · rfl
  rw [trim, trim, hleft]
  split
  · next hs => rw [hs]
  · exact trimRight_append_of_blank h _

theorem trimRight_trimRight (s : List Char) : trimRight (trimRight s) = trimRight s := by
  obtain ⟨w, hw, hblank⟩ := exists_trimRight_append s
  have h := trimRight_append_of_blank hblank (trimRight s)
  rw [← hw] at h
  exact h.symm

theorem trim_trim (s : List Char) : trim (trim s) = trim s := by
  have hfixed : trimLeft (trim s) = trim s := by
    unfold trim
    cases hs : trimLeft s with
    | nil => rfl
    | cons d t =>
      have hd : isBlank d = false := by
        have := List.head?_dropWhile_not isBlank s
        rw [show s.dropWhile isBlank = d :: t from hs] at this
        exact this
      rw [show trimRight (d :: t) = d :: trimRight t from trimRight_append_cons hd [] t]
      exact List.dropWhile_cons_of_neg (by simp [hd])
  rw [trim, hfixed, trim, trimRight_trimRight]

theorem trim_eq_nil_iff : trim s = [] ↔ ∀ c ∈ s, isBlank c := by
  rw [trim, trimRight, List.reverse_eq_nil_iff, List.dropWhile_eq_nil_iff, trimLeft]
  constructor
  · intro h
    rw [← List.dropWhile_eq_nil_iff]
    cases hs : s.dropWhile isBlank with
    | nil => rfl
    | cons d t =>
      -- What is left starts with a character that is no white space.
      have hd : isBlank d = false := by
        have := List.head?_dropWhile_not isBlank s
        rw [hs] at this
        exact this
      rw [hs] at h
      rw [h d (by simp)] at hd
      cases hd
  · intro h c hc
    exact h c ((List.dropWhile_suffix isBlank).subset (List.mem_reverse.1 hc))

theorem trim_chomp (l : List Char) : trim (chomp l) = trim l := by
  unfold chomp
  split
  · next h =>
    obtain ⟨s, rfl⟩ := List.getLast?_eq_some_iff.1 h
    have hreturn : ∀ c ∈ ['\r'], isBlank c := by simp [isBlank]
    rw [List.dropLast_concat, trim_append_of_blank hreturn]
  · rfl

theorem mem_of_mem_trim (h : c ∈ trim s) : c ∈ s := by
  obtain ⟨w, hw, -⟩ := exists_trimRight_append (trimLeft s)
  refine (List.dropWhile_suffix isBlank).subset (?_ : c ∈ trimLeft s)
  rw [hw]
  exact List.mem_append_left w h

end PotExtract.Text
