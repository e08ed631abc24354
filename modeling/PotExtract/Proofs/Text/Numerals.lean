import Mathlib.Tactic.IntervalCases
import PotExtract.Proofs.Text.Bytes
import PotExtract.Text.Numeral

/-! Digits as they are written and as they are read. The digits of a number below the limit are read
as that number, letters among them in either case, and what is read as digits are letters and digits
of ASCII. -/

namespace PotExtract.Text

variable {base limit n d value : Nat} {s : List Char} {c : Char}

/-! ### Letters and digits of ASCII -/

theorem le_iff_toNat_le {d e : Char} : d ≤ e ↔ d.toNat ≤ e.toNat := Iff.rfl

theorem isDigit_iff : c.isDigit ↔ 48 ≤ c.toNat ∧ c.toNat ≤ 57 := by
  unfold Char.isDigit
  rw [Bool.and_eq_true, decide_eq_true_eq, decide_eq_true_eq]
  exact Iff.rfl

theorem isAlpha_iff :
    c.isAlpha ↔ (65 ≤ c.toNat ∧ c.toNat ≤ 90) ∨ (97 ≤ c.toNat ∧ c.toNat ≤ 122) := by
  unfold Char.isAlpha Char.isUpper Char.isLower
  simp only [Bool.or_eq_true, Bool.and_eq_true, decide_eq_true_eq]
  exact Iff.rfl

theorem isAlphanum_iff : c.isAlphanum ↔ c.isAlpha ∨ c.isDigit := by
  rw [Char.isAlphanum, Bool.or_eq_true]

theorem isAlpha_of_isDigit (h : c.isDigit) : c.isAlpha = false := by
  rw [Bool.eq_false_iff]
  intro halpha
  have := isDigit_iff.1 h
  have := isAlpha_iff.1 halpha
  omega

theorem utf8Size_of_isAlphanum (h : c.isAlphanum) : c.utf8Size = 1 := by
  rw [isAlphanum_iff, isAlpha_iff, isDigit_iff] at h
  rw [Char.utf8Size_eq_one_iff, UInt32.le_iff_toNat_le]
  show c.toNat ≤ 127
  omega

theorem byteLength_of_isAlphanum (h : ∀ c ∈ s, c.isAlphanum) : byteLength s = s.length := by
  induction s with
  | nil => rfl
  | cons c s ih =>
    obtain ⟨hc, hs⟩ := List.forall_mem_cons.1 h
    rw [byteLength_cons, utf8Size_of_isAlphanum hc, ih hs, List.length_cons, Nat.add_comm]

/-! ### The value of a digit -/

theorem digitValue?_digitChar (hn : n < base) (hbase : base ≤ 16) :
    digitValue? base n.digitChar = some n := by
  have : n < 16 := Nat.lt_of_lt_of_le hn hbase
  interval_cases n <;> simp [digitValue?, Nat.digitChar, hn]

theorem toLower_cases (c : Char) :
    (65 ≤ c.toNat ∧ c.toNat ≤ 90 ∧ c.toLower.toNat = c.toNat + 32) ∨ c.toLower = c := by
  unfold Char.toLower
  split
  · next h =>
    have hlt : c.val.toNat ≤ 90 := h.2
    refine .inl ⟨h.1, h.2, ?_⟩
    simp only [Char.toNat, UInt32.toNat_add, show ('a'.val - 'A'.val).toNat = 32 from rfl]
    omega
  · exact .inr rfl

/-- A letter is the same digit in either case. -/
theorem digitValue?_toLower (base : Nat) (c : Char) :
    digitValue? base c.toLower = digitValue? base c := by
  rcases toLower_cases c with ⟨hlow, hhigh, hlower⟩ | h
  · simp only [digitValue?, le_iff_toNat_le, hlower, show '0'.toNat = 48 from rfl,
      show '9'.toNat = 57 from rfl, show 'a'.toNat = 97 from rfl, show 'z'.toNat = 122 from rfl,
      show 'A'.toNat = 65 from rfl, show 'Z'.toNat = 90 from rfl]
    rw [if_neg (by omega), if_pos (by omega), if_neg (by omega), if_neg (by omega),
      if_pos (by omega), show c.toNat + 32 - 97 = c.toNat - 65 by omega]
  · rw [h]

theorem isAlphanum_of_digitValue? (h : digitValue? base c = some d) : c.isAlphanum := by
  obtain ⟨h, -⟩ := Option.filter_eq_some_iff.1 h
  rw [isAlphanum_iff, isAlpha_iff, isDigit_iff]
  split at h
  · next hdigit => exact .inr hdigit
  split at h
  · next hlower => exact .inl (.inr hlower)
  split at h
  · next hupper => exact .inl (.inl hupper)
  · cases h

theorem isAlphanum_of_mem_toDigits (h : c ∈ Nat.toDigits 10 n) : c.isAlphanum :=
  isAlphanum_iff.2 (.inr (Nat.isDigit_of_mem_toDigits (by decide) (by decide) h))

/-! ### Digits in a row -/

theorem readDigits_append (s t : List Char) :
    readDigits base limit value (s ++ t) =
      (readDigits base limit value s).bind fun m => readDigits base limit m t := by
  induction s generalizing value with
  | nil => rfl
  | cons c s ih =>
    rw [List.cons_append, readDigits, readDigits]
    split
    · rfl
    split
    · exact ih
    · rfl

theorem readDigits_map_toLower (s : List Char) :
    readDigits base limit value (s.map Char.toLower) = readDigits base limit value s := by
  induction s generalizing value with
  | nil => rfl
  | cons c s ih =>
    rw [List.map_cons, readDigits, readDigits, digitValue?_toLower]
    split
    · rfl
    · rw [ih]

/-- The digits of a number below the limit are read as that number. -/
theorem readDigits_toDigits (hbase : 1 < base) (hle : base ≤ 16) (hn : n < limit) :
    readDigits base limit 0 (Nat.toDigits base n) = .ok n := by
  induction n using Nat.strong_induction_on with
  | _ n ih =>
    rcases Nat.lt_or_ge n base with hlt | hge
    · rw [Nat.toDigits_of_lt_base hlt, readDigits, digitValue?_digitChar hlt hle]
      simp [hn, readDigits]
    · have hdiv : n / base < n := Nat.div_lt_self (by omega) hbase
      have hmod : n % base < base := Nat.mod_lt n (by omega)
      rw [Nat.toDigits_of_base_le hbase hge, readDigits_append,
        ih (n / base) hdiv (Nat.lt_trans hdiv hn)]
      show readDigits base limit (n / base) [(n % base).digitChar] = _
      rw [readDigits, digitValue?_digitChar hmod hle]
      simp [Nat.div_add_mod', hn, readDigits]

theorem isAlphanum_of_readDigits (h : readDigits base limit value s = .ok n) :
    ∀ c ∈ s, c.isAlphanum := by
  induction s generalizing value with
  | nil => exact List.forall_mem_nil _
  | cons c s ih =>
    rw [readDigits] at h
    split at h
    · cases h
    · next d hd =>
      split at h
      · exact List.forall_mem_cons.2 ⟨isAlphanum_of_digitValue? hd, ih h⟩
      · cases h

/-- Digits without a sign are a number. -/
theorem readNumeral_of_readDigits (hne : s ≠ []) (h : readDigits base limit 0 s = .ok n) :
    readNumeral base limit s = .ok n := by
  have hsign : ∀ t, s ≠ '+' :: t := by
    rintro t rfl
    exact absurd (isAlphanum_of_readDigits h '+' List.mem_cons_self) (by decide)
  rw [readNumeral.eq_def]
  split
  · exact absurd rfl hne
  · exact absurd rfl (hsign [])
  · exact absurd rfl (hsign _)
  · exact h

theorem readNumeral_toDigits (hbase : 1 < base) (hle : base ≤ 16) (hn : n < limit) :
    readNumeral base limit (Nat.toDigits base n) = .ok n :=
  readNumeral_of_readDigits Nat.toDigits_ne_nil (readDigits_toDigits hbase hle hn)

end PotExtract.Text
