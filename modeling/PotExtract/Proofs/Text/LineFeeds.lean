import Mathlib.Data.List.Chain
import PotExtract.Proofs.Text.Bytes

/-! Line feeds in a text, counted in parts of it, and texts whose carriage returns stand in front of
line feeds only. -/

namespace PotExtract.Text

variable {c d : Char} {s t : List Char}

@[simp] theorem lineFeeds_nil : lineFeeds [] = 0 := rfl

@[simp] theorem lineFeeds_cons (c : Char) (s : List Char) :
    lineFeeds (c :: s) = (if c = '\n' then 1 else 0) + lineFeeds s := by
  simp only [lineFeeds, List.count_cons, beq_iff_eq]
  omega

@[simp] theorem lineFeeds_append (s t : List Char) :
    lineFeeds (s ++ t) = lineFeeds s + lineFeeds t :=
  List.count_append

theorem lineFeeds_eq_zero (h : '\n' ∉ s) : lineFeeds s = 0 :=
  List.count_eq_zero.2 h

theorem lineFeeds_of_forall {p : Char → Bool} (hp : p '\n' = false) (h : ∀ c ∈ s, p c) :
    lineFeeds s = 0 := by
  apply lineFeeds_eq_zero
  intro hfeed
  rw [h _ hfeed] at hp
  cases hp

/-- The line feeds before the byte behind a text are those of the text. -/
theorem lineFeedsBefore_append (s t : List Char) :
    lineFeedsBefore (byteLength s) (s ++ t) = lineFeeds s := by
  induction s with
  | nil => cases t <;> rfl
  | cons c s ih =>
    obtain ⟨n, hn⟩ : ∃ n, c.utf8Size + byteLength s = n + 1 :=
      ⟨c.utf8Size + byteLength s - 1, by have := c.utf8Size_pos; omega⟩
    have hsub : n + 1 - c.utf8Size = byteLength s := by omega
    rw [byteLength_cons, hn, List.cons_append, lineFeedsBefore, hsub, ih, lineFeeds_cons,
      Nat.add_comm]

/-- What stands behind a carriage return is a line feed. -/
def PairsReturns (s : List Char) : Prop :=
  s.IsChain fun c d => c = '\r' → d = '\n'

instance (s : List Char) : Decidable (PairsReturns s) :=
  inferInstanceAs (Decidable (s.IsChain _))

theorem PairsReturns.of_isInfix (hs : PairsReturns s) (h : t <:+: s) : PairsReturns t :=
  List.IsChain.infix hs h

theorem PairsReturns.tail (h : PairsReturns (c :: s)) : PairsReturns s :=
  h.of_isInfix (List.suffix_cons c s).isInfix

theorem PairsReturns.eq_feed (h : PairsReturns ('\r' :: d :: s)) : d = '\n' :=
  (List.isChain_cons_cons.1 h).1 rfl

/-- Every carriage return stands directly in front of a line feed, also at the end of the text. -/
def FeedsReturns (s : List Char) : Prop :=
  PairsReturns s ∧ s.getLast? ≠ some '\r'

instance (s : List Char) : Decidable (FeedsReturns s) :=
  inferInstanceAs (Decidable (_ ∧ _))

theorem feedsReturns_iff :
    FeedsReturns s ↔ ∀ front back, s = front ++ '\r' :: back → back.head? = some '\n' := by
  constructor
  · rintro ⟨hpairs, hlast⟩ front back rfl
    have hback := hpairs.of_isInfix (List.suffix_append front ('\r' :: back)).isInfix
    cases back with
    | nil => simp at hlast
    | cons d back => rw [hback.eq_feed, List.head?_cons]
  · intro h
    refine ⟨?_, fun hlast => ?_⟩
    · induction s with
      | nil => exact .nil
      | cons c s ih =>
        refine List.isChain_cons.2 ⟨?_, ih fun front back hs => ?_⟩
        · rintro d hd rfl
          have hfeed := h [] s rfl
          rw [hfeed] at hd
          exact (Option.some.inj hd).symm
        · exact h (c :: front) back (congrArg (c :: ·) hs)
    · obtain ⟨front, rfl⟩ := List.getLast?_eq_some_iff.1 hlast
      exact absurd (h front [] rfl) (by simp)

end PotExtract.Text
