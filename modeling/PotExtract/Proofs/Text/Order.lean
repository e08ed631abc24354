import Mathlib.Data.List.Nodup
import PotExtract.Text.Order

/-! Laws of orders and of sorting. A sorted list depends on the elements alone if none are equal in
the order; elements that are equal in it keep the order in which they stood. -/

namespace PotExtract.Text

open Std

variable {α β γ : Type} {cmp : α → α → Ordering} {cmp' : γ → γ → Ordering}

/-! ### Orders -/

theorem compareNat_eq (a b : Nat) : compareNat a b = compare a b := by
  rw [compareNat, Nat.compare_eq_ite_lt]
  split
  · rfl
  · split <;> split <;> first | rfl | omega

instance : TransCmp compareNat := by
  rw [show compareNat = compare from funext₂ compareNat_eq]
  infer_instance

instance : LawfulEqCmp compareNat := by
  rw [show compareNat = compare from funext₂ compareNat_eq]
  infer_instance

theorem compareLists_eq (cmp : α → α → Ordering) (as bs : List α) :
    compareLists cmp as bs = List.compareLex cmp as bs := by
  induction as generalizing bs with
  | nil =>
    cases bs with
    | nil => exact List.compareLex_nil_nil.symm
    | cons b bs => exact List.compareLex_nil_cons.symm
  | cons a as ih =>
    cases bs with
    | nil => exact List.compareLex_cons_nil.symm
    | cons b bs => rw [compareLists, ih, List.compareLex_cons_cons]

instance [TransCmp cmp] : TransCmp (compareLists cmp) := by
  rw [show compareLists cmp = List.compareLex cmp from funext₂ (compareLists_eq cmp)]
  infer_instance

instance [LawfulEqCmp cmp] : LawfulEqCmp (compareLists cmp) := by
  rw [show compareLists cmp = List.compareLex cmp from funext₂ (compareLists_eq cmp)]
  infer_instance

instance [OrientedCmp cmp] : OrientedCmp (compareOptions cmp) where
  eq_swap {a b} := by
    cases a <;> cases b <;> first | rfl | exact @OrientedCmp.eq_swap _ cmp _ _ _

instance [TransCmp cmp] : TransCmp (compareOptions cmp) where
  isLE_trans {a b c} hab hbc := by
    cases a <;> cases b <;> cases c <;>
      first | rfl | contradiction | exact @TransCmp.isLE_trans _ cmp _ _ _ _ hab hbc

instance [ReflCmp cmp] : ReflCmp (compareOptions cmp) where
  compare_self {a} := by
    cases a with
    | none => rfl
    | some a => exact @ReflCmp.compare_self _ cmp _ a

instance [LawfulEqCmp cmp] : LawfulEqCmp (compareOptions cmp) where
  eq_of_compare {a b} h := by
    cases a <;> cases b <;>
      first | rfl | contradiction | exact congrArg some (@LawfulEqCmp.eq_of_compare _ cmp _ _ _ h)

/-- The order of values by what a function makes of them. -/
theorem transCmp_on [TransCmp cmp] (f : β → α) : TransCmp fun a b => cmp (f a) (f b) where
  eq_swap := OrientedCmp.eq_swap
  isLE_trans := TransCmp.isLE_trans

theorem lawfulEqCmp_on [LawfulEqCmp cmp] (f : β → α) (hf : Function.Injective f) :
    LawfulEqCmp fun a b => cmp (f a) (f b) where
  compare_self {a} := @ReflCmp.compare_self _ cmp _ (f a)
  eq_of_compare h := hf (@LawfulEqCmp.eq_of_compare _ cmp _ _ _ h)

/-- The order by what one function makes of values, then by what another does. -/
theorem transCmp_then [TransCmp cmp] [TransCmp cmp'] (f : β → α) (g : β → γ) :
    TransCmp fun a b => (cmp (f a) (f b)).then (cmp' (g a) (g b)) :=
  have : TransCmp fun a b => cmp (f a) (f b) := transCmp_on f
  have : TransCmp fun a b => cmp' (g a) (g b) := transCmp_on g
  inferInstanceAs (TransCmp (compareLex (fun a b => cmp (f a) (f b)) fun a b => cmp' (g a) (g b)))

theorem lawfulEqCmp_then [LawfulEqCmp cmp] [LawfulEqCmp cmp'] (f : β → α) (g : β → γ)
    (hfg : ∀ a b, f a = f b → g a = g b → a = b) :
    LawfulEqCmp fun a b => (cmp (f a) (f b)).then (cmp' (g a) (g b)) where
  compare_self {a} := by
    rw [@ReflCmp.compare_self _ cmp _ (f a), @ReflCmp.compare_self _ cmp' _ (g a)]
    rfl
  eq_of_compare {a b} h := by
    obtain ⟨hf, hg⟩ := Ordering.then_eq_eq.1 h
    exact hfg a b (LawfulEqCmp.eq_of_compare hf) (LawfulEqCmp.eq_of_compare hg)

instance : TransCmp compareChars :=
  transCmp_on Char.toNat

instance : LawfulEqCmp compareChars :=
  lawfulEqCmp_on Char.toNat fun _ _ h => Char.toNat_inj.1 h

instance : TransCmp compareStrings :=
  transCmp_on String.toList

instance : LawfulEqCmp compareStrings :=
  lawfulEqCmp_on String.toList fun _ _ h => String.toList_inj.1 h

/-! ### Sorted lists -/

theorem sortBy_perm (cmp : α → α → Ordering) (l : List α) : (sortBy cmp l).Perm l :=
  List.mergeSort_perm l _

theorem isLE_total [OrientedCmp cmp] (a b : α) : ((cmp a b).isLE || (cmp b a).isLE) = true := by
  rw [@OrientedCmp.eq_swap _ cmp _ b a]
  cases cmp a b <;> rfl

theorem pairwise_sortBy [TransCmp cmp] (l : List α) :
    (sortBy cmp l).Pairwise fun a b => (cmp a b).isLE :=
  List.pairwise_mergeSort (fun _ _ _ => TransCmp.isLE_trans) isLE_total l

theorem map_sortBy {cmp' : β → β → Ordering} {f : α → β} {l : List α}
    (h : ∀ a ∈ l, ∀ b ∈ l, cmp a b = cmp' (f a) (f b)) :
    (sortBy cmp l).map f = sortBy cmp' (l.map f) :=
  List.map_mergeSort fun a ha b hb => congrArg Ordering.isLE (h a ha b hb)

/-- The same elements are sorted to the same list, if those that are equal in the order are the
same. -/
theorem sortBy_eq_of_perm [TransCmp cmp] {l l' : List α} (h : l.Perm l')
    (heq : ∀ a ∈ l, ∀ b ∈ l, cmp a b = .eq → a = b) : sortBy cmp l = sortBy cmp l' := by
  have hperm : (sortBy cmp l).Perm (sortBy cmp l') :=
    ((sortBy_perm cmp l).trans h).trans (sortBy_perm cmp l').symm
  refine List.Perm.eq_of_pairwise (fun a b ha hb hab hba => ?_) (pairwise_sortBy l)
    (pairwise_sortBy l') hperm
  have ha' : a ∈ l := (sortBy_perm cmp l).mem_iff.1 ha
  have hb' : b ∈ l := ((sortBy_perm cmp l').trans h.symm).mem_iff.1 hb
  exact heq a ha' b hb' (OrientedCmp.isLE_antisymm hab hba)

theorem sortBy_eq_iff_perm [TransCmp cmp] [LawfulEqCmp cmp] {l l' : List α} :
    sortBy cmp l = sortBy cmp l' ↔ l.Perm l' := by
  constructor
  · intro h
    exact (sortBy_perm cmp l).symm.trans (h ▸ sortBy_perm cmp l')
  · intro h
    exact sortBy_eq_of_perm h fun _ _ _ _ => LawfulEqCmp.eq_of_compare

/-- Of two elements of a list one stands in front of the other. -/
theorem sublist_or_sublist {l : List α} {a b : α} (ha : a ∈ l) (hb : b ∈ l) (hne : a ≠ b) :
    [a, b].Sublist l ∨ [b, a].Sublist l := by
  obtain ⟨front, back, rfl⟩ := List.append_of_mem ha
  rcases List.mem_append.1 hb with hb | hb
  · right
    exact (List.singleton_sublist.2 hb).append (List.singleton_sublist.2 List.mem_cons_self)
  · left
    have hback : b ∈ back := (List.mem_cons.1 hb).resolve_left (Ne.symm hne)
    exact ((List.singleton_sublist.2 hback).cons_cons a).trans (List.sublist_append_right front _)

/-- Elements are sorted to the list of them that is in strict order. -/
theorem sortBy_eq_of_pairwise_lt [TransCmp cmp] {l l' : List α} (h : l.Perm l')
    (hl' : l'.Pairwise fun a b => cmp a b = .lt) : sortBy cmp l = l' := by
  have hsorted : l'.Pairwise fun a b => (cmp a b).isLE := hl'.imp fun h => by rw [h]; rfl
  have heq : ∀ a ∈ l', ∀ b ∈ l', cmp a b = .eq → a = b := by
    intro a ha b hb hcmp
    by_contra hne
    rcases sublist_or_sublist ha hb hne with hsub | hsub
    · have hlt := List.pairwise_iff_forall_sublist.1 hl' hsub
      simp [hlt] at hcmp
    · have hlt := List.pairwise_iff_forall_sublist.1 hl' hsub
      simp [OrientedCmp.gt_of_lt hlt] at hcmp
  calc sortBy cmp l = sortBy cmp l' := (sortBy_eq_of_perm h.symm heq).symm
    _ = l' := List.mergeSort_of_pairwise hsorted

/-- Different elements are sorted in strict order. -/
theorem pairwise_lt_sortBy [TransCmp cmp] [LawfulEqCmp cmp] {l : List α} (h : l.Nodup) :
    (sortBy cmp l).Pairwise fun a b => cmp a b = .lt := by
  have hnodup : (sortBy cmp l).Nodup := (sortBy_perm cmp l).nodup_iff.2 h
  refine (hnodup.and (pairwise_sortBy l)).imp fun {a b} hab => ?_
  obtain ⟨hne, hle⟩ := hab
  cases hcmp : cmp a b with
  | lt => rfl
  | eq => exact absurd (LawfulEqCmp.eq_of_compare hcmp) hne
  | gt => rw [hcmp] at hle; cases hle

/-! ### Elements that are equal in the order -/

theorem not_sublist_swap {l : List α} (hl : l.Nodup) {a b : α} (h : [a, b].Sublist l) :
    ¬ [b, a].Sublist l := by
  induction l with
  | nil => cases h
  | cons c l ih =>
    obtain ⟨hc, hl⟩ := List.nodup_cons.1 hl
    intro h'
    cases h with
    | cons _ h =>
      cases h' with
      | cons _ h' => exact ih hl h h'
      | cons_cons _ h' => exact hc (h.subset (by simp))
    | cons_cons _ h =>
      cases h' with
      | cons _ h' => exact hc (h'.subset (by simp))
      | cons_cons _ h' => exact hc (h.subset (by simp))

/-- Sorting keeps the order of elements that are equal in the order of the sort. -/
theorem sublist_sortBy_iff [TransCmp cmp] {l : List α} (hl : l.Nodup) {a b : α}
    (heq : cmp a b = .eq) : [a, b].Sublist (sortBy cmp l) ↔ [a, b].Sublist l := by
  have hstable : ∀ {a b : α}, cmp a b = .eq → [a, b].Sublist l → [a, b].Sublist (sortBy cmp l) :=
    fun heq h => List.pair_sublist_mergeSort (fun _ _ _ => TransCmp.isLE_trans) isLE_total
      (by rw [heq]; rfl) h
  have hsorted : (sortBy cmp l).Nodup := (sortBy_perm cmp l).nodup_iff.2 hl
  constructor
  · intro h
    have hmem : ∀ x ∈ [a, b], x ∈ l := fun x hx => (sortBy_perm cmp l).mem_iff.1 (h.subset hx)
    have hne : a ≠ b := by simpa using hsorted.sublist h
    apply (sublist_or_sublist (hmem a (by simp)) (hmem b (by simp)) hne).resolve_right
    intro hswap
    exact not_sublist_swap hsorted h (hstable (OrientedCmp.eq_comm.1 heq) hswap)
  · exact hstable heq

/-- Elements in two orders are sorted to the same list only if those that are equal in the order of
the sort stand in the same order in both. -/
theorem sortBy_eq_iff [TransCmp cmp] {l l' : List α} (hl : l.Nodup) (h : l.Perm l') :
    sortBy cmp l = sortBy cmp l' ↔
      ∀ a b, cmp a b = .eq → ([a, b].Sublist l ↔ [a, b].Sublist l') := by
  have hl' : l'.Nodup := h.nodup_iff.1 hl
  constructor
  · intro hsame a b heq
    rw [← sublist_sortBy_iff hl heq, hsame, sublist_sortBy_iff hl' heq]
  · intro hties
    have hperm : (sortBy cmp l).Perm (sortBy cmp l') :=
      ((sortBy_perm cmp l).trans h).trans (sortBy_perm cmp l').symm
    -- both are sorted by the order with ties broken as in `l`, which is strict on its elements
    refine @List.Perm.eq_of_pairwise _
      (fun a b => (cmp a b).isLE ∧ (cmp a b = .eq → [a, b].Sublist l)) _ _ ?_ ?_ ?_ hperm
    · rintro a b - - ⟨hab, hfront⟩ ⟨hba, hback⟩
      have heq : cmp a b = .eq := OrientedCmp.isLE_antisymm hab hba
      exact absurd (hback (OrientedCmp.eq_comm.1 heq)) (not_sublist_swap hl (hfront heq))
    · rw [List.pairwise_iff_forall_sublist]
      intro a b hsub
      exact ⟨List.pairwise_iff_forall_sublist.1 (pairwise_sortBy l) hsub,
        fun heq => (sublist_sortBy_iff hl heq).1 hsub⟩
    · rw [List.pairwise_iff_forall_sublist]
      intro a b hsub
      exact ⟨List.pairwise_iff_forall_sublist.1 (pairwise_sortBy l') hsub,
        fun heq => (hties a b heq).2 ((sublist_sortBy_iff hl' heq).1 hsub)⟩

end PotExtract.Text
