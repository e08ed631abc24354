import Mathlib.Data.List.Nodup
import PotExtract.Message

/-! Flags put together: each stands once, so they are all there as they were only if no two of them
are the same. -/

namespace PotExtract

variable {flags new : List String}

/-- The flags that are added to others are there, and so are the others. -/
theorem mem_addFlags {flag : String} :
    flag ∈ addFlags flags new ↔ flag ∈ flags ∨ flag ∈ new := by
  induction new generalizing flags with
  | nil => simp [addFlags]
  | cons f new ih =>
    have hone : flag ∈ addFlag flags f ↔ flag ∈ flags ∨ flag = f := by
      unfold addFlag
      split
      · next hf =>
        constructor
        · exact .inl
        · rintro (h | rfl)
          · exact h
          · exact hf
      · simp
    rw [addFlags, List.foldl_cons]
    exact ih.trans (by rw [hone, List.mem_cons, or_assoc])

theorem nodup_addFlag (h : flags.Nodup) (flag : String) : (addFlag flags flag).Nodup := by
  unfold addFlag
  split
  · exact h
  · next hmem => exact List.concat_eq_append ▸ h.concat hmem

theorem nodup_addFlags (h : flags.Nodup) (new : List String) : (addFlags flags new).Nodup := by
  induction new generalizing flags with
  | nil => exact h
  | cons f new ih => exact ih (nodup_addFlag h f)

theorem addFlags_eq_append (h : (flags ++ new).Nodup) : addFlags flags new = flags ++ new := by
  induction new generalizing flags with
  | nil =>
    rw [List.append_nil]
    rfl
  | cons f new ih =>
    have hf : f ∉ flags := fun hmem => (List.nodup_append.1 h).2.2 f hmem f List.mem_cons_self rfl
    have hsplit : flags ++ f :: new = flags ++ [f] ++ new := by simp
    rw [hsplit] at h ⊢
    rw [← ih h, addFlags, List.foldl_cons, addFlag, if_neg hf]
    rfl

theorem addFlags_nil (h : new.Nodup) : addFlags [] new = new :=
  addFlags_eq_append h

theorem length_addFlags_le (flags new : List String) :
    (addFlags flags new).length ≤ flags.length + new.length := by
  induction new generalizing flags with
  | nil => exact Nat.le_refl _
  | cons f new ih =>
    have hrest := ih (addFlag flags f)
    have hone : (addFlag flags f).length ≤ flags.length + 1 := by
      unfold addFlag
      split <;> simp
    rw [List.length_cons]
    show (addFlags (addFlag flags f) new).length ≤ _
    omega

/-- If none was left out, no two were the same. -/
theorem nodup_of_length_le (h : flags.length + new.length ≤ (addFlags flags new).length)
    (hflags : flags.Nodup) : (flags ++ new).Nodup := by
  induction new generalizing flags with
  | nil => rwa [List.append_nil]
  | cons f new ih =>
    change flags.length + (new.length + 1) ≤ (addFlags (addFlag flags f) new).length at h
    have hrest := length_addFlags_le (addFlag flags f) new
    by_cases hf : f ∈ flags
    · rw [addFlag, if_pos hf] at h hrest
      omega
    · have hsplit : flags ++ f :: new = addFlag flags f ++ new := by simp [addFlag, hf]
      rw [hsplit]
      refine ih ?_ (nodup_addFlag hflags f)
      have hlength : (addFlag flags f).length = flags.length + 1 := by simp [addFlag, hf]
      omega

end PotExtract
