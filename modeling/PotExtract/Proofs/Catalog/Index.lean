import Mathlib.Data.List.Induction
import Mathlib.Data.List.Nodup
import PotExtract.Catalog.Entry

/-! Laws of indexes. The index of different keys has each of them, with its place in their list. -/

namespace PotExtract.Index

variable {keys : List EntryKey} {key k : EntryKey}

theorem lookup_filter_ne (h : k ≠ key) (places : List (EntryKey × Nat)) :
    (places.filter fun p => p.1 != key).lookup k = places.lookup k := by
  induction places with
  | nil => rfl
  | cons p places ih =>
    rw [List.filter_cons]
    split
    · rw [List.lookup_cons, List.lookup_cons, ih]
    · next hp =>
      have hne : (k == p.1) = false := by simp_all
      rw [ih, List.lookup_cons, hne]

theorem get?_insert (index : Index) (key : EntryKey) (i : Nat) (k : EntryKey) :
    (index.insert key i).get? k = if k = key then some i else index.get? k := by
  unfold get? insert
  rw [List.lookup_append]
  by_cases h : k = key
  · have hnone : (index.places.filter fun p => p.1 != key).lookup k = none := by
      rw [List.lookup_eq_none_iff]
      intro p hp
      have hne : p.1 ≠ key := by simpa using (List.mem_filter.1 hp).2
      simpa [h] using hne.symm
    rw [hnone, if_pos h, h, Option.none_or, List.lookup_cons_self]
  · have hne : (k == key) = false := by simpa using h
    rw [lookup_filter_ne h, if_neg h, List.lookup_cons, hne]
    exact Option.or_none

theorem ofKeys_concat (keys : List EntryKey) (key : EntryKey) :
    ofKeys (keys ++ [key]) = (ofKeys keys).insert key keys.length := by
  rw [ofKeys, List.zipIdx_append, List.foldl_append, List.zipIdx_singleton, List.foldl_cons,
    List.foldl_nil, Nat.zero_add]
  rfl

theorem get?_ofKeys_eq_none : (ofKeys keys).get? key = none ↔ key ∉ keys := by
  induction keys using List.reverseRecOn with
  | nil => simp [ofKeys, get?]
  | append_singleton keys k ih =>
    rw [ofKeys_concat, get?_insert, List.mem_append, List.mem_singleton]
    by_cases h : key = k
    · simp [h]
    · rw [if_neg h, ih]
      simp [h]

/-- Each key of the index stands at its place. -/
theorem getElem?_of_get?_ofKeys {i : Nat} (h : (ofKeys keys).get? key = some i) :
    keys[i]? = some key := by
  induction keys using List.reverseRecOn with
  | nil => cases h
  | append_singleton keys k ih =>
    rw [ofKeys_concat, get?_insert] at h
    split at h
    · next hkey =>
      obtain rfl := Option.some.inj h
      rw [List.getElem?_concat_length, hkey]
    · have hold := ih h
      obtain ⟨hlt, -⟩ := List.getElem?_eq_some_iff.1 hold
      rwa [List.getElem?_append_left hlt]

theorem get?_ofKeys (h : keys.Nodup) {i : Nat} :
    (ofKeys keys).get? key = some i ↔ keys[i]? = some key := by
  constructor
  · exact getElem?_of_get?_ofKeys
  · intro hi
    cases hget : (ofKeys keys).get? key with
    | none => exact absurd (List.mem_of_getElem? hi) (get?_ofKeys_eq_none.1 hget)
    | some j =>
      obtain ⟨hlt, -⟩ := List.getElem?_eq_some_iff.1 hi
      have hj := getElem?_of_get?_ofKeys hget
      rw [(List.getElem?_inj hlt h).1 (hi.trans hj.symm)]

/-- An index has each key once. -/
theorem keys_ofKeys (h : keys.Nodup) : (ofKeys keys).places.map Prod.fst = keys := by
  induction keys using List.reverseRecOn with
  | nil => rfl
  | append_singleton keys k ih =>
    rw [← List.concat_eq_append, List.nodup_concat] at h
    have hothers : (ofKeys keys).places.filter (fun p => p.1 != k) = (ofKeys keys).places := by
      rw [List.filter_eq_self]
      intro p hp
      have hmem : p.1 ∈ keys := ih h.2 ▸ List.mem_map_of_mem hp
      have hne : p.1 ≠ k := fun heq => h.1 (heq ▸ hmem)
      simpa using hne
    rw [ofKeys_concat, insert, hothers, List.map_append, ih h.2]
    rfl

end PotExtract.Index
