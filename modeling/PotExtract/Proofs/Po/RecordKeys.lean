import Mathlib.Data.List.Forall2
import PotExtract.Po.Record
import PotExtract.Proofs.Catalog.Flags

/-! The keys of records. They are put together like flags: each stands once, where it came first, so
records with different keys are all kept. -/

namespace PotExtract.Po

variable {records new : List Record}

theorem keys_putRecord (records : List Record) (r : Record) :
    (putRecord records r).map Record.key = addFlag (records.map Record.key) r.key := by
  have hany : records.any r.sameKey ↔ r.key ∈ records.map Record.key := by
    rw [List.any_eq_true, List.mem_map]
    constructor
    · rintro ⟨old, hold, hsame⟩
      exact ⟨old, hold, (eq_of_beq hsame).symm⟩
    · rintro ⟨old, hold, hkey⟩
      exact ⟨old, hold, beq_of_eq hkey.symm⟩
  unfold putRecord addFlag
  by_cases h : records.any r.sameKey
  · rw [if_pos h, if_pos (hany.1 h), List.map_map]
    refine List.map_congr_left fun old _ => ?_
    show (if r.sameKey old then r else old).key = old.key
    split
    · next hsame => exact eq_of_beq hsame
    · rfl
  · rw [if_neg h, if_neg (mt hany.2 h), List.map_append, List.map_singleton]

theorem keys_foldl_putRecord (records new : List Record) :
    (new.foldl putRecord records).map Record.key =
      addFlags (records.map Record.key) (new.map Record.key) := by
  induction new generalizing records with
  | nil => rfl
  | cons r new ih =>
    rw [List.foldl_cons, ih, keys_putRecord]
    rfl

theorem foldl_putRecord (h : ((records ++ new).map Record.key).Nodup) :
    new.foldl putRecord records = records ++ new := by
  induction new generalizing records with
  | nil =>
    rw [List.append_nil]
    rfl
  | cons r new ih =>
    have hr : ¬ records.any r.sameKey := by
      rw [List.map_append, List.map_cons] at h
      intro hany
      obtain ⟨old, hold, hsame⟩ := List.any_eq_true.1 hany
      exact (List.nodup_append.1 h).2.2 _ (List.mem_map_of_mem hold) _ List.mem_cons_self
        (eq_of_beq hsame).symm
    have hsplit : records ++ r :: new = records ++ [r] ++ new := by simp
    rw [hsplit] at h ⊢
    rw [List.foldl_cons, putRecord, if_neg hr, ih h]

theorem mem_foldl_putRecord {r : Record} (h : r ∈ new.foldl putRecord records) :
    r ∈ records ∨ r ∈ new := by
  induction new generalizing records with
  | nil => exact .inl h
  | cons s new ih =>
    rcases ih h with h | h
    · unfold putRecord at h
      split at h
      · obtain ⟨old, hold, hr⟩ := List.mem_map.1 h
        split at hr
        · exact .inr (hr ▸ List.mem_cons_self)
        · exact .inl (hr ▸ hold)
      · rcases List.mem_append.1 h with h | h
        · exact .inl h
        · exact .inr (List.mem_singleton.1 h ▸ List.mem_cons_self)
    · exact .inr (List.mem_cons_of_mem s h)

/-! ### The records of a catalog -/

/-- The keys of the records that entries are written as. -/
def recordKeys (c : Catalog) : List String :=
  c.entries.map fun e => (Record.ofEntry e).key

theorem keys_recordsOf (c : Catalog) :
    (recordsOf c).map Record.key = addFlags [] (recordKeys c) := by
  rw [recordsOf, keys_foldl_putRecord, List.map_map]
  rfl

theorem nodup_recordsOf (c : Catalog) : ((recordsOf c).map Record.key).Nodup := by
  rw [keys_recordsOf]
  exact nodup_addFlags List.nodup_nil _

/-- With different keys every entry has a record. -/
theorem recordsOf_eq_map {c : Catalog} (h : (recordKeys c).Nodup) :
    recordsOf c = c.entries.map Record.ofEntry := by
  refine foldl_putRecord ?_
  rw [List.nil_append, List.map_map]
  exact h

/-- Entries with the same key leave fewer records. -/
theorem nodup_of_length_le_recordsOf {c : Catalog} (h : c.entries.length ≤ (recordsOf c).length) :
    (recordKeys c).Nodup := by
  have hkept : (addFlags [] (recordKeys c)).length = (recordsOf c).length := by
    rw [← keys_recordsOf, List.length_map]
  have hentries : (recordKeys c).length = c.entries.length := List.length_map _
  have hnodup : ([] ++ recordKeys c).Nodup :=
    nodup_of_length_le (by simpa [hkept, hentries]) List.nodup_nil
  rwa [List.nil_append] at hnodup

theorem exists_of_mem_recordsOf {c : Catalog} {r : Record} (h : r ∈ recordsOf c) :
    ∃ e ∈ c.entries, Record.ofEntry e = r := by
  rcases mem_foldl_putRecord h with h | h
  · cases h
  · exact List.mem_map.1 h

end PotExtract.Po
