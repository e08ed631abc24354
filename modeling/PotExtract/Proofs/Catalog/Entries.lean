import Mathlib.Data.List.Nodup
import Mathlib.Data.List.Perm.Subperm
import PotExtract.Catalog
import PotExtract.Proofs.Catalog.Flags
import PotExtract.Proofs.Catalog.Index
import PotExtract.Proofs.Text.Order

/-! The entries of a catalog have different keys, and its index has their places, however they were
put together. What scanned messages are merged to stays so when the catalog is finished: no entry
has comments of translators or is obsolete, and flags stand once. Occurrences and keys are equal in
their order only if they are the same. -/

namespace PotExtract

open Text Std

instance : TransCmp Occurrence.compare :=
  transCmp_then Occurrence.file Occurrence.line

instance : LawfulEqCmp Occurrence.compare :=
  lawfulEqCmp_then Occurrence.file Occurrence.line fun
    | ⟨_, _⟩, ⟨_, _⟩, rfl, rfl => rfl

instance : TransCmp EntryKey.compare :=
  transCmp_then EntryKey.id EntryKey.context

instance : LawfulEqCmp EntryKey.compare :=
  lawfulEqCmp_then EntryKey.id EntryKey.context fun
    | ⟨_, _⟩, ⟨_, _⟩, rfl, rfl => rfl

/-- An entry of scanned messages. -/
structure Entry.IsScanned (e : Entry) : Prop where
  flags : e.flags.Nodup
  translatorComments : e.translatorComments = []
  live : e.obsolete = false

theorem Entry.IsScanned.absorb {e : Entry} (he : e.IsScanned) {m : Message}
    (hm : m.translatorComment = "") (locations : Bool) : (e.absorb locations m).IsScanned := by
  constructor
  · exact nodup_addFlags he.flags m.flags
  · show Entry.addComment e.translatorComments m.translatorComment = []
    rw [he.translatorComments, hm]
    rfl
  · exact he.live

namespace Catalog

variable {c : Catalog}

/-- A catalog whose entries have different keys, with the index of these. -/
structure IsIndexed (c : Catalog) : Prop where
  keys : (c.entries.map Entry.key).Nodup
  index : c.index = .ofKeys (c.entries.map Entry.key)

/-- A catalog of scanned messages. -/
structure IsScanned (c : Catalog) : Prop extends c.IsIndexed where
  entries : ∀ e ∈ c.entries, e.IsScanned

theorem IsScanned.live (h : c.IsScanned) : c.live = c.entries := by
  refine List.filter_eq_self.2 fun e he => ?_
  rw [(h.entries e he).live]
  rfl

theorem IsIndexed.index?_eq_none (h : c.IsIndexed) {key : EntryKey} :
    c.index? key = none ↔ key ∉ c.entries.map Entry.key := by
  rw [index?, h.index]
  exact Index.get?_ofKeys_eq_none

theorem IsIndexed.index?_eq_some (h : c.IsIndexed) {key : EntryKey} {i : Nat} :
    c.index? key = some i ↔ ∃ e, c.entries[i]? = some e ∧ e.key = key := by
  rw [index?, h.index, Index.get?_ofKeys h.keys, List.getElem?_map, Option.map_eq_some_iff]

theorem IsIndexed.eq {c' : Catalog} (h : c.IsIndexed) (h' : c'.IsIndexed)
    (hentries : c.entries = c'.entries) (hlocations : c.locations = c'.locations) : c = c' := by
  have hindex : c.index = c'.index := by rw [h.index, h'.index, hentries]
  cases c
  cases c'
  simp_all

theorem isIndexed_empty (locations : Bool) : (empty locations).IsIndexed :=
  ⟨List.nodup_nil, rfl⟩

theorem IsIndexed.append (h : c.IsIndexed) {e : Entry} (he : e.key ∉ c.entries.map Entry.key) :
    (c.append e).IsIndexed := by
  have hkeys : (c.append e).entries.map Entry.key = c.entries.map Entry.key ++ [e.key] := by
    rw [Catalog.append, List.map_append, List.map_singleton]
  constructor
  · rw [hkeys, ← List.concat_eq_append]
    exact h.keys.concat he
  · rw [hkeys, Index.ofKeys_concat, List.length_map, ← h.index]
    rfl

/-! ### Merging -/

theorem keys_modify {f : Entry → Entry} (hf : ∀ e, (f e).key = e.key) (entries : List Entry)
    (i : Nat) : (entries.modify i f).map Entry.key = entries.map Entry.key := by
  induction entries generalizing i with
  | nil => cases i <;> rfl
  | cons e entries ih =>
    cases i with
    | zero =>
      show (f e).key :: _ = _
      rw [hf]
      rfl
    | succ i => exact congrArg (e.key :: ·) (ih i)

theorem forall_mem_modify {α : Type} {p : α → Prop} {f : α → α} (hf : ∀ e, p e → p (f e))
    {list : List α} (h : ∀ e ∈ list, p e) (i : Nat) : ∀ e ∈ list.modify i f, p e := by
  induction list generalizing i with
  | nil =>
    cases i <;> exact h
  | cons e list ih =>
    obtain ⟨he, hlist⟩ := List.forall_mem_cons.1 h
    cases i with
    | zero => exact List.forall_mem_cons.2 ⟨hf e he, hlist⟩
    | succ i => exact List.forall_mem_cons.2 ⟨he, ih hlist i⟩

theorem IsIndexed.merge (h : c.IsIndexed) (m : Message) : (c.merge m).IsIndexed := by
  unfold Catalog.merge
  split
  · next i hi =>
    have hkeys : (c.entries.modify i fun e => e.absorb c.locations m).map Entry.key =
        c.entries.map Entry.key :=
          keys_modify (f := (·.absorb c.locations m)) (fun _ => rfl) c.entries i
    constructor
    · show ((c.entries.modify i _).map Entry.key).Nodup
      rw [hkeys]
      exact h.keys
    · show c.index = .ofKeys ((c.entries.modify i _).map Entry.key)
      rw [hkeys]
      exact h.index
  · next hnone => exact h.append (h.index?_eq_none.1 hnone)

theorem locations_merge (c : Catalog) (m : Message) : (c.merge m).locations = c.locations := by
  unfold Catalog.merge
  split <;> rfl

theorem IsScanned.merge (h : c.IsScanned) {m : Message} (hm : m.translatorComment = "") :
    (c.merge m).IsScanned := by
  have habsorb : ∀ e : Entry, e.IsScanned → (e.absorb c.locations m).IsScanned :=
    fun e he => he.absorb hm c.locations
  refine ⟨h.toIsIndexed.merge m, ?_⟩
  unfold Catalog.merge
  split
  · exact forall_mem_modify habsorb h.entries _
  · refine List.forall_mem_append.2 ⟨h.entries, List.forall_mem_singleton.2 ?_⟩
    exact habsorb _ ⟨List.nodup_nil, rfl, rfl⟩

theorem isScanned_mergeAll {messages : List Message}
    (h : ∀ m ∈ messages, m.translatorComment = "") (hc : c.IsScanned) :
    (c.mergeAll messages).IsScanned := by
  induction messages generalizing c with
  | nil => exact hc
  | cons m messages ih =>
    obtain ⟨hm, hmessages⟩ := List.forall_mem_cons.1 h
    exact ih hmessages (hc.merge hm)

/-! ### Finishing -/

/-- The entries of a finished catalog are those it had with other occurrences, in some order. -/
theorem exists_perm_finalize (c : Catalog) (order : SortOrder) (lines : Bool) :
    ∃ f : List Occurrence → List Occurrence, (c.finalize order lines).entries.Perm
      (c.entries.map fun e => { e with occurrences := f e.occurrences }) := by
  obtain ⟨f, hf⟩ : ∃ f : List Occurrence → List Occurrence, (sortEntries order c.entries).Perm
      (c.entries.map fun e => { e with occurrences := f e.occurrences }) := by
    cases order with
    | none => exact ⟨id, by simp [sortEntries]⟩
    | msgid => exact ⟨id, by simpa [sortEntries, sortBy] using List.mergeSort_perm _ _⟩
    | location => exact ⟨sortBy Occurrence.compare, List.mergeSort_perm _ _⟩
  unfold finalize
  cases lines with
  | true => exact ⟨f, hf⟩
  | false =>
    refine ⟨Entry.filesOf ∘ f, ?_⟩
    have h := hf.map fun e => { e with occurrences := Entry.filesOf e.occurrences }
    rwa [List.map_map] at h

theorem IsIndexed.finalize (h : c.IsIndexed) (order : SortOrder) (lines : Bool) :
    (c.finalize order lines).IsIndexed := by
  obtain ⟨f, hf⟩ := exists_perm_finalize c order lines
  constructor
  · rw [(hf.map Entry.key).nodup_iff, List.map_map]
    exact h.keys
  · rfl

theorem IsScanned.finalize (h : c.IsScanned) (order : SortOrder) (lines : Bool) :
    (c.finalize order lines).IsScanned := by
  refine ⟨h.toIsIndexed.finalize order lines, ?_⟩
  obtain ⟨f, hf⟩ := exists_perm_finalize c order lines
  intro e he
  obtain ⟨e', he', rfl⟩ := List.mem_map.1 (hf.mem_iff.1 he)
  have hscanned := h.entries e' he'
  exact ⟨hscanned.flags, hscanned.translatorComments, hscanned.live⟩

theorem isScanned_empty (locations : Bool) : (empty locations).IsScanned :=
  ⟨isIndexed_empty locations, by simp [empty]⟩

/-! ### Catalogs of entries -/

theorem IsIndexed.addNew (h : c.IsIndexed) (e : Entry) :
    (c.addNew e).IsIndexed ∧ (c.addNew e).entries =
      if e.key ∈ c.entries.map Entry.key then c.entries else c.entries ++ [e] := by
  unfold Catalog.addNew
  by_cases hmem : e.key ∈ c.entries.map Entry.key
  · have hsome : (c.index? e.key).isSome := by
      rw [Option.isSome_iff_ne_none, ne_eq, h.index?_eq_none, not_not]
      exact hmem
    rw [if_pos hsome, if_pos hmem]
    exact ⟨h, rfl⟩
  · rw [h.index?_eq_none.2 hmem, if_neg hmem]
    exact ⟨h.append hmem, rfl⟩

theorem IsIndexed.foldl_addNew (h : c.IsIndexed) (entries : List Entry) :
    (entries.foldl Catalog.addNew c).IsIndexed := by
  induction entries generalizing c with
  | nil => exact h
  | cons e entries ih => exact ih (h.addNew e).1

theorem sublist_foldl_addNew (h : c.IsIndexed) (entries : List Entry) :
    (entries.foldl addNew c).entries.Sublist (c.entries ++ entries) := by
  induction entries generalizing c with
  | nil => simp
  | cons e entries ih =>
    have hone : (c.addNew e).entries.Sublist (c.entries ++ [e]) := by
      rw [(h.addNew e).2]
      split
      · exact List.sublist_append_left _ _
      · exact List.Sublist.refl _
    have hrest := (ih (h.addNew e).1).trans (hone.append_right entries)
    rwa [List.append_assoc, List.singleton_append] at hrest

theorem isIndexed_ofEntries (entries : List Entry) : (ofEntries entries).IsIndexed :=
  (isIndexed_empty true).foldl_addNew entries

theorem nodup_keys_ofEntries (entries : List Entry) :
    ((ofEntries entries).entries.map Entry.key).Nodup :=
  (isIndexed_ofEntries entries).keys

theorem sublist_ofEntries (entries : List Entry) : (ofEntries entries).entries.Sublist entries :=
  sublist_foldl_addNew (isIndexed_empty true) entries

theorem entries_foldl_addNew (hc : c.IsIndexed) {entries : List Entry}
    (h : ((c.entries ++ entries).map Entry.key).Nodup) :
    (entries.foldl addNew c).entries = c.entries ++ entries := by
  induction entries generalizing c with
  | nil => exact (List.append_nil _).symm
  | cons e entries ih =>
    have he : e.key ∉ c.entries.map Entry.key := by
      rw [List.map_append, List.map_cons] at h
      exact fun hmem => (List.nodup_append.1 h).2.2 _ hmem _ List.mem_cons_self rfl
    obtain ⟨hindexed, hone⟩ := hc.addNew e
    rw [if_neg he] at hone
    have hsplit : c.entries ++ e :: entries = (c.addNew e).entries ++ entries := by simp [hone]
    rw [hsplit] at h ⊢
    exact ih hindexed h

/-- Entries with different keys are all kept. -/
theorem entries_ofEntries {entries : List Entry} (h : (entries.map Entry.key).Nodup) :
    (ofEntries entries).entries = entries :=
  entries_foldl_addNew (isIndexed_empty true) h

end Catalog

end PotExtract
