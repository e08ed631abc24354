import PotExtract.Proofs.Catalog.Grouping

/-! Catalogs that merging and finishing lead to, in whatever sequence. Finishing moves the entries,
and the index has their places behind it as before, so that a key is always found. -/

namespace PotExtract

open Text

namespace Entry

/-- The entry without its occurrences. -/
def bare (e : Entry) : Entry :=
  { e with occurrences := [] }

/-- The entry as it stands in a catalog of an order. -/
def inOrder (order : SortOrder) (e : Entry) : Entry :=
  match order with
  | .location => { e with occurrences := sortBy Occurrence.compare e.occurrences }
  | .msgid | .none => e

/-- The entry with an occurrence for each of its files and without lines. -/
def withoutLines (e : Entry) : Entry :=
  { e with occurrences := (distinct (e.occurrences.map (·.file))).map fun file => ⟨file, none⟩ }

theorem filesOf_eq (occurrences : List Occurrence) :
    filesOf occurrences =
      (distinct (occurrences.map (·.file))).map fun file => ⟨file, none⟩ := by
  have hinjective : Function.Injective fun file : String => (⟨file, none⟩ : Occurrence) :=
    fun _ _ h => congrArg Occurrence.file h
  calc filesOf occurrences
      = distinct ([] ++ occurrences.map fun o => (⟨o.file, none⟩ : Occurrence)) :=
        foldl_distinct addOccurrence (fun _ _ => rfl) [] _
    _ = distinct ((occurrences.map (·.file)).map fun file => (⟨file, none⟩ : Occurrence)) := by
        rw [List.nil_append, List.map_map]
        rfl
    _ = _ := distinct_map hinjective _

end Entry

namespace Catalog

variable {c : Catalog}

/-! ### Finishing -/

/-- The entries `arranged` are `entries` in an order. -/
structure IsArranged (order : SortOrder) (entries arranged : List Entry) : Prop where
  perm : arranged.Perm (entries.map (Entry.inOrder order))
  asFound : order = .none → arranged = entries
  byKey : order = .msgid → arranged.Pairwise fun a b => a.key.compare b.key = .lt
  byPlaces : order = .location → arranged.Pairwise fun a b =>
    (compareLists Occurrence.compare a.occurrences b.occurrences).isLE
  places : order = .location → ∀ e ∈ arranged, e.occurrences.Pairwise fun o p => (o.compare p).isLE

theorem sortEntries_perm (order : SortOrder) (entries : List Entry) :
    (sortEntries order entries).Perm (entries.map (Entry.inOrder order)) := by
  cases order with
  | none => exact .of_eq (List.map_id entries).symm
  | msgid => exact (sortBy_perm _ _).trans (.of_eq (List.map_id entries).symm)
  | location => exact sortBy_perm _ _

theorem keys_sortEntries_msgid (entries : List Entry) :
    (sortEntries .msgid entries).map Entry.key = sortBy EntryKey.compare (entries.map Entry.key) :=
  map_sortBy fun _ _ _ _ => rfl

theorem isArranged_sortEntries {entries : List Entry} (h : (entries.map Entry.key).Nodup)
    (order : SortOrder) : IsArranged order entries (sortEntries order entries) := by
  refine ⟨sortEntries_perm order entries, ?_, ?_, ?_, ?_⟩
  · rintro rfl
    rfl
  · rintro rfl
    have hkeys : ((sortEntries .msgid entries).map Entry.key).Pairwise
        fun a b => a.compare b = .lt := by
      rw [keys_sortEntries_msgid]
      exact pairwise_lt_sortBy h
    exact List.pairwise_map.1 hkeys
  · rintro rfl
    have : Std.TransCmp fun a b : Entry =>
        compareLists Occurrence.compare a.occurrences b.occurrences := transCmp_on Entry.occurrences
    exact pairwise_sortBy _
  · rintro rfl e he
    obtain ⟨e, -, rfl⟩ := List.mem_map.1 ((sortEntries_perm _ _).mem_iff.1 he)
    exact pairwise_sortBy e.occurrences

theorem entries_finalize (c : Catalog) (order : SortOrder) (lines : Bool) :
    (c.finalize order lines).entries =
      if lines then sortEntries order c.entries
      else (sortEntries order c.entries).map Entry.withoutLines := by
  have hfiles : (fun e : Entry => { e with occurrences := Entry.filesOf e.occurrences }) =
      Entry.withoutLines := by
    funext e
    rw [Entry.filesOf_eq]
    rfl
  rw [finalize, hfiles]

theorem keys_finalize (c : Catalog) (order : SortOrder) (lines : Bool) :
    (c.finalize order lines).entries.map Entry.key =
      (sortEntries order c.entries).map Entry.key := by
  rw [entries_finalize]
  cases lines with
  | true => rfl
  | false =>
    rw [if_neg Bool.false_ne_true, List.map_map]
    rfl

theorem bare_finalize (c : Catalog) (order : SortOrder) (lines : Bool) :
    ((c.finalize order lines).entries.map Entry.bare).Perm (c.entries.map Entry.bare) := by
  obtain ⟨f, hf⟩ := exists_perm_finalize c order lines
  have h := hf.map Entry.bare
  rw [List.map_map] at h
  exact h

/-! ### Looking up -/

theorem IsIndexed.get?_eq_some (h : c.IsIndexed) {id : String} {context : Option String}
    {e : Entry} : c.get? id context = some e ↔ e ∈ c.entries ∧ e.key = ⟨id, context⟩ := by
  rw [get?, Option.bind_eq_some_iff]
  constructor
  · rintro ⟨i, hi, he⟩
    obtain ⟨e', he', hkey⟩ := h.index?_eq_some.1 hi
    obtain rfl := Option.some.inj (he'.symm.trans he)
    exact ⟨List.mem_of_getElem? he, hkey⟩
  · rintro ⟨he, hkey⟩
    obtain ⟨i, hi⟩ := List.mem_iff_getElem?.1 he
    exact ⟨i, h.index?_eq_some.2 ⟨e, hi, hkey⟩, hi⟩

theorem IsIndexed.get?_eq_none (h : c.IsIndexed) {id : String} {context : Option String} :
    c.get? id context = none ↔ ∀ e ∈ c.entries, e.key ≠ ⟨id, context⟩ := by
  rw [Option.eq_none_iff_forall_ne_some]
  simp only [ne_eq, h.get?_eq_some, not_and]

/-! ### Any sequence of steps -/

/-- The catalogs that new ones and those of entries come to by merging and finishing. -/
inductive Reachable : Catalog → Prop
  | default : Reachable {}
  | empty (locations : Bool) : Reachable (empty locations)
  | ofEntries (entries : List Entry) : Reachable (ofEntries entries)
  | merge {c : Catalog} (h : Reachable c) (m : Message) : Reachable (c.merge m)
  | finalize {c : Catalog} (h : Reachable c) (order : SortOrder) (lines : Bool) :
    Reachable (c.finalize order lines)

theorem Reachable.isIndexed (h : c.Reachable) : c.IsIndexed := by
  induction h with
  | default => exact isIndexed_empty false
  | empty locations => exact isIndexed_empty locations
  | ofEntries entries => exact isIndexed_ofEntries entries
  | merge _ m ih => exact ih.merge m
  | finalize _ order lines ih => exact ih.finalize order lines

/-- Keys of entries are different, the index has each of them once with the place of its entry, a
key is looked up to its entry, and finishing only moves entries and takes lines away. -/
structure IsConsistent (c : Catalog) : Prop where
  keys : (c.entries.map Entry.key).Nodup
  indexed : (c.index.places.map Prod.fst).Perm (c.entries.map Entry.key)
  place : ∀ key i, c.index.get? key = some i ↔ ∃ e, c.entries[i]? = some e ∧ e.key = key
  found : ∀ id context e, c.get? id context = some e ↔ e ∈ c.entries ∧ e.key = ⟨id, context⟩
  missing : ∀ id context, c.get? id context = none ↔ ∀ e ∈ c.entries, e.key ≠ ⟨id, context⟩
  kept : ∀ order lines,
    ((c.finalize order lines).entries.map Entry.bare).Perm (c.entries.map Entry.bare)
  finished : ∀ order lines, ∃ arranged, IsArranged order c.entries arranged ∧
    (c.finalize order lines).entries = if lines then arranged else arranged.map Entry.withoutLines

theorem isConsistent_of_reachable (h : c.Reachable) : c.IsConsistent := by
  have hindexed := h.isIndexed
  constructor
  · exact hindexed.keys
  · rw [hindexed.index, Index.keys_ofKeys hindexed.keys]
  · intro key i
    exact hindexed.index?_eq_some
  · intro id context e
    exact hindexed.get?_eq_some
  · intro id context
    exact hindexed.get?_eq_none
  · exact bare_finalize c
  · intro order lines
    exact ⟨_, isArranged_sortEntries hindexed.keys order, entries_finalize c order lines⟩

/-- A catalog of two entries. -/
def twoEntries : Catalog :=
  ((empty true).merge { id := "b", location := ⟨"a.py", 1⟩ }).merge
    { id := "a", location := ⟨"a.py", 2⟩ }

/-- The two entries change places before a message comes to one of them. -/
def movedCatalog : Catalog :=
  (twoEntries.finalize .msgid true).merge { id := "b", location := ⟨"a.py", 7⟩ }

theorem isConsistent_of_reachable_moved :
    movedCatalog.Reachable ∧ movedCatalog.index.get? ⟨"b", none⟩ = some 1 ∧
      movedCatalog.get? "b" none =
        some { id := "b", occurrences := [⟨"a.py", some 1⟩, ⟨"a.py", some 7⟩] } := by
  have hreachable : movedCatalog.Reachable :=
    ((((Reachable.empty true).merge _).merge _).finalize _ _).merge _
  have hconsistent := isConsistent_of_reachable hreachable
  have hsorted : sortEntries .msgid twoEntries.entries =
      [{ id := "a", occurrences := [⟨"a.py", some 2⟩] },
        { id := "b", occurrences := [⟨"a.py", some 1⟩] }] := by
    have : Std.TransCmp fun a b : Entry => a.key.compare b.key := transCmp_on Entry.key
    exact sortBy_eq_of_pairwise_lt (.swap _ _ _) (by decide)
  have hentries : movedCatalog.entries =
      [{ id := "a", occurrences := [⟨"a.py", some 2⟩] },
        { id := "b", occurrences := [⟨"a.py", some 1⟩, ⟨"a.py", some 7⟩] }] := by
    rw [movedCatalog, finalize, hsorted]
    decide
  refine ⟨hreachable, (hconsistent.place _ 1).2 ?_, (hconsistent.found _ _ _).2 ?_⟩
  · rw [hentries]
    exact ⟨_, rfl, rfl⟩
  · rw [hentries]
    exact ⟨by simp, rfl⟩

end Catalog

end PotExtract
