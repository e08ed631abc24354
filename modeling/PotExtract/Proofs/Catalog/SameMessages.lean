import Mathlib.Data.Finmap
import PotExtract.Proofs.Catalog.Entries

/-! Catalogs that say the same. Sorted by key and compared entry by entry, two catalogs with
different keys say the same exactly if every key leads to the same content in both. -/

namespace PotExtract

open Text

namespace Entry

/-- What an entry says of its key. White space in comments and the order of flags do not matter. -/
structure Content where
  pluralId : Option String
  flags : Multiset String
  comment : String
  translatorComment : String

/-- What the entry says of its key. -/
def content (e : Entry) : Content where
  pluralId := e.pluralId
  flags := e.flags
  comment := normalized e.comment
  translatorComment := normalized e.translatorComment

/-- The key with what the entry says of it. -/
def statement (e : Entry) : (_ : EntryKey) × Content :=
  ⟨e.key, e.content⟩

theorem agrees_iff {a b : Entry} :
    a.agrees b ↔ a.key = b.key ∧ a.pluralId = b.pluralId ∧ a.flags.Perm b.flags ∧
      normalized a.comment = normalized b.comment ∧
      normalized a.translatorComment = normalized b.translatorComment := by
  simp only [agrees, Bool.and_eq_true, beq_iff_eq, sortBy_eq_iff_perm, and_assoc]

theorem agrees_iff_statement {a b : Entry} : a.agrees b ↔ a.statement = b.statement := by
  simp only [agrees_iff, statement, content, Sigma.mk.injEq, heq_eq_eq, Content.mk.injEq,
    Multiset.coe_eq_coe]

theorem map_fst_statement (entries : List Entry) :
    (entries.map Entry.statement).map Sigma.fst = entries.map Entry.key :=
  List.map_map

/-- An entry with other occurrences and its flags in another order. -/
def Restates (e o : Entry) : Prop :=
  ∃ flags occurrences, e.flags.Perm flags ∧ o = { e with flags, occurrences }

theorem Restates.statement {e o : Entry} (h : e.Restates o) : e.statement = o.statement := by
  obtain ⟨flags, occurrences, hflags, rfl⟩ := h
  exact agrees_iff_statement.1 (agrees_iff.2 ⟨rfl, rfl, hflags, rfl, rfl⟩)

end Entry

namespace Catalog

variable {a b c : Catalog}

/-- What the entries that are not obsolete say, by key. -/
def contents (c : Catalog) : Finmap fun _ : EntryKey => Entry.Content :=
  (c.live.map Entry.statement).toFinmap

/-- A catalog with obsolete entries of any kind whose other entries are those of `c`, in some order,
with other occurrences and their flags in another order. -/
def Restates (c c' : Catalog) : Prop :=
  ∃ entries, c.live.Perm entries ∧ List.Forall₂ Entry.Restates entries c'.live

theorem liveByKey_perm (c : Catalog) : c.liveByKey.Perm c.live :=
  sortBy_perm _ _

theorem nodup_keys_live (h : (c.entries.map Entry.key).Nodup) : (c.live.map Entry.key).Nodup :=
  h.sublist (List.filter_sublist.map _)

theorem nodupKeys_statements (h : (c.live.map Entry.key).Nodup) :
    (c.live.map Entry.statement).NodupKeys := by
  rw [List.NodupKeys, List.keys, Entry.map_fst_statement]
  exact h

/-- Catalogs say the same if their entries do, one after the other. -/
theorem sameMessages_iff_map_eq :
    a.sameMessages b ↔ a.liveByKey.map Entry.statement = b.liveByKey.map Entry.statement := by
  rw [← List.forall₂_eq_eq_eq, List.forall₂_map_left_iff, List.forall₂_map_right_iff]
  simp [sameMessages, List.forall₂_iff_zip, Entry.agrees_iff_statement]

theorem perm_of_sameMessages (h : a.sameMessages b) :
    (a.live.map Entry.statement).Perm (b.live.map Entry.statement) := by
  have ha := (liveByKey_perm a).map Entry.statement
  have hb := (liveByKey_perm b).map Entry.statement
  rw [sameMessages_iff_map_eq.1 h] at ha
  exact ha.symm.trans hb

theorem exists_agrees_of_sameMessages (h : a.sameMessages b) {e : Entry} (he : e ∈ b.live) :
    ∃ o ∈ a.live, o.agrees e := by
  have hmem : e.statement ∈ a.live.map Entry.statement :=
    (perm_of_sameMessages h).mem_iff.2 (List.mem_map_of_mem he)
  obtain ⟨o, ho, hsame⟩ := List.mem_map.1 hmem
  exact ⟨o, ho, Entry.agrees_iff_statement.2 hsame⟩

theorem map_statement_liveByKey (c : Catalog) :
    c.liveByKey.map Entry.statement =
      sortBy (fun s t => s.1.compare t.1) (c.live.map Entry.statement) :=
  map_sortBy fun _ _ _ _ => rfl

theorem sameMessages_iff_perm (ha : (a.live.map Entry.key).Nodup) :
    a.sameMessages b ↔ (a.live.map Entry.statement).Perm (b.live.map Entry.statement) := by
  refine ⟨perm_of_sameMessages, fun h => ?_⟩
  rw [sameMessages_iff_map_eq, map_statement_liveByKey, map_statement_liveByKey]
  have : Std.TransCmp fun s t : (_ : EntryKey) × Entry.Content => s.1.compare t.1 :=
    transCmp_on Sigma.fst
  -- no two statements tie: their keys are different, so the sort does not depend on the order
  refine sortBy_eq_of_perm h fun s hs t ht hcompare => ?_
  have hkey : s.1 = t.1 := Std.LawfulEqCmp.eq_of_compare hcompare
  exact (nodupKeys_statements ha).eq_of_fst_eq hs ht hkey

theorem lookup_contents (c : Catalog) (key : EntryKey) :
    c.contents.lookup key = (c.live.map Entry.statement).dlookup key :=
  Finmap.dlookup_list_toFinmap _ _

theorem contents_eq_iff (ha : (a.live.map Entry.key).Nodup) (hb : (b.live.map Entry.key).Nodup) :
    a.contents = b.contents ↔
      (a.live.map Entry.statement).Perm (b.live.map Entry.statement) := by
  constructor
  · intro h
    refine List.lookup_ext (nodupKeys_statements ha) (nodupKeys_statements hb) fun key content => ?_
    rw [← lookup_contents, ← lookup_contents, h]
  · intro h
    refine Finmap.ext_lookup fun key => ?_
    rw [lookup_contents, lookup_contents]
    exact List.perm_dlookup key (nodupKeys_statements ha) h

theorem Restates.refl (c : Catalog) : c.Restates c :=
  ⟨c.live, .refl _, List.forall₂_same.2 fun e _ => ⟨e.flags, e.occurrences, .refl _, rfl⟩⟩

theorem Restates.perm {c c' : Catalog} (h : c.Restates c') :
    (c.live.map Entry.statement).Perm (c'.live.map Entry.statement) := by
  obtain ⟨entries, hperm, hall⟩ := h
  have heq : entries.map Entry.statement = c'.live.map Entry.statement := by
    rw [← List.forall₂_eq_eq_eq, List.forall₂_map_left_iff, List.forall₂_map_right_iff]
    exact hall.imp fun _ _ h => h.statement
  rw [← heq]
  exact hperm.map Entry.statement

theorem equivalence_sameMessages :
    Equivalence fun c c' : Catalog => c.sameMessages c' = true where
  refl _ := sameMessages_iff_map_eq.2 rfl
  symm h := sameMessages_iff_map_eq.2 (sameMessages_iff_map_eq.1 h).symm
  trans h h' :=
    sameMessages_iff_map_eq.2 ((sameMessages_iff_map_eq.1 h).trans (sameMessages_iff_map_eq.1 h'))

/-- A catalog says the same as what it was before it was finished. -/
theorem sameMessages_finalize (h : (c.entries.map Entry.key).Nodup) (order : SortOrder)
    (lines : Bool) : c.sameMessages (c.finalize order lines) := by
  rw [sameMessages_iff_perm (nodup_keys_live h)]
  obtain ⟨f, hf⟩ := exists_perm_finalize c order lines
  have hlive := (hf.filter fun e => !e.obsolete).symm.map Entry.statement
  rw [List.filter_map, List.map_map] at hlive
  exact hlive

/-- Catalogs with different keys say the same exactly if every key has the same content in both.
This is an equivalence, and it is not told from a catalog how its entries stand, where they occur,
how their flags stand, and what is obsolete. -/
theorem sameMessages_iff_contents (ha : (a.entries.map Entry.key).Nodup)
    (hb : (b.entries.map Entry.key).Nodup) :
    (a.sameMessages b ↔ a.contents = b.contents) ∧
      Equivalence (fun c c' : Catalog => c.sameMessages c' = true) ∧
      ∀ a' b', a.Restates a' → b.Restates b' → (a'.sameMessages b' ↔ a.sameMessages b) := by
  have hlive := nodup_keys_live ha
  refine ⟨?_, equivalence_sameMessages, fun a' b' ha' hb' => ?_⟩
  · rw [sameMessages_iff_perm hlive, contents_eq_iff hlive (nodup_keys_live hb)]
  · have hlive' : (a'.live.map Entry.key).Nodup := by
      have hkeys := ha'.perm.map Sigma.fst
      rw [Entry.map_fst_statement, Entry.map_fst_statement] at hkeys
      exact hkeys.nodup_iff.1 hlive
    rw [sameMessages_iff_perm hlive, sameMessages_iff_perm hlive']
    exact ⟨fun h => (ha'.perm.trans h).trans hb'.perm.symm,
      fun h => (ha'.perm.symm.trans h).trans hb'.perm⟩

/-- A catalog with an obsolete entry. -/
def dairy : Catalog where
  entries := [
    { id := "one cow", pluralId := some "%d cows", flags := ["c-format", "fuzzy"] },
    { id := "milk", comments := ["white"] },
    { id := "churn", obsolete := true }]

/-- The entries in another order, with their places and without the obsolete one. -/
def dairyMoved : Catalog where
  entries := [
    { id := "milk", comments := ["white"], occurrences := [⟨"farm.py", some 3⟩] },
    { id := "one cow", pluralId := some "%d cows", flags := ["fuzzy", "c-format"] }]

/-- The obsolete entry is used again. -/
def dairyRevived : Catalog where
  entries := dairy.entries.map fun e => { e with obsolete := false }

theorem sameMessages_iff_contents_dairy :
    dairy.Restates dairyMoved ∧ dairyMoved.sameMessages dairy ∧
      dairyMoved.contents = dairy.contents ∧ dairyRevived.contents ≠ dairy.contents := by
  have hdairy : (dairy.entries.map Entry.key).Nodup := by decide
  have hmoved : (dairyMoved.entries.map Entry.key).Nodup := by decide
  have hrevived : (dairyRevived.entries.map Entry.key).Nodup := by decide
  have hrestates : dairy.Restates dairyMoved := by
    refine ⟨dairy.live.reverse, dairy.live.reverse_perm.symm, ?_⟩
    exact .cons ⟨[], [⟨"farm.py", some 3⟩], .refl _, rfl⟩
      (.cons ⟨["fuzzy", "c-format"], [], .swap _ _ _, rfl⟩ .nil)
  have hsame : dairyMoved.sameMessages dairy := by
    obtain ⟨-, hequivalence, hrestated⟩ := sameMessages_iff_contents hdairy hdairy
    exact (hrestated dairyMoved dairy hrestates (Restates.refl dairy)).2 (hequivalence.refl dairy)
  have hdiffer : ¬ dairyRevived.sameMessages dairy :=
    fun h => absurd (perm_of_sameMessages h).length_eq (by decide)
  rw [(sameMessages_iff_contents hrevived hdairy).1] at hdiffer
  exact ⟨hrestates, hsame, (sameMessages_iff_contents hmoved hdairy).1.1 hsame, hdiffer⟩

end Catalog

end PotExtract
