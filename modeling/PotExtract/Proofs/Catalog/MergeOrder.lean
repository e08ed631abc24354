import PotExtract.Proofs.Catalog.Reachable

/-! Messages merged in two orders. The catalogs have the same keys, and what an entry collects is
the same up to the order in which it is collected; by id the entries stand in one order. -/

namespace PotExtract

open Text

section Distinct

variable {α β : Type} [DecidableEq β]

theorem distinct_perm_iff {bs bs' : List β} :
    (distinct bs).Perm (distinct bs') ↔ ∀ b, b ∈ bs ↔ b ∈ bs' := by
  rw [List.perm_ext_iff_of_nodup (nodup_distinct bs) (nodup_distinct bs')]
  simp only [mem_distinct]

theorem distinct_perm {bs bs' : List β} (h : bs.Perm bs') : (distinct bs).Perm (distinct bs') :=
  distinct_perm_iff.2 fun _ => h.mem_iff

theorem map_firstBy_perm (f : α → β) {as as' : List α} (h : as.Perm as') :
    ((firstBy f as).map f).Perm ((firstBy f as').map f) := by
  rw [map_firstBy, map_firstBy]
  exact distinct_perm (h.map f)

end Distinct

namespace Entry

/-- What two entries collected is the same in some order. Of comments that differ in white space
alone, and of plurals, each may have another one. -/
structure CollectsSame (a b : Entry) : Prop where
  occurrences : a.occurrences.Perm b.occurrences
  flags : a.flags.Perm b.flags
  comments : (a.comments.map normalized).Perm (b.comments.map normalized)
  translatorComments : (a.translatorComments.map normalized).Perm
    (b.translatorComments.map normalized)
  pluralId : a.pluralId.isSome = b.pluralId.isSome

theorem distinctComments_perm {comments comments' : List String} (h : comments.Perm comments') :
    ((distinctComments comments).map normalized).Perm
      ((distinctComments comments').map normalized) :=
  map_firstBy_perm normalized (h.filter _)

theorem collectsSame_ofMessages (locations : Bool) (key : EntryKey)
    {messages messages' : List Message} (h : messages.Perm messages') :
    (ofMessages locations key messages).CollectsSame (ofMessages locations key messages') := by
  constructor
  · cases locations with
    | false => exact .refl _
    | true => exact distinct_perm (h.map _)
  · exact distinct_perm (h.flatMap_right _)
  · exact distinctComments_perm (h.map _)
  · exact distinctComments_perm (h.map _)
  · rw [Bool.eq_iff_iff, ofMessages, ofMessages, List.findSome?_isSome_iff,
      List.findSome?_isSome_iff]
    simp only [h.mem_iff]

end Entry

namespace Catalog

variable {messages messages' : List Message}

theorem mergeAll_eq_grouped (locations : Bool) (messages : List Message) :
    (empty locations).mergeAll messages = grouped locations messages :=
  mergeAll_grouped locations [] messages

theorem keys_grouped (locations : Bool) (messages : List Message) :
    (grouped locations messages).entries.map Entry.key = keysOf messages := by
  rw [grouped, List.map_map]
  exact List.map_id (keysOf messages)

theorem nodup_keysOf (messages : List Message) : (keysOf messages).Nodup :=
  nodup_distinct _

theorem keysOf_perm (h : messages.Perm messages') : (keysOf messages).Perm (keysOf messages') :=
  distinct_perm (h.map Message.key)

theorem collectsSame_entryOf (h : messages.Perm messages') (locations : Bool) (key : EntryKey) :
    (entryOf locations messages key).CollectsSame (entryOf locations messages' key) :=
  Entry.collectsSame_ofMessages locations key (h.filter _)

/-- Two catalogs have the same keys, under which they collected the same. By id, both list the keys
in one strictly increasing order. -/
structure CollectsSame (c c' : Catalog) : Prop where
  keys : (c.entries.map Entry.key).Perm (c'.entries.map Entry.key)
  entries : ∀ e ∈ c.entries, ∀ e' ∈ c'.entries, e.key = e'.key → e.CollectsSame e'
  listed : ∀ lines, (c.finalize .msgid lines).entries.map Entry.key =
    (c'.finalize .msgid lines).entries.map Entry.key
  increasing : ∀ lines, ((c.finalize .msgid lines).entries.map Entry.key).Pairwise
    fun a b => a.compare b = .lt

/-- Messages merged in any order give catalogs that collected the same. -/
theorem mergeAll_perm (h : messages.Perm messages') (locations : Bool) :
    ((empty locations).mergeAll messages).CollectsSame ((empty locations).mergeAll messages') := by
  rw [mergeAll_eq_grouped, mergeAll_eq_grouped]
  constructor
  · rw [keys_grouped, keys_grouped]
    exact keysOf_perm h
  · intro e he e' he' hkey
    obtain ⟨key, -, rfl⟩ := List.mem_map.1 he
    obtain ⟨key', -, rfl⟩ := List.mem_map.1 he'
    obtain rfl : key = key' := hkey
    exact collectsSame_entryOf h locations key
  · intro lines
    rw [keys_finalize, keys_finalize, keys_sortEntries_msgid, keys_sortEntries_msgid, keys_grouped,
      keys_grouped]
    exact sortBy_eq_iff_perm.2 (keysOf_perm h)
  · intro lines
    rw [keys_finalize, keys_sortEntries_msgid, keys_grouped]
    exact pairwise_lt_sortBy (nodup_keysOf messages)

/-- A greeting with a comment on two lines, and one with the same words on one line. -/
def greetings : List Message :=
  [{ id := "Hi", comment := "Greeting\nshown", flags := ["c-format"], location := ⟨"b.py", 5⟩ },
    { id := "Bye", location := ⟨"a.py", 2⟩ },
    { id := "Hi", comment := "Greeting shown", pluralId := some "Hi all", location := ⟨"a.py", 1⟩ }]

/-- Read backwards, the greeting keeps its other comment. -/
theorem mergeAll_perm_greetings :
    greetings.Perm greetings.reverse ∧
      ((empty true).mergeAll greetings).entries.map (·.comments) = [["Greeting\nshown"], []] ∧
      ((empty true).mergeAll greetings.reverse).entries.map (·.comments) =
        [["Greeting shown"], []] ∧
      (((empty true).mergeAll greetings.reverse).finalize .msgid true).entries.map Entry.key =
        [⟨"Bye", none⟩, ⟨"Hi", none⟩] := by
  have hperm : greetings.Perm greetings.reverse := (List.reverse_perm greetings).symm
  have hkeys : ((empty true).mergeAll greetings).entries.map Entry.key =
      [⟨"Hi", none⟩, ⟨"Bye", none⟩] := by decide
  refine ⟨hperm, by decide, by decide, ?_⟩
  rw [← (mergeAll_perm hperm true).listed true, keys_finalize, keys_sortEntries_msgid, hkeys]
  exact sortBy_eq_of_pairwise_lt (.swap _ _ _) (by decide)

end Catalog

end PotExtract
