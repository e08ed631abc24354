import PotExtract.Proofs.Catalog.Entries

/-! Merging as grouping. A catalog that messages are merged into one by one has an entry for each
key among them, in the order in which the keys occur first, and an entry can be read off all
messages with its key at once. -/

namespace PotExtract

section Distinct

variable {α β : Type} [DecidableEq β]

/-- The elements whose image under `f` no element in front of them has. -/
def firstBy (f : α → β) : List α → List α
  | [] => []
  | a :: as => a :: (firstBy f as).filter fun b => f b ≠ f a

/-- The elements in the order in which they occur first. -/
def distinct : List β → List β :=
  firstBy fun b => b

theorem firstBy_concat (f : α → β) (as : List α) (a : α) :
    firstBy f (as ++ [a]) =
      if f a ∈ as.map f then firstBy f as else firstBy f as ++ [a] := by
  induction as with
  | nil => simp [firstBy]
  | cons b as ih =>
    rw [List.cons_append, firstBy, ih]
    by_cases hb : f a = f b
    · have hmem : f a ∈ (b :: as).map f := by simp [hb]
      rw [if_pos hmem, firstBy]
      split
      · rfl
      · simp [hb]
    · have hiff : f a ∈ (b :: as).map f ↔ f a ∈ as.map f := by simp [hb]
      simp only [hiff, firstBy]
      split
      · rfl
      · simp [hb]

theorem map_firstBy (f : α → β) (as : List α) : (firstBy f as).map f = distinct (as.map f) := by
  induction as with
  | nil => rfl
  | cons a as ih =>
    simp only [distinct, firstBy, List.map_cons] at ih ⊢
    rw [← ih, List.filter_map]
    rfl

theorem mem_distinct {b : β} {bs : List β} : b ∈ distinct bs ↔ b ∈ bs := by
  induction bs with
  | nil => rfl
  | cons c bs ih =>
    simp only [distinct, firstBy, List.mem_cons, List.mem_filter] at ih ⊢
    rw [ih]
    by_cases h : b = c <;> simp [h]

theorem nodup_distinct (bs : List β) : (distinct bs).Nodup := by
  induction bs with
  | nil => exact List.nodup_nil
  | cons b bs ih => exact List.nodup_cons.2 ⟨by simp, ih.filter _⟩

theorem firstBy_sublist (f : α → β) (as : List α) : (firstBy f as).Sublist as := by
  induction as with
  | nil => exact List.Sublist.slnil
  | cons a as ih => exact (List.filter_sublist.trans ih).cons_cons a

theorem distinct_sublist (bs : List β) : (distinct bs).Sublist bs :=
  firstBy_sublist (fun b => b) bs

theorem distinct_eq_self {bs : List β} (h : bs.Nodup) : distinct bs = bs := by
  induction bs with
  | nil => rfl
  | cons b bs ih =>
    obtain ⟨hb, hrest⟩ := List.nodup_cons.1 h
    show b :: (distinct bs).filter (fun c => c ≠ b) = b :: bs
    rw [ih hrest, List.filter_eq_self.2]
    intro c hc
    exact decide_eq_true fun heq => hb (heq ▸ hc)

theorem distinct_concat (bs : List β) (b : β) :
    distinct (bs ++ [b]) = if b ∈ distinct bs then distinct bs else distinct bs ++ [b] := by
  simp only [mem_distinct]
  have h := firstBy_concat (fun b : β => b) bs b
  rwa [List.map_id'] at h

/-- Elements added in turn, each unless it is there, to elements that were put together so. -/
theorem foldl_distinct (add : List β → β → List β)
    (hadd : ∀ bs b, add bs b = if b ∈ bs then bs else bs ++ [b]) (bs new : List β) :
    new.foldl add (distinct bs) = distinct (bs ++ new) := by
  induction new generalizing bs with
  | nil => rw [List.append_nil, List.foldl_nil]
  | cons b new ih =>
    rw [List.foldl_cons, hadd, ← distinct_concat, ih, List.append_assoc, List.singleton_append]

/-- Elements that come with nothing new can be left out. -/
theorem firstBy_append_of_covered {f : α → β} {as bs : List α} (cs : List α)
    (h : ∀ b ∈ bs, f b ∈ as.map f) : firstBy f (as ++ bs ++ cs) = firstBy f (as ++ cs) := by
  have hmem : ∀ x : β, x ∈ (as ++ bs).map f ↔ x ∈ as.map f := by
    intro x
    rw [List.map_append, List.mem_append, or_iff_left_of_imp]
    intro hx
    obtain ⟨b, hb, rfl⟩ := List.mem_map.1 hx
    exact h b hb
  induction cs using List.reverseRecOn with
  | nil =>
    clear hmem
    rw [List.append_nil, List.append_nil]
    induction bs using List.reverseRecOn with
    | nil => rw [List.append_nil]
    | append_singleton bs b ih =>
      obtain ⟨hbs, hb⟩ := List.forall_mem_append.1 h
      have hcovered : f b ∈ (as ++ bs).map f := by
        rw [List.map_append]
        exact List.mem_append_left _ (hb b (List.mem_singleton_self b))
      rw [← List.append_assoc, firstBy_concat, if_pos hcovered, ih hbs]
  | append_singleton cs c ih =>
    have hiff : f c ∈ (as ++ bs ++ cs).map f ↔ f c ∈ (as ++ cs).map f := by
      rw [List.map_append, List.mem_append, hmem, ← List.mem_append, ← List.map_append]
    rw [← List.append_assoc, ← List.append_assoc, firstBy_concat, firstBy_concat, ih]
    simp only [hiff]

theorem distinct_map {f : α → β} [DecidableEq α] (hf : Function.Injective f) (as : List α) :
    distinct (as.map f) = (distinct as).map f := by
  induction as with
  | nil => rfl
  | cons a as ih =>
    have hfilter : (fun b => decide (f b ≠ f a)) = fun b => decide (b ≠ a) := by
      funext b
      simp [hf.eq_iff]
    simp only [distinct, firstBy, List.map_cons] at ih ⊢
    rw [ih, List.filter_map]
    exact congrArg (fun p => f a :: ((firstBy (fun b => b) as).filter p).map f) hfilter

end Distinct

/-- What tells messages apart in a catalog. -/
def Message.key (m : Message) : EntryKey :=
  ⟨m.id, m.context⟩

/-- The place of a message as an occurrence. -/
def Message.occurrence (m : Message) : Occurrence :=
  ⟨m.location.file, some m.location.line⟩

theorem addFlags_distinct (flags new : List String) :
    addFlags (distinct flags) new = distinct (flags ++ new) :=
  foldl_distinct addFlag (fun _ _ => rfl) flags new

namespace Entry

/-- The comments that are not empty, each where it occurs first up to white space. -/
def distinctComments (comments : List String) : List String :=
  firstBy normalized (comments.filter fun c => !c.isEmpty)

/-- The entry that all messages with a key come to. -/
def ofMessages (locations : Bool) (key : EntryKey) (messages : List Message) : Entry where
  id := key.id
  context := key.context
  pluralId := messages.findSome? (·.pluralId)
  flags := distinct (messages.flatMap (·.flags))
  occurrences := if locations then distinct (messages.map (·.occurrence)) else []
  comments := distinctComments (messages.map (·.comment))
  translatorComments := distinctComments (messages.map (·.translatorComment))

theorem addComment_distinctComments (comments : List String) (comment : String) :
    addComment (distinctComments comments) comment = distinctComments (comments ++ [comment]) := by
  unfold addComment distinctComments
  rw [List.filter_append]
  by_cases hempty : comment.isEmpty
  · simp [hempty]
  · have hfilter : [comment].filter (fun c => !c.isEmpty) = [comment] := by simp [hempty]
    rw [hfilter, firstBy_concat]
    simp only [hempty, map_firstBy, mem_distinct, false_or, Bool.false_eq_true]

/-- An entry absorbs one more message with its key. -/
theorem absorb_ofMessages (locations : Bool) (key : EntryKey) (messages : List Message)
    (m : Message) :
    (ofMessages locations key messages).absorb locations m =
      ofMessages locations key (messages ++ [m]) := by
  have hplural : (messages ++ [m]).findSome? (·.pluralId) =
      (messages.findSome? (·.pluralId)).or m.pluralId := by
    rw [List.findSome?_append]
    cases h : m.pluralId <;> simp [h]
  unfold absorb ofMessages
  rw [hplural]
  simp only [List.map_append, List.map_singleton, List.flatMap_append, List.flatMap_singleton,
    addFlags_distinct, addComment_distinctComments]
  cases locations with
  | false => rfl
  | true =>
    simp only [if_true, distinct_concat]
    rfl

end Entry

namespace Catalog

/-- The keys of messages in the order of their first occurrence. -/
def keysOf (messages : List Message) : List EntryKey :=
  distinct (messages.map Message.key)

/-- The entry of a key among messages. -/
def entryOf (locations : Bool) (messages : List Message) (key : EntryKey) : Entry :=
  Entry.ofMessages locations key (messages.filter (·.key = key))

theorem entryOf_concat (locations : Bool) (messages : List Message) (m : Message) (key : EntryKey) :
    entryOf locations (messages ++ [m]) key =
      if m.key = key then (entryOf locations messages key).absorb locations m
      else entryOf locations messages key := by
  unfold entryOf
  rw [List.filter_append]
  split
  · next h =>
    rw [Entry.absorb_ofMessages, List.filter_cons_of_pos (by simpa using h), List.filter_nil]
  · next h =>
    rw [List.filter_cons_of_neg (by simpa using h), List.filter_nil, List.append_nil]

theorem modify_map {keys : List EntryKey} (hkeys : keys.Nodup) {i : Nat} {key : EntryKey}
    (hi : keys[i]? = some key) (entry : EntryKey → Entry) (f : Entry → Entry) :
    (keys.map entry).modify i f = keys.map fun k => if key = k then f (entry k) else entry k := by
  apply List.ext_getElem?
  intro j
  rw [List.getElem?_modify, List.getElem?_map, List.getElem?_map]
  cases hj : keys[j]? with
  | none => rfl
  | some k =>
    have hij : i = j ↔ key = k := by
      constructor
      · rintro rfl
        exact Option.some.inj (hi.symm.trans hj)
      · rintro rfl
        obtain ⟨hlt, -⟩ := List.getElem?_eq_some_iff.1 hi
        exact (List.getElem?_inj hlt hkeys).1 (hi.trans hj.symm)
    by_cases hk : key = k
    · simp [hij, hk]
    · simp [hij, hk]

/-- A message goes to the entry of its key, or becomes the last entry. -/
theorem entries_merge {c : Catalog} (hc : c.IsIndexed) {keys : List EntryKey}
    {entry : EntryKey → Entry} (hentry : ∀ key, (entry key).key = key)
    (hentries : c.entries = keys.map entry) (m : Message) :
    (c.merge m).entries =
      if m.key ∈ keys then
        keys.map fun key => if m.key = key then (entry key).absorb c.locations m else entry key
      else keys.map entry ++ [(Entry.ofMessages c.locations m.key []).absorb c.locations m] := by
  have hmap : c.entries.map Entry.key = keys := by
    rw [hentries, List.map_map]
    exact (List.map_congr_left fun key _ => hentry key).trans (List.map_id keys)
  have hkeys : keys.Nodup := hmap ▸ hc.keys
  unfold merge
  split
  · next i hi =>
    obtain ⟨e, he, hkey⟩ := hc.index?_eq_some.1 hi
    have hget : keys[i]? = some m.key := by
      rw [← hmap, List.getElem?_map, he]
      exact congrArg some hkey
    rw [if_pos (List.mem_of_getElem? hget), hentries,
      modify_map hkeys hget entry fun e => e.absorb c.locations m]
  · next hnone =>
    have hmem : m.key ∉ keys := by
      have h := hc.index?_eq_none.1 hnone
      rwa [hmap] at h
    rw [if_neg hmem, append, hentries]
    cases c.locations <;> rfl

/-- The catalog that has read all messages at once. -/
def grouped (locations : Bool) (messages : List Message) : Catalog where
  entries := (keysOf messages).map (entryOf locations messages)
  locations := locations

theorem keysOf_concat (messages : List Message) (m : Message) :
    keysOf (messages ++ [m]) =
      if m.key ∈ keysOf messages then keysOf messages else keysOf messages ++ [m.key] := by
  unfold keysOf
  rw [List.map_append, List.map_singleton, distinct_concat]

theorem filter_key_eq_nil {messages : List Message} {key : EntryKey} (h : key ∉ keysOf messages) :
    messages.filter (·.key = key) = [] := by
  apply List.filter_eq_nil_iff.2
  intro m hm hkey
  apply h
  exact mem_distinct.2 (List.mem_map.2 ⟨m, hm, by simpa using hkey⟩)

theorem isIndexed_grouped (locations : Bool) (messages : List Message) :
    (grouped locations messages).IsIndexed := by
  refine ⟨?_, rfl⟩
  rw [grouped, List.map_map]
  exact (List.map_id (keysOf messages)).symm ▸ nodup_distinct _

theorem merge_grouped (locations : Bool) (messages : List Message) (m : Message) :
    (grouped locations messages).merge m = grouped locations (messages ++ [m]) := by
  have hindexed := isIndexed_grouped locations messages
  apply (hindexed.merge m).eq (isIndexed_grouped locations (messages ++ [m]))
  swap
  · exact locations_merge _ m
  have hentries : (keysOf messages).map (entryOf locations (messages ++ [m])) =
      (keysOf messages).map fun key =>
        if m.key = key then (entryOf locations messages key).absorb locations m
        else entryOf locations messages key :=
    List.map_congr_left fun key _ => entryOf_concat locations messages m key
  rw [entries_merge hindexed (fun _ => rfl) rfl m]
  unfold grouped
  rw [keysOf_concat]
  by_cases hmem : m.key ∈ keysOf messages
  · rw [if_pos hmem, if_pos hmem, hentries]
  · have hnew : entryOf locations messages m.key = Entry.ofMessages locations m.key [] := by
      rw [entryOf, filter_key_eq_nil hmem]
    have hothers : (keysOf messages).map (entryOf locations (messages ++ [m])) =
        (keysOf messages).map (entryOf locations messages) := by
      rw [hentries]
      apply List.map_congr_left
      intro key hkey
      rw [if_neg]
      rintro rfl
      exact hmem hkey
    rw [if_neg hmem, if_neg hmem, List.map_append, List.map_singleton, hothers, entryOf_concat,
      if_pos rfl, hnew]

theorem mergeAll_grouped (locations : Bool) (messages new : List Message) :
    (grouped locations messages).mergeAll new = grouped locations (messages ++ new) := by
  induction new generalizing messages with
  | nil => rw [List.append_nil, mergeAll, List.foldl_nil]
  | cons m new ih =>
    show ((grouped locations messages).merge m).mergeAll new = _
    rw [merge_grouped, ih, List.append_assoc, List.singleton_append]

/-- Merging messages one by one groups them: there is one entry for each key, in the order of first
occurrence, and it is put together from all messages with that key. -/
theorem mergeAll_empty (locations : Bool) (messages : List Message) :
    (empty locations).mergeAll messages =
      { entries := (distinct (messages.map Message.key)).map fun key =>
          Entry.ofMessages locations key (messages.filter (·.key = key)),
        locations } :=
  mergeAll_grouped locations [] messages

end Catalog

end PotExtract
