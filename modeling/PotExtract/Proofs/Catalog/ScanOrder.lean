import PotExtract.Proofs.Catalog.MergeOrder

/-! Files scanned in two orders, and the entries sorted by their places. Entries with the same
places are left as they were found, so they stand in one order, whichever file is scanned first,
only if every file that has them has them in that order. -/

namespace PotExtract

open Text

section Pairs

variable {α : Type} {a b : α} {l l' : List α}

theorem pair_sublist_filter {p : α → Bool} (ha : p a) (hb : p b) :
    [a, b].Sublist (l.filter p) ↔ [a, b].Sublist l := by
  constructor
  · exact fun h => h.trans List.filter_sublist
  · intro h
    have hfilter : [a, b].filter p = [a, b] := by simp [ha, hb]
    exact hfilter ▸ h.filter p

variable [DecidableEq α]

theorem filter_pair_eq_nil (ha : a ∉ l) (hb : b ∉ l) : (l.filter fun x => x ∈ [a, b]) = [] := by
  refine List.filter_eq_nil_iff.2 fun x hx => ?_
  have hne : x ≠ a ∧ x ≠ b := ⟨fun h => ha (h ▸ hx), fun h => hb (h ▸ hx)⟩
  simpa using hne

theorem pair_sublist_filter_pair :
    [a, b].Sublist (l.filter fun x => x ∈ [a, b]) ↔ [a, b].Sublist l :=
  pair_sublist_filter (by simp) (by simp)

theorem pair_sublist_append_left (ha : a ∉ l') (hb : b ∉ l') :
    [a, b].Sublist (l ++ l') ↔ [a, b].Sublist l := by
  rw [← pair_sublist_filter_pair, List.filter_append, filter_pair_eq_nil ha hb, List.append_nil,
    pair_sublist_filter_pair]

theorem pair_sublist_append_right (ha : a ∉ l) (hb : b ∉ l) :
    [a, b].Sublist (l ++ l') ↔ [a, b].Sublist l' := by
  rw [← pair_sublist_filter_pair, List.filter_append, filter_pair_eq_nil ha hb, List.nil_append,
    pair_sublist_filter_pair]

theorem distinct_append (as bs : List α) :
    distinct (as ++ bs) = distinct as ++ (distinct bs).filter fun b => b ∉ distinct as := by
  simp only [mem_distinct]
  induction as with
  | nil => simp [distinct, firstBy]
  | cons a as ih =>
    simp only [distinct, firstBy, List.cons_append] at ih ⊢
    rw [ih, List.filter_append, List.filter_filter]
    simp

end Pairs

namespace Catalog

/-- The keys of the entries with their occurrences. -/
def rows (c : Catalog) : List (EntryKey × List Occurrence) :=
  c.entries.map fun e => (e.key, e.occurrences)

/-! ### Messages in two orders -/

section Messages

variable {messages messages' : List Message} {a b : EntryKey}

/-- The places of the messages with a key. -/
def placesOf (messages : List Message) (key : EntryKey) : List Occurrence :=
  (messages.filter (·.key = key)).map (·.occurrence)

/-- The places of a key in order. -/
def sortedPlaces (messages : List Message) (key : EntryKey) : List Occurrence :=
  sortBy Occurrence.compare (distinct (placesOf messages key))

/-- The order of keys by their places. -/
def comparePlaces (messages : List Message) (a b : EntryKey) : Ordering :=
  compareLists Occurrence.compare (sortedPlaces messages a) (sortedPlaces messages b)

instance (messages : List Message) : Std.TransCmp (comparePlaces messages) :=
  transCmp_on (sortedPlaces messages)

/-- Two keys have the same places. -/
def SamePlaces (messages : List Message) (a b : EntryKey) : Prop :=
  ∀ o, o ∈ placesOf messages a ↔ o ∈ placesOf messages b

theorem comparePlaces_eq_iff : comparePlaces messages a b = .eq ↔ SamePlaces messages a b := by
  rw [comparePlaces, Std.LawfulEqCmp.compare_eq_iff_eq, sortedPlaces, sortedPlaces,
    sortBy_eq_iff_perm, distinct_perm_iff, SamePlaces]

theorem placesOf_perm (h : messages.Perm messages') (key : EntryKey) :
    (placesOf messages key).Perm (placesOf messages' key) :=
  (h.filter _).map _

theorem sortedPlaces_perm (h : messages.Perm messages') :
    sortedPlaces messages = sortedPlaces messages' := by
  funext key
  exact sortBy_eq_iff_perm.2 (distinct_perm (placesOf_perm h key))

/-- Occurrences with their lines or without. -/
def shown (lines : Bool) (occurrences : List Occurrence) : List Occurrence :=
  if lines then occurrences
  else (distinct (occurrences.map (·.file))).map fun file => ⟨file, none⟩

/-- Sorted by places, the keys stand in the order of their places, and those with the same places
in the order in which they were found. -/
theorem rows_mergeAll (messages : List Message) (lines : Bool) :
    (((empty true).mergeAll messages).finalize .location lines).rows =
      (sortBy (comparePlaces messages) (keysOf messages)).map fun key =>
        (key, shown lines (sortedPlaces messages key)) := by
  let entry (key : EntryKey) : Entry := (entryOf true messages key).inOrder .location
  have hsorted : sortEntries .location (grouped true messages).entries =
      (sortBy (comparePlaces messages) (keysOf messages)).map entry := by
    show sortBy _ (((keysOf messages).map (entryOf true messages)).map
      (Entry.inOrder .location)) = _
    rw [List.map_map]
    exact (map_sortBy (f := entry) fun _ _ _ _ => rfl).symm
  rw [rows, mergeAll_eq_grouped, entries_finalize, hsorted]
  cases lines with
  | true =>
    rw [if_pos rfl, List.map_map]
    rfl
  | false =>
    rw [if_neg Bool.false_ne_true, List.map_map, List.map_map]
    rfl

/-- The rows are the same for both orders only if keys with the same places are found in the same
order in both. -/
theorem rows_mergeAll_eq_iff (h : messages.Perm messages') (lines : Bool) :
    (((empty true).mergeAll messages).finalize .location lines).rows =
        (((empty true).mergeAll messages').finalize .location lines).rows ↔
      ∀ a b, SamePlaces messages a b →
        ([a, b].Sublist (keysOf messages) ↔ [a, b].Sublist (keysOf messages')) := by
  have hinjective : Function.Injective fun key =>
      (key, shown lines (sortedPlaces messages key)) := fun _ _ h => congrArg Prod.fst h
  have hcompare : comparePlaces messages' = comparePlaces messages := by
    unfold comparePlaces
    rw [sortedPlaces_perm h]
  rw [rows_mergeAll, rows_mergeAll, ← sortedPlaces_perm h, hcompare,
    (List.map_injective_iff.2 hinjective).eq_iff,
    sortBy_eq_iff (nodup_keysOf messages) (keysOf_perm h)]
  simp only [comparePlaces_eq_iff]

/-- In any order the same keys have the same occurrences, and the occurrences stand in one order. -/
theorem rows_mergeAll_perm (h : messages.Perm messages') (lines : Bool) :
    let rows := (((empty true).mergeAll messages).finalize .location lines).rows
    let rows' := (((empty true).mergeAll messages').finalize .location lines).rows
    rows.Perm rows' ∧ rows.map Prod.snd = rows'.map Prod.snd := by
  intro rows rows'
  have hkeys : (sortBy (comparePlaces messages) (keysOf messages)).Perm
      (sortBy (comparePlaces messages') (keysOf messages')) :=
    ((sortBy_perm _ _).trans (keysOf_perm h)).trans (sortBy_perm _ _).symm
  have hsnd : ∀ messages : List Message,
      (((empty true).mergeAll messages).finalize .location lines).rows.map Prod.snd =
        (sortBy (compareLists Occurrence.compare)
          ((keysOf messages).map (sortedPlaces messages))).map (shown lines) := by
    intro messages
    rw [rows_mergeAll, List.map_map, ← map_sortBy (f := sortedPlaces messages) fun _ _ _ _ => rfl,
      List.map_map]
    rfl
  constructor
  · show (finalize _ _ _).rows.Perm (finalize _ _ _).rows
    rw [rows_mergeAll, rows_mergeAll, sortedPlaces_perm h]
    exact hkeys.map _
  · rw [hsnd, hsnd, sortedPlaces_perm h, sortBy_eq_iff_perm.2 ((keysOf_perm h).map _)]

end Messages

end Catalog

/-! ### Files in two orders -/

/-- A file with the messages that were found in it. -/
structure ScannedFile where
  path : String
  messages : List Message
  located : ∀ m ∈ messages, m.location.file = path

namespace ScannedFile

open Catalog

variable {files : List ScannedFile} {a b : EntryKey}

/-- The keys of the messages of a file as they are found. -/
def keys (f : ScannedFile) : List EntryKey :=
  keysOf f.messages

/-- The messages of files that are scanned one after the other. -/
def messagesOf (files : List ScannedFile) : List Message :=
  files.flatMap (·.messages)

/-- The catalog of files that are scanned one after the other, sorted by places. -/
def catalogOf (files : List ScannedFile) (lines : Bool) : Catalog :=
  (files.foldl (fun c f => c.mergeAll f.messages) (empty true)).finalize .location lines

theorem catalogOf_eq (files : List ScannedFile) (lines : Bool) :
    catalogOf files lines =
      ((empty true).mergeAll (messagesOf files)).finalize .location lines := by
  rw [catalogOf, mergeAll, messagesOf, List.foldl_flatMap]
  rfl

theorem keysOf_messagesOf_cons (f : ScannedFile) (files : List ScannedFile) :
    keysOf (messagesOf (f :: files)) =
      f.keys ++ (keysOf (messagesOf files)).filter fun key => key ∉ f.keys := by
  rw [keysOf, messagesOf, List.flatMap_cons, List.map_append, distinct_append]
  rfl

theorem mem_keys {f : ScannedFile} : a ∈ f.keys ↔ ∃ m ∈ f.messages, m.key = a := by
  rw [keys, keysOf, mem_distinct, List.mem_map]

/-- The first file that has two keys says which of them is found first. -/
theorem sublist_keysOf_iff (hsame : ∀ f ∈ files, a ∈ f.keys ↔ b ∈ f.keys) :
    [a, b].Sublist (keysOf (messagesOf files)) ↔
      ∃ f, files.find? (fun f => a ∈ f.keys) = some f ∧ [a, b].Sublist f.keys := by
  induction files with
  | nil => simp [messagesOf, keysOf, distinct, firstBy]
  | cons f files ih =>
    obtain ⟨hf, hfiles⟩ := List.forall_mem_cons.1 hsame
    rw [keysOf_messagesOf_cons]
    by_cases ha : a ∈ f.keys
    · have hdropped : ∀ key ∈ f.keys,
          key ∉ (keysOf (messagesOf files)).filter fun key => key ∉ f.keys := by simp_all
      rw [pair_sublist_append_left (hdropped a ha) (hdropped b (hf.1 ha)),
        List.find?_cons_of_pos (by simpa using ha)]
      simp
    · have hb : b ∉ f.keys := fun hb => ha (hf.2 hb)
      rw [pair_sublist_append_right ha hb,
        pair_sublist_filter (by simpa using ha) (by simpa using hb), ih hfiles,
        List.find?_cons_of_neg (by simpa using ha)]

/-- Files with different paths that have keys with the same places both have both. -/
theorem mem_keys_of_samePlaces (hpaths : (files.map (·.path)).Nodup)
    (hsame : SamePlaces (messagesOf files) a b) {f : ScannedFile} (hf : f ∈ files)
    (ha : a ∈ f.keys) : b ∈ f.keys := by
  obtain ⟨m, hm, rfl⟩ := mem_keys.1 ha
  have hplace : m.occurrence ∈ placesOf (messagesOf files) m.key := by
    refine List.mem_map_of_mem (List.mem_filter.2 ⟨?_, by simp⟩)
    exact List.mem_flatMap.2 ⟨f, hf, hm⟩
  obtain ⟨m', hm', hoccurrence⟩ := List.mem_map.1 ((hsame _).1 hplace)
  obtain ⟨hm', hkey⟩ := List.mem_filter.1 hm'
  obtain ⟨g, hg, hm'⟩ := List.mem_flatMap.1 hm'
  have hpath : g.path = f.path := by
    rw [← g.located m' hm', ← f.located m hm]
    exact congrArg Occurrence.file hoccurrence
  rw [← List.inj_on_of_nodup_map hpaths hg hf hpath]
  exact mem_keys.2 ⟨m', hm', by simpa using hkey⟩

theorem messagesOf_perm {files' : List ScannedFile} (h : files.Perm files') :
    (messagesOf files).Perm (messagesOf files') :=
  h.flatMap_right _

theorem samePlaces_perm {messages messages' : List Message} (h : messages.Perm messages') :
    SamePlaces messages a b ↔ SamePlaces messages' a b := by
  simp only [SamePlaces, (placesOf_perm h _).mem_iff]

section Orders

variable {fs gs : List ScannedFile}

/-- In files that are scanned in some order, the first that has keys with the same places says which
of them is found first. -/
theorem sublist_keysOf_of_samePlaces (hpaths : (files.map (·.path)).Nodup) (hfs : fs.Perm files)
    (hsame : SamePlaces (messagesOf files) a b) :
    [a, b].Sublist (keysOf (messagesOf fs)) ↔
      ∃ f, fs.find? (fun f => a ∈ f.keys) = some f ∧ [a, b].Sublist f.keys := by
  refine sublist_keysOf_iff fun f hf => ?_
  have hmem : f ∈ files := hfs.mem_iff.1 hf
  exact ⟨mem_keys_of_samePlaces hpaths hsame hmem,
    mem_keys_of_samePlaces hpaths (fun o => (hsame o).symm) hmem⟩

theorem rows_catalogOf_eq_iff (hfs : fs.Perm files) (hgs : gs.Perm files) (lines : Bool) :
    (catalogOf fs lines).rows = (catalogOf gs lines).rows ↔
      ∀ a b, SamePlaces (messagesOf files) a b →
        ([a, b].Sublist (keysOf (messagesOf fs)) ↔ [a, b].Sublist (keysOf (messagesOf gs))) := by
  rw [catalogOf_eq, catalogOf_eq, rows_mergeAll_eq_iff (messagesOf_perm (hfs.trans hgs.symm))]
  simp only [samePlaces_perm (messagesOf_perm hfs)]

/-- Of two keys, the files that have them find the same one first. -/
def FoundAlike (files : List ScannedFile) (a b : EntryKey) : Prop :=
  ∀ f ∈ files, ∀ g ∈ files, a ∈ f.keys → a ∈ g.keys →
    ([a, b].Sublist f.keys ↔ [a, b].Sublist g.keys)

theorem sublist_keysOf_of_foundAlike (hpaths : (files.map (·.path)).Nodup) (hfs : fs.Perm files)
    (hgs : gs.Perm files) (hsame : SamePlaces (messagesOf files) a b)
    (halike : FoundAlike files a b) (h : [a, b].Sublist (keysOf (messagesOf fs))) :
    [a, b].Sublist (keysOf (messagesOf gs)) := by
  obtain ⟨f, hfind, hpair⟩ := (sublist_keysOf_of_samePlaces hpaths hfs hsame).1 h
  have hf : f ∈ files := hfs.mem_iff.1 (List.mem_of_find?_eq_some hfind)
  have haf : a ∈ f.keys := by simpa using List.find?_some hfind
  have hsome : (gs.find? fun f => a ∈ f.keys).isSome :=
    List.find?_isSome.2 ⟨f, hgs.mem_iff.2 hf, by simpa using haf⟩
  obtain ⟨g, hfind'⟩ := Option.isSome_iff_exists.1 hsome
  have hg : g ∈ files := hgs.mem_iff.1 (List.mem_of_find?_eq_some hfind')
  have hag : a ∈ g.keys := by simpa using List.find?_some hfind'
  have hpair' := (halike f hf g hg haf hag).1 hpair
  exact (sublist_keysOf_of_samePlaces hpaths hgs hsame).2 ⟨g, hfind', hpair'⟩

theorem exists_cons_perm {f : ScannedFile} (hf : f ∈ files) : ∃ fs, (f :: fs).Perm files := by
  obtain ⟨front, back, rfl⟩ := List.append_of_mem hf
  exact ⟨front ++ back, List.perm_middle.symm⟩

theorem sublist_keysOf_cons {f : ScannedFile} (hpaths : (files.map (·.path)).Nodup)
    (hfs : (f :: fs).Perm files) (hsame : SamePlaces (messagesOf files) a b) (ha : a ∈ f.keys) :
    [a, b].Sublist (keysOf (messagesOf (f :: fs))) ↔ [a, b].Sublist f.keys := by
  rw [sublist_keysOf_of_samePlaces hpaths hfs hsame, List.find?_cons_of_pos (by simpa using ha)]
  simp

/-- In whatever order files are scanned, the catalog has the same keys with the same occurrences,
and the occurrences stand in the same order. The keys do so exactly if any two that have the same
places are found in the same order in all files that have them. -/
theorem rows_catalogOf_iff (hpaths : (files.map (·.path)).Nodup) (lines : Bool) :
    (∀ fs gs : List ScannedFile, fs.Perm files → gs.Perm files →
      (catalogOf fs lines).rows.Perm (catalogOf gs lines).rows ∧
        (catalogOf fs lines).rows.map Prod.snd = (catalogOf gs lines).rows.map Prod.snd) ∧
    ((∀ fs gs : List ScannedFile, fs.Perm files → gs.Perm files →
        (catalogOf fs lines).rows = (catalogOf gs lines).rows) ↔
      ∀ a b, SamePlaces (messagesOf files) a b → FoundAlike files a b) := by
  constructor
  · intro fs gs hfs hgs
    rw [catalogOf_eq, catalogOf_eq]
    exact rows_mergeAll_perm (messagesOf_perm (hfs.trans hgs.symm)) lines
  constructor
  · intro hall a b hsame f hf g hg haf hag
    -- one order begins with `f`, the other with `g`
    obtain ⟨fs, hfs⟩ := exists_cons_perm hf
    obtain ⟨gs, hgs⟩ := exists_cons_perm hg
    have hpair := (rows_catalogOf_eq_iff hfs hgs lines).1 (hall _ _ hfs hgs) a b hsame
    rwa [sublist_keysOf_cons hpaths hfs hsame haf,
      sublist_keysOf_cons hpaths hgs hsame hag] at hpair
  · intro halike fs gs hfs hgs
    refine (rows_catalogOf_eq_iff hfs hgs lines).2 fun a b hsame => ?_
    exact ⟨sublist_keysOf_of_foundAlike hpaths hfs hgs hsame (halike a b hsame),
      sublist_keysOf_of_foundAlike hpaths hgs hfs hsame (halike a b hsame)⟩

end Orders

/-- A file whose two messages stand on one line, `first` in front of `second`. -/
def onOneLine (path first second : String) : ScannedFile where
  path := path
  messages := [{ id := first, location := ⟨path, 1⟩ }, { id := second, location := ⟨path, 1⟩ }]
  located := by simp

theorem rows_catalogOf_iff_alike :
    let files := [onOneLine "a.py" "x" "y", onOneLine "b.py" "x" "y"]
    (files.map (·.path)).Nodup ∧ ∀ fs gs : List ScannedFile, fs.Perm files → gs.Perm files →
      (catalogOf fs true).rows = (catalogOf gs true).rows := by
  intro files
  have hpaths : (files.map (·.path)).Nodup := by decide
  have hkeys : ∀ f ∈ files, f.keys = [⟨"x", none⟩, ⟨"y", none⟩] := by
    simp only [files, List.forall_mem_cons]
    exact ⟨rfl, rfl, by simp⟩
  refine ⟨hpaths, (rows_catalogOf_iff hpaths true).2.2 ?_⟩
  intro a b _ f hf g hg _ _
  rw [hkeys f hf, hkeys g hg]

/-- Two files that have two messages on one line each, but not in the same order: the file that is
scanned first decides the order in the catalog. -/
theorem rows_catalogOf_ne :
    (catalogOf [onOneLine "a.py" "x" "y", onOneLine "b.py" "y" "x"] true).rows ≠
      (catalogOf [onOneLine "b.py" "y" "x", onOneLine "a.py" "x" "y"] true).rows := by
  intro hrows
  have hswap : [onOneLine "b.py" "y" "x", onOneLine "a.py" "x" "y"].Perm
      [onOneLine "a.py" "x" "y", onOneLine "b.py" "y" "x"] := .swap _ _ _
  have hpair := (rows_catalogOf_eq_iff (.refl _) hswap true).1 hrows ⟨"x", none⟩ ⟨"y", none⟩
    fun _ => .rfl
  revert hpair
  decide

end ScannedFile

end PotExtract
