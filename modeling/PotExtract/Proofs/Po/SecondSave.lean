import PotExtract.Proofs.Po.DraftedSave
import PotExtract.Proofs.Po.LoadedEntries
import PotExtract.Proofs.Po.TemplateHeader

/-! Saving a catalog twice. The second save finds what the first one wrote to say the same, and
leaves it, if every entry may be loaded from a file and no two are written under the same key;
otherwise it does not take the catalog to be there. -/

namespace PotExtract

open Text Po

/-- A catalog that is found again in a file it was written to. -/
structure Catalog.IsRestorable (c : Catalog) : Prop where
  entries : ∀ e ∈ c.entries, e.IsLoadable
  keys : (recordKeys c).Nodup

instance (c : Catalog) : Decidable c.IsRestorable :=
  decidable_of_iff ((∀ e ∈ c.entries, e.IsLoadable) ∧ (recordKeys c).Nodup)
    ⟨fun h => ⟨h.1, h.2⟩, fun h => ⟨h.1, h.2⟩⟩

namespace Po

/-- No line of the texts of an entry is taken for one of the header's fields. -/
def HasPlainLines (c : Catalog) : Prop :=
  ∀ e ∈ c.entries, ∀ l ∈ fieldsOf (Record.ofEntry e), IsPlainLine l

instance (c : Catalog) : Decidable (HasPlainLines c) :=
  inferInstanceAs (Decidable (∀ e ∈ c.entries, ∀ l ∈ fieldsOf (Record.ofEntry e), IsPlainLine l))

/-! ### The lines of a template -/

theorem exists_of_mem_fieldsOf {r : Record} {line : List Char} (h : line ∈ fieldsOf r) :
    ∃ name text, '\n' ∉ name ∧ line ∈ fieldLines name text := by
  unfold fieldsOf at h
  rcases List.mem_append.1 h with h | h
  · rcases List.mem_append.1 h with h | h
    · split at h
      · cases h
      · exact ⟨_, _, by decide, h⟩
    · exact ⟨_, _, by decide, h⟩
  split at h
  · exact ⟨_, _, by decide, h⟩
  · rcases List.mem_append.1 h with h | h
    · rcases List.mem_append.1 h with h | h
      · exact ⟨_, _, by decide, h⟩
      · exact ⟨_, _, by decide, h⟩
    · exact ⟨_, _, by decide, h⟩

theorem of_mem_noteLines {mark note : String} (hhead : mark.toList.head? = some '#')
    (hmark : '\n' ∉ mark.toList) {line : List Char} (h : line ∈ noteLines mark note) :
    line.head? = some '#' ∧ '\n' ∉ line := by
  obtain ⟨ls, hlines, hfeed, -⟩ := exists_noteLines_eq mark note
  rw [hlines] at h
  obtain ⟨l, hl, rfl⟩ := List.mem_map.1 h
  constructor
  · rw [List.head?_append, hhead]
    rfl
  · rw [List.mem_append, not_or]
    exact ⟨hmark, hfeed l hl⟩

theorem of_mem_annotationLines {r : Record} (hflags : ∀ f ∈ r.flags, IsFlag f) {line : List Char}
    (h : line ∈ annotationLines r) : line.head? = some '#' ∧ '\n' ∉ line := by
  unfold annotationLines at h
  rcases List.mem_append.1 h with h | h
  · rcases List.mem_append.1 h with h | h
    · exact of_mem_noteLines rfl (by decide) h
    · exact of_mem_noteLines rfl (by decide) h
  · split at h
    · cases h
    · rw [List.mem_singleton.1 h]
      refine ⟨rfl, ?_⟩
      rw [List.mem_append, not_or]
      exact ⟨by decide, not_mem_intercalate hflags⟩

theorem of_mem_recordLines {records : List Record} (hreadable : ∀ r ∈ records, r.IsReadable)
    (hplain : ∀ r ∈ records, ∀ l ∈ fieldsOf r, IsPlainLine l) {line : List Char}
    (h : line ∈ recordLines records) : IsPlainLine line ∧ '\n' ∉ line := by
  obtain ⟨r, hr, h⟩ := List.mem_flatMap.1 h
  rcases List.mem_append.1 h with h | h
  · rcases List.mem_append.1 h with h | h
    · obtain ⟨hhead, hfeed⟩ := of_mem_annotationLines (hreadable r hr).flags h
      refine ⟨IsPlainLine.of_head ?_, hfeed⟩
      rw [hhead]
      decide
    · obtain ⟨name, text, hname, hline⟩ := exists_of_mem_fieldsOf h
      exact ⟨hplain r hr line h, (of_mem_fieldLines hname hline).1⟩
  · rw [List.mem_singleton.1 h]
    exact ⟨⟨rfl, rfl⟩, by simp⟩

theorem isReadable_ofEntry {e : Entry} (he : e.IsScanned) (hloadable : e.IsLoadable) :
    (Record.ofEntry e).IsReadable := by
  refine ⟨hloadable.plural, ?_⟩
  show ∀ f ∈ addFlags [] e.flags, IsFlag f
  rw [addFlags_nil he.flags]
  exact hloadable.flags

/-! ### Reading a template -/

section Template

variable {c : Catalog} {h : Header} {clock : Clock}

theorem exists_readCatalog_templateText (hc : c.IsScanned)
    (hloadable : ∀ e ∈ c.entries, e.IsLoadable) (hplain : HasPlainLines c) (hh : h.IsOneLine)
    (hyear : '\n' ∉ clock.year.toList) :
    ∃ read, readCatalog (templateText c h clock) = .ok (catalogOf read) ∧
      List.Forall₂ Record.Restores (recordsOf c) read := by
  have hreadable : ∀ r ∈ recordsOf c, r.IsReadable := by
    intro r hr
    obtain ⟨e, he, rfl⟩ := exists_of_mem_recordsOf hr
    exact isReadable_ofEntry (hc.entries e he) (hloadable e he)
  have hfields : ∀ r ∈ recordsOf c, ∀ l ∈ fieldsOf r, IsPlainLine l := by
    intro r hr
    obtain ⟨e, he, rfl⟩ := exists_of_mem_recordsOf hr
    exact hplain e he
  have hlines : ∀ l ∈ recordLines (recordsOf c), IsPlainLine l ∧ '\n' ∉ l :=
    fun l hl => of_mem_recordLines hreadable hfields hl
  obtain ⟨header, hheader, hrest⟩ := exists_readHeader?_decorateHeader hh hyear
    (fun l hl => (hlines l hl).1) fun l hl => (hlines l hl).2
  obtain ⟨read, hread, hall⟩ := readRecords_recordLines hreadable (nodup_recordsOf c)
  refine ⟨read, ?_, hall⟩
  have htext : templateText c h clock =
      decorateHeader h clock
        (unlines ([] :: (headerLines h clock ++ [] :: recordLines (recordsOf c)))) := by
    simp [templateText, plainText, plainLines, recordLines]
  have hbehind : lines (unlines ([] :: recordLines (recordsOf c))) =
      ([] :: recordLines (recordsOf c)).map chomp :=
    lines_flatMap (List.forall_mem_cons.2 ⟨by simp, fun l hl => (hlines l hl).2⟩)
  rw [readCatalog, htext, hheader]
  dsimp only
  rw [hrest, hbehind, hread]
  rfl

theorem live_catalogOf (records : List Record) :
    (catalogOf records).live = (catalogOf records).entries := by
  refine List.filter_eq_self.2 fun e he => ?_
  obtain ⟨r, -, rfl⟩ := List.mem_map.1 ((Catalog.sublist_ofEntries _).subset he)
  rfl

theorem map_statement_toEntry {entries : List Entry}
    (hentries : ∀ e ∈ entries, e.IsScanned ∧ e.IsLoadable) {read : List Record}
    (hall : List.Forall₂ Record.Restores (entries.map Record.ofEntry) read) :
    (read.map Record.toEntry).map Entry.statement = entries.map Entry.statement := by
  induction entries generalizing read with
  | nil =>
    cases hall
    rfl
  | cons e entries ih =>
    obtain ⟨he, hothers⟩ := List.forall_mem_cons.1 hentries
    cases hall with
    | cons hrecord hrest =>
      have hone := Entry.agrees_iff_statement.1 (agrees_toEntry he.1 he.2 hrecord)
      rw [List.map_cons, List.map_cons, List.map_cons, hone, ih hothers hrest]

theorem sameMessages_of_isRestorable (hc : c.IsScanned) (hrestorable : c.IsRestorable)
    {read : List Record} (hall : List.Forall₂ Record.Restores (recordsOf c) read) :
    (catalogOf read).sameMessages c := by
  rw [recordsOf_eq_map hrestorable.keys] at hall
  have hstatements := map_statement_toEntry
    (fun e he => ⟨hc.entries e he, hrestorable.entries e he⟩) hall
  have hentries : (catalogOf read).entries = read.map Record.toEntry := by
    apply Catalog.entries_ofEntries
    have hkeys := congrArg (List.map Sigma.fst) hstatements
    rw [Entry.map_fst_statement, Entry.map_fst_statement] at hkeys
    rw [hkeys]
    exact hc.keys
  have hnodup : ((catalogOf read).live.map Entry.key).Nodup :=
    Catalog.nodup_keys_live (Catalog.nodup_keys_ofEntries _)
  rw [Catalog.sameMessages_iff_perm hnodup, live_catalogOf, hc.live, hentries, hstatements]

theorem isRestorable_of_sameMessages (hc : c.IsScanned) (hplain : HasPlainLines c)
    (hh : h.IsOneLine) (hyear : '\n' ∉ clock.year.toList) {old : Catalog}
    (hread : readCatalog (templateText c h clock) = .ok old) (hsame : old.sameMessages c) :
    c.IsRestorable := by
  have hold : old.live = old.entries := by
    unfold readCatalog at hread
    split at hread
    · cases hread
    · obtain ⟨records, -, rfl⟩ := map_eq_ok.1 hread
      exact live_catalogOf records
  -- what is read of the template is only known once every entry is known to be loadable, and this
  -- follows from the file alone
  have hloadable : ∀ e ∈ c.entries, e.IsLoadable := by
    intro e he
    rw [← hc.live] at he
    obtain ⟨o, ho, hagrees⟩ := Catalog.exists_agrees_of_sameMessages hsame he
    rw [hold] at ho
    exact (isLoadable_of_readCatalog hread o ho).of_agrees hagrees
  obtain ⟨read, hread', hall⟩ :=
    exists_readCatalog_templateText hc hloadable hplain hh hyear
  obtain rfl := Except.ok.inj (hread'.symm.trans hread)
  refine ⟨hloadable, nodup_of_length_le_recordsOf ?_⟩
  have hlength := (Catalog.perm_of_sameMessages hsame).length_eq
  rw [List.length_map, List.length_map, live_catalogOf, hc.live] at hlength
  calc c.entries.length = (catalogOf read).entries.length := hlength.symm
    _ ≤ (read.map Record.toEntry).length := (Catalog.sublist_ofEntries _).length_le
    _ = (recordsOf c).length := by rw [List.length_map, hall.length_eq]

/-- A template says the same as its catalog only if the catalog can be restored. -/
theorem readCatalog_sameMessages_iff (hc : c.IsScanned) (hplain : HasPlainLines c)
    (hh : h.IsOneLine) (hyear : '\n' ∉ clock.year.toList) :
    (∃ old, readCatalog (templateText c h clock) = .ok old ∧ old.sameMessages c) ↔
      c.IsRestorable := by
  constructor
  · rintro ⟨old, hread, hsame⟩
    exact isRestorable_of_sameMessages hc hplain hh hyear hread hsame
  · intro hrestorable
    obtain ⟨read, hread, hall⟩ :=
      exists_readCatalog_templateText hc hrestorable.entries hplain hh hyear
    exact ⟨_, hread, sameMessages_of_isRestorable hc hrestorable hall⟩

end Template

/-! ### Saving again -/

section Saving

variable {d d' : Disk} {c : Catalog} {h : Header} {clock : Clock} {path : String}

theorem readText_save (hsave : save d clock c h path = (d', .ok .written)) :
    d'.hasFile path ∧ d'.readText path = .ok (templateText c h clock) := by
  rcases save_cases d clock c h path {} with ⟨e, -, heq⟩ | ⟨-, heq⟩ | ⟨-, heq⟩
  · cases hsave.symm.trans heq
  · cases hsave.symm.trans heq
  rw [heq] at hsave
  rcases writeCatalog_cases d clock c h path {} with ⟨e, heq⟩ | ⟨made, d'', -, heq, hreplace⟩
  · cases hsave.symm.trans heq
  · obtain ⟨rfl, -⟩ := Prod.mk.inj (hsave.symm.trans heq)
    exact ⟨Disk.hasFile_replaceFile hreplace, Disk.readText_replaceFile hreplace⟩

theorem save_unchanged_iff (d : Disk) (clock : Clock) (c : Catalog) (h : Header) (path : String) :
    save d clock c h path = (d, .ok .unchanged) ↔ isCurrent d c path = .ok true := by
  rcases save_cases d clock c h path {} with ⟨e, hcurrent, heq⟩ | ⟨hcurrent, heq⟩ | ⟨hcurrent, heq⟩
  · simp [hcurrent, heq]
  · simp [hcurrent, heq]
  · rw [heq, hcurrent]
    constructor
    · intro hwrite
      rcases writeCatalog_cases d clock c h path {} with ⟨e, heq⟩ | ⟨made, d', -, heq, -⟩
      · cases (Prod.mk.inj (hwrite.symm.trans heq)).2
      · cases (Prod.mk.inj (hwrite.symm.trans heq)).2
    · intro h
      cases h

/-- A host that refuses nothing has a scratch file for every text. -/
theorem parseText_eq {host : Host} (hhost : host.IsObliging) (d : Disk) (text : List Char) :
    parseText d text host = readCatalog text := by
  unfold parseText
  rw [hhost.answer_eq, hhost.answer_eq]
  cases hheader : readHeader? text with
  | none =>
    rw [readCatalog, hheader]
    rfl
  | some header => rfl

/-- A saved catalog is left as it is by the next save only if it can be restored. -/
theorem save_save_iff (hc : c.IsScanned) (hplain : HasPlainLines c) (hh : h.IsOneLine)
    (hyear : '\n' ∉ clock.year.toList) (hsave : save d clock c h path = (d', .ok .written))
    (h' : Header) (clock' : Clock) :
    save d' clock' c h' path = (d', .ok .unchanged) ↔ c.IsRestorable := by
  obtain ⟨hfile, htext⟩ := readText_save hsave
  rw [save_unchanged_iff, ← readCatalog_sameMessages_iff hc hplain hh hyear, isCurrent,
    if_pos hfile, load, Host.isObliging_default.answer_eq, htext]
  dsimp only
  rw [parseText_eq Host.isObliging_default]
  cases hread : readCatalog (templateText c h clock) with
  | ok old =>
    show Except.ok (old.sameMessages c) = .ok true ↔ _
    constructor
    · intro hsame
      exact ⟨old, rfl, Except.ok.inj hsame⟩
    · rintro ⟨old', hold, hsame⟩
      rw [Except.ok.inj hold, hsame]
  | error fault =>
    constructor
    · intro hcurrent
      cases fault <;> cases hcurrent
    · rintro ⟨old, hold, -⟩
      cases hold

/-- The catalog of scanned messages, saved twice: the second save leaves the disk as it is exactly
if the catalog can be restored. -/
theorem save_scanned_iff {messages : List Message}
    (hmessages : ∀ m ∈ messages, m.translatorComment = "") {locations lines : Bool}
    {order : SortOrder}
    (hc : ((Catalog.empty locations).mergeAll messages).finalize order lines = c)
    (hplain : HasPlainLines c) (hh : h.IsOneLine) (hyear : '\n' ∉ clock.year.toList)
    (hsave : save d clock c h path = (d', .ok .written)) (h' : Header) (clock' : Clock) :
    save d' clock' c h' path = (d', .ok .unchanged) ↔ c.IsRestorable := by
  have hscanned : c.IsScanned := by
    rw [← hc]
    exact (Catalog.isScanned_mergeAll hmessages (Catalog.isScanned_empty locations)).finalize
      order lines
  exact save_save_iff hscanned hplain hh hyear hsave h' clock'

/-- A message with a context, a plural, a flag and a comment. -/
def herdMessage : Message where
  context := some "farm"
  id := "one cow"
  pluralId := some "%d cows"
  flags := ["c-format"]
  comment := "A herd"
  location := ⟨"farm.py", 9⟩

/-- A message whose context is there but empty. -/
def blankContextMessage : Message where
  context := some ""
  id := "a"
  location := ⟨"a.py", 1⟩

/-- The catalog of one message. -/
def singleCatalog (m : Message) : Catalog :=
  ((Catalog.empty true).mergeAll [m]).finalize .none true

/-- The disk that an empty one becomes when the catalog of one message is saved on it. -/
def singleDisk (m : Message) (clock : Clock) : Disk where
  nodes := [(["out.pot"], .file (encodeUtf8 (templateText (singleCatalog m) {} clock)))]

theorem save_singleCatalog (m : Message) (clock : Clock) :
    save {} clock (singleCatalog m) {} "out.pot" = (singleDisk m clock, .ok .written) := by
  have hcurrent : isCurrent {} (singleCatalog m) "out.pot" = .ok false := rfl
  have hmade : ({} : Disk).makeDirectories (directoryOf "out.pot") = ({}, .ok ()) := rfl
  have hdirectory : ({} : Disk).hasDirectory (directoryOf "out.pot") := rfl
  rw [save_eq Host.isObliging_default hcurrent hmade hdirectory]
  rfl

theorem save_scanned_herd :
    let clock : Clock := ⟨"2024-05-01 08:00+0000", "2024"⟩
    save {} clock (singleCatalog herdMessage) {} "out.pot" =
        (singleDisk herdMessage clock, .ok .written) ∧
      save (singleDisk herdMessage clock) clock (singleCatalog herdMessage) {} "out.pot" =
        (singleDisk herdMessage clock, .ok .unchanged) := by
  intro clock
  have hsave := save_singleCatalog herdMessage clock
  have hmessages : ∀ m ∈ [herdMessage], m.translatorComment = "" := by decide
  have hplain : HasPlainLines (singleCatalog herdMessage) := by decide
  have hh : Header.IsOneLine {} := ⟨by decide, by simp, by simp⟩
  have hrestorable : (singleCatalog herdMessage).IsRestorable := by decide
  exact ⟨hsave, (save_scanned_iff hmessages rfl hplain hh (by decide) hsave {} clock).2 hrestorable⟩

/-- The empty context is not found again, so the catalog is written once more. -/
theorem save_scanned_blankContext :
    let clock : Clock := ⟨"2024-05-01 08:00+0000", "2024"⟩
    save {} clock (singleCatalog blankContextMessage) {} "out.pot" =
        (singleDisk blankContextMessage clock, .ok .written) ∧
      save (singleDisk blankContextMessage clock) clock (singleCatalog blankContextMessage) {}
        "out.pot" ≠ (singleDisk blankContextMessage clock, .ok .unchanged) := by
  intro clock
  have hsave := save_singleCatalog blankContextMessage clock
  have hc : (singleCatalog blankContextMessage).IsScanned :=
    (Catalog.isScanned_mergeAll (by decide) (Catalog.isScanned_empty true)).finalize .none true
  have hplain : HasPlainLines (singleCatalog blankContextMessage) := by decide
  have hh : Header.IsOneLine {} := ⟨by decide, by simp, by simp⟩
  have hnot : ¬ (singleCatalog blankContextMessage).IsRestorable := by decide
  exact ⟨hsave, fun hsame => hnot ((save_save_iff hc hplain hh (by decide) hsave {} clock).1 hsame)⟩

end Saving

end Po

end PotExtract
