import PotExtract.Proofs.Outcome
import PotExtract.Proofs.Po.Flags
import PotExtract.Proofs.Catalog.SameMessages
import PotExtract.Proofs.Po.ReadRecords
import PotExtract.Proofs.Po.RecordKeys

/-! The entries that are loaded from a file. Not every entry is found among them: a context or a
plural without characters is not told from none, and no flag is read that cannot stand between
commas. What a record restores agrees with the entry that was written, if the entry is not of that
kind. -/

namespace PotExtract

open Text Po

/-- An entry that may be loaded from a file. -/
structure Entry.IsLoadable (e : Entry) : Prop where
  context : e.context ≠ some ""
  plural : e.pluralId ≠ some ""
  flags : ∀ f ∈ e.flags, IsFlag f

instance (e : Entry) : Decidable e.IsLoadable :=
  decidable_of_iff (e.context ≠ some "" ∧ e.pluralId ≠ some "" ∧ ∀ f ∈ e.flags, IsFlag f)
    ⟨fun h => ⟨h.1, h.2.1, h.2.2⟩, fun h => ⟨h.1, h.2, h.3⟩⟩

theorem Entry.IsLoadable.of_agrees {e o : Entry} (ho : o.IsLoadable) (h : o.agrees e) :
    e.IsLoadable := by
  obtain ⟨hkey, hplural, hflags, -⟩ := Entry.agrees_iff.1 h
  have hcontext : o.context = e.context := congrArg EntryKey.context hkey
  constructor
  · rw [← hcontext]
    exact ho.context
  · rw [← hplural]
    exact ho.plural
  · intro f hf
    apply ho.flags
    exact hflags.mem_iff.2 hf

namespace Po

theorem nonempty?_ne (s : String) : Record.nonempty? s ≠ some "" := by
  unfold Record.nonempty?
  split
  · simp
  · next h =>
    intro hs
    rw [Option.some.inj hs] at h
    exact h rfl

theorem bind_nonempty? {s : Option String} (h : s ≠ some "") : s.bind Record.nonempty? = s := by
  cases s with
  | none => rfl
  | some s => exact nonempty?_getD h

theorem isLoadable_toEntry {r : Record} (h : ∀ f ∈ r.flags, IsFlag f) : r.toEntry.IsLoadable := by
  constructor
  · exact nonempty?_ne r.context
  · show r.pluralId.bind Record.nonempty? ≠ some ""
    cases r.pluralId with
    | none => simp
    | some plural => exact nonempty?_ne plural
  · exact h

/-! ### Flags that are read -/

namespace RecordReader

/-- All flags of the records read so far are such as stand between commas. -/
def HasFlags (r : RecordReader) : Prop :=
  ∀ record ∈ r.records, ∀ f ∈ record.flags, IsFlag f

variable {r r' : RecordReader}

theorem HasFlags.finish (hr : r.HasFlags) (h : r.finish = .ok r') : r'.HasFlags := by
  unfold RecordReader.finish at h
  split at h
  · obtain ⟨record, hrecord, h⟩ := bind_eq_ok.1 h
    obtain rfl := Except.ok.inj h
    have hflags : record.flags = splitFlags r.raw.flags := by
      simp only [RawRecord.unescaped, bind_eq_ok, pure_eq_ok] at hrecord
      obtain ⟨-, -, context, -, id, -, plural, -, -, -, rfl⟩ := hrecord
      rfl
    intro other hother f hf
    rcases (mem_foldl_putRecord hother : other ∈ r.records ∨ other ∈ [record]) with hold | hnew
    · exact hr other hold f hf
    · rw [List.mem_singleton.1 hnew, hflags] at hf
      exact isFlag_of_mem_splitFlags hf
  · obtain rfl := Except.ok.inj h
    exact hr

theorem records_takeValue {field : RecordField} {value : List Char}
    (h : r.takeValue field value = .ok r') : r'.records = r.records := by
  unfold takeValue at h
  split at h
  · obtain rfl := Except.ok.inj h
    rfl
  · cases h

theorem records_takeNote (r : RecordReader) (note : List Char) :
    (r.takeNote note).records = r.records := by
  unfold takeNote
  split <;> rfl

theorem HasFlags.takeLine (hr : r.HasFlags) {line : List Char} (h : r.takeLine line = .ok r') :
    r'.HasFlags := by
  have hsame : r'.records = r.records → r'.HasFlags := by
    intro hrecords
    rw [HasFlags, hrecords]
    exact hr
  unfold RecordReader.takeLine at h
  split at h
  · exact hr.finish h
  · apply hsame
    rw [← Except.ok.inj h, records_takeNote]
  · exact hsame (records_takeValue h)
  · split at h
    · exact hsame (records_takeValue h)
    · exact hsame (by rw [← Except.ok.inj h])

theorem HasFlags.foldlM {ls : List (List Char)} (hr : r.HasFlags)
    (h : ls.foldlM RecordReader.takeLine r = .ok r') : r'.HasFlags := by
  induction ls generalizing r with
  | nil =>
    obtain rfl := Except.ok.inj h
    exact hr
  | cons l ls ih =>
    rw [List.foldlM_cons, bind_eq_ok] at h
    obtain ⟨next, hnext, hrest⟩ := h
    exact ih (hr.takeLine hnext) hrest

end RecordReader

theorem isFlag_of_readRecords {ls : List (List Char)} {records : List Record}
    (h : readRecords ls = .ok records) : ∀ r ∈ records, ∀ f ∈ r.flags, IsFlag f := by
  obtain ⟨r, hread, h⟩ := bind_eq_ok.1 h
  obtain ⟨r', hfinish, h⟩ := bind_eq_ok.1 h
  rw [← pure_eq_ok.1 h]
  have hempty : RecordReader.HasFlags {} := by simp [RecordReader.HasFlags]
  exact (hempty.foldlM hread).finish hfinish

/-- Whatever the file, its entries may be loaded from it. -/
theorem isLoadable_of_readCatalog {text : List Char} {c : Catalog} (h : readCatalog text = .ok c) :
    ∀ e ∈ c.entries, e.IsLoadable := by
  unfold readCatalog at h
  split at h
  · cases h
  · obtain ⟨records, hrecords, rfl⟩ := map_eq_ok.1 h
    intro e he
    obtain ⟨r, hr, rfl⟩ := List.mem_map.1 ((Catalog.sublist_ofEntries _).subset he)
    exact isLoadable_toEntry (isFlag_of_readRecords hrecords r hr)

/-! ### Entries that are restored -/

theorem words_toEntry_comment (r : Record) :
    words r.toEntry.comment.toList = words r.comment.toList := by
  have hempty : ∀ ls : List (List Char),
      (ls.filter fun l => !l.isEmpty).flatMap words = ls.flatMap words := by
    intro ls
    induction ls with
    | nil => rfl
    | cons l ls ih =>
      cases l with
      | nil => exact ih
      | cons c l => exact congrArg (words (c :: l) ++ ·) ih
  rw [Entry.comment, String.toList_intercalate, Record.toEntry, List.map_map]
  simp only [Function.comp_def, String.toList_ofList, List.map_id']
  exact (words_intercalate (by decide) _).trans ((hempty _).trans (words_flatMap_lines _))

theorem agrees_toEntry {e : Entry} (he : e.IsScanned) (hloadable : e.IsLoadable) {r : Record}
    (h : (Record.ofEntry e).Restores r) : r.toEntry.agrees e := by
  have hkey : r.toEntry.key = e.key := by
    show (⟨r.id, Record.nonempty? r.context⟩ : EntryKey) = e.key
    rw [h.id, h.context]
    show (⟨e.id, Record.nonempty? (e.context.getD "")⟩ : EntryKey) = e.key
    rw [nonempty?_getD hloadable.context]
    rfl
  have hplural : r.toEntry.pluralId = e.pluralId := by
    show r.pluralId.bind Record.nonempty? = e.pluralId
    rw [h.pluralId]
    exact bind_nonempty? hloadable.plural
  have hflags : r.toEntry.flags = e.flags := by
    show r.flags = e.flags
    rw [h.flags]
    exact addFlags_nil he.flags
  have hcomment : normalized r.toEntry.comment = normalized e.comment := by
    rw [normalized, Text.normalize, words_toEntry_comment, h.comment]
    rfl
  have htranslator : r.toEntry.translatorComment = e.translatorComment := by
    rw [Entry.translatorComment, Entry.translatorComment, he.translatorComments]
    rfl
  exact Entry.agrees_iff.2
    ⟨hkey, hplural, .of_eq hflags, hcomment, congrArg normalized htranslator⟩

end Po

end PotExtract
