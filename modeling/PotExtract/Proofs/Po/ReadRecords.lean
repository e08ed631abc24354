import PotExtract.Proofs.Outcome
import PotExtract.Proofs.Po.Fields
import PotExtract.Proofs.Po.Flags
import PotExtract.Proofs.Po.RecordKeys

/-! A record is read as it was written, up to the white space of its comment, if it can be: a plural
must hold something, and flags must be such as a list of flags gives back. -/

namespace PotExtract.Po

open Text

/-- A record that can be told from what is written of it. -/
structure Record.IsReadable (r : Record) : Prop where
  plural : r.pluralId ≠ some ""
  flags : ∀ f ∈ r.flags, IsFlag f

/-- The record that is read has the fields of the one written, its place aside, and the words of its
comment. -/
structure Record.Restores (written read : Record) : Prop where
  context : read.context = written.context
  id : read.id = written.id
  pluralId : read.pluralId = written.pluralId
  flags : read.flags = written.flags
  comment : words read.comment.toList = words written.comment.toList

theorem Record.Restores.key {written read : Record} (h : written.Restores read) :
    read.key = written.key := by
  simp only [Record.key, h.context, h.id, h.pluralId]

/-! ### Notes -/

theorem words_addLine (s line : List Char) : words (addLine s line) = words s ++ words line := by
  unfold addLine
  split
  · next h =>
    rcases h with hnil | hlast
    · rw [List.isEmpty_iff.1 hnil]
      rfl
    · obtain ⟨t, rfl⟩ := List.getLast?_eq_some_iff.1 hlast
      rw [words_append_cons (by decide) t [], words_nil, List.append_nil, List.append_assoc,
        List.singleton_append, words_append_cons (by decide)]
  · rw [words_append_cons (by decide)]

theorem words_foldl_addLine (s : List Char) (ls : List (List Char)) :
    words (ls.foldl (fun s l => addLine s (chomp l)) s) = words s ++ ls.flatMap words := by
  induction ls generalizing s with
  | nil => simp
  | cons l ls ih =>
    rw [List.foldl_cons, ih, words_addLine, words_chomp, List.flatMap_cons, List.append_assoc]

theorem chomp_append {mark : List Char} (hmark : mark.getLast? = some ' ') (l : List Char) :
    chomp (mark ++ l) = mark ++ chomp l := by
  cases l with
  | nil =>
    rw [List.append_nil, chomp, if_neg (by simp [hmark]), chomp, if_neg (by simp), List.append_nil]
  | cons c l =>
    unfold chomp
    rw [List.getLast?_append_of_ne_nil _ (List.cons_ne_nil c l)]
    split
    · rw [List.dropLast_append_of_ne_nil (List.cons_ne_nil c l)]
    · rfl

/-- A note is written as its lines behind marks. -/
theorem exists_noteLines_eq (mark note : String) :
    ∃ ls : List (List Char), noteLines mark note = ls.map (mark.toList ++ ·) ∧
      (∀ l ∈ ls, '\n' ∉ l) ∧ ls.flatMap words = words note.toList := by
  unfold noteLines
  split
  · next h =>
    rw [String.isEmpty_iff.1 h]
    exact ⟨[], rfl, by simp, rfl⟩
  · refine ⟨note.toList.splitOn '\n', rfl, ?_, words_flatMap_splitOn _⟩
    intro l hl hmem
    exact (of_mem_splitOn hl hmem).1 rfl

namespace RecordReader

/-- The lines of a note are added to the field of its mark. -/
theorem foldlM_noteLines (r : RecordReader) (mark : List Char) {field : RecordField}
    (hmark : mark.getLast? = some ' ')
    (hnote : ∀ (r : RecordReader) l,
      r.takeLine (mark ++ l) = .ok { r with raw := r.raw.annotate field l, field })
    (ls : List (List Char)) :
    ∃ field', ((ls.map (mark ++ ·)).map chomp).foldlM takeLine r =
      .ok { r with
        raw := ls.foldl (fun raw l => raw.annotate field (chomp l)) r.raw
        field := field' } := by
  induction ls generalizing r with
  | nil => exact ⟨r.field, rfl⟩
  | cons l ls ih =>
    obtain ⟨field', h⟩ := ih { r with raw := r.raw.annotate field (chomp l), field }
    refine ⟨field', ?_⟩
    rw [List.map_cons, List.map_cons, List.foldlM_cons, chomp_append hmark, hnote]
    exact h

theorem takeLine_comment (r : RecordReader) (l : List Char) :
    r.takeLine ("#. ".toList ++ l) =
      .ok { r with raw := r.raw.annotate .comment l, field := .comment } :=
  rfl

theorem takeLine_source (r : RecordReader) (l : List Char) :
    r.takeLine ("#: ".toList ++ l) =
      .ok { r with raw := r.raw.annotate .source l, field := .source } :=
  rfl

theorem takeLine_flags (r : RecordReader) (l : List Char) :
    r.takeLine ("#, ".toList ++ l) =
      .ok { r with raw := r.raw.annotate .flags l, field := .flags } :=
  rfl

theorem foldl_annotate_comment (raw : RawRecord) (ls : List (List Char)) :
    ∃ isOpen, ls.foldl (fun raw l => raw.annotate .comment (chomp l)) raw =
      { raw with isOpen, comment := ls.foldl (fun s l => addLine s (chomp l)) raw.comment } := by
  induction ls generalizing raw with
  | nil => exact ⟨raw.isOpen, rfl⟩
  | cons l ls ih => exact ih (raw.annotate .comment (chomp l))

theorem foldl_annotate_source (raw : RawRecord) (ls : List (List Char)) :
    ∃ isOpen source, ls.foldl (fun raw l => raw.annotate .source (chomp l)) raw =
      { raw with isOpen, source } := by
  induction ls generalizing raw with
  | nil => exact ⟨raw.isOpen, raw.source, rfl⟩
  | cons l ls ih => exact ih (raw.annotate .source (chomp l))

theorem foldlM_flagLine {flags : List String} (hflags : ∀ f ∈ flags, IsFlag f)
    (r : RecordReader) (hnone : r.raw.flags = []) :
    ∃ isOpen flags' field,
      ((if flags.isEmpty then [] else ["#, ".toList ++ (", ".intercalate flags).toList]).map
        chomp).foldlM takeLine r =
        .ok { r with raw := { r.raw with isOpen, flags := flags' }, field } ∧
      splitFlags flags' = flags := by
  split
  · next h =>
    rw [List.isEmpty_iff.1 h]
    exact ⟨r.raw.isOpen, [], r.field, by rw [← hnone]; rfl, by decide⟩
  · next h =>
    refine ⟨true, (", ".intercalate flags).toList, .flags, ?_, splitFlags_intercalate hflags⟩
    rw [List.map_singleton, chomp_flags hflags (by simpa using h), List.foldlM_cons, takeLine_flags]
    show Except.ok _ = _
    simp [RawRecord.annotate, RawRecord.modify, hnone, addLine]

/-- The notes in front of a record leave its texts as they are. -/
theorem foldlM_annotationLines {record : Record} (hflags : ∀ f ∈ record.flags, IsFlag f)
    (records : List Record) (field : RecordField) :
    ∃ isOpen source comment flags field',
      ((annotationLines record).map chomp).foldlM takeLine ⟨records, {}, field⟩ =
        .ok ⟨records, { isOpen, source, comment, flags }, field'⟩ ∧
      words comment = words record.comment.toList ∧ splitFlags flags = record.flags := by
  obtain ⟨comments, hcomments, -, hwords⟩ := exists_noteLines_eq "#. " record.comment
  obtain ⟨sources, hsources, -, -⟩ := exists_noteLines_eq "#: " record.source
  obtain ⟨field₁, hread₁⟩ :=
    foldlM_noteLines ⟨records, {}, field⟩ "#. ".toList rfl takeLine_comment comments
  obtain ⟨isOpen₁, hraw₁⟩ := foldl_annotate_comment {} comments
  let raw₁ : RawRecord :=
    { isOpen := isOpen₁, comment := comments.foldl (fun s l => addLine s (chomp l)) [] }
  obtain ⟨field₂, hread₂⟩ :=
    foldlM_noteLines ⟨records, raw₁, field₁⟩ "#: ".toList rfl takeLine_source sources
  obtain ⟨isOpen₂, source, hraw₂⟩ := foldl_annotate_source raw₁ sources
  obtain ⟨isOpen₃, flags, field₃, hread₃, hsplit⟩ :=
    foldlM_flagLine hflags ⟨records, { raw₁ with isOpen := isOpen₂, source }, field₂⟩ rfl
  refine ⟨isOpen₃, source, raw₁.comment, flags, field₃, ?_, ?_, hsplit⟩
  · rw [annotationLines, hcomments, hsources, List.map_append, List.map_append, List.foldlM_append,
      List.foldlM_append, hread₁, hraw₁]
    show (((sources.map _).map chomp).foldlM takeLine ⟨records, raw₁, field₁⟩ >>= _) = _
    rw [hread₂, hraw₂]
    exact hread₃
  · exact (words_foldl_addLine [] comments).trans hwords

/-! ### Fields -/

theorem foldlM_field {name : List Char} {field : RecordField} (hname : IsName name field)
    (hfeed : '\n' ∉ name) (text : List Char) (records : List Record) (raw : RawRecord)
    (before : RecordField) :
    ((fieldLines name text).map chomp).foldlM takeLine ⟨records, raw, before⟩ =
      .ok ⟨records, raw.append field (escape text), field⟩ := by
  have hchomp : (fieldLines name text).map chomp = fieldLines name text :=
    (List.map_congr_left (g := id) fun l hl => (of_mem_fieldLines hfeed hl).2).trans (List.map_id _)
  rw [hchomp, foldlM_fieldLines _ hname]

theorem isName_context : IsName "msgctxt".toList .context := ⟨rfl, fun _ => rfl⟩

theorem isName_id : IsName "msgid".toList .id := ⟨rfl, fun _ => rfl⟩

theorem isName_pluralId : IsName "msgid_plural".toList .pluralId := ⟨rfl, fun _ => rfl⟩

theorem isName_msgstr : IsName "msgstr".toList .msgstr := ⟨rfl, fun _ => rfl⟩

theorem isName_form0 : IsName "msgstr[0]".toList (.form '0') := ⟨rfl, fun _ => rfl⟩

theorem isName_form1 : IsName "msgstr[1]".toList (.form '1') := ⟨rfl, fun _ => rfl⟩

theorem foldlM_contextLines (context : String) (records : List Record) {raw : RawRecord}
    (hcontext : raw.context = []) (field : RecordField) :
    ∃ isOpen field', ((if context.isEmpty then []
        else fieldLines "msgctxt".toList context.toList).map chomp).foldlM takeLine
          ⟨records, raw, field⟩ =
      .ok ⟨records, { raw with isOpen, context := escape context.toList }, field'⟩ := by
  split
  · next h =>
    refine ⟨raw.isOpen, field, ?_⟩
    have hsame : { raw with context := [] } = raw := by rw [← hcontext]
    rw [String.isEmpty_iff.1 h]
    show Except.ok (⟨records, raw, field⟩ : RecordReader) =
      .ok ⟨records, { raw with context := [] }, field⟩
    rw [hsame]
  · refine ⟨true, .context, (foldlM_field isName_context (by decide) _ _ _ _).trans ?_⟩
    simp [RawRecord.append, RawRecord.modify, hcontext]

theorem foldlM_pluralLines (plural : List Char) (records : List Record) {raw : RawRecord}
    (hplural : raw.pluralId = []) (hforms : raw.forms = []) (field : RecordField) :
    ((fieldLines "msgid_plural".toList plural ++ fieldLines "msgstr[0]".toList [] ++
        fieldLines "msgstr[1]".toList []).map chomp).foldlM takeLine ⟨records, raw, field⟩ =
      .ok ⟨records,
        { raw with isOpen := true, pluralId := escape plural, forms := [('0', []), ('1', [])] },
        .form '1'⟩ := by
  rw [List.map_append, List.map_append, List.foldlM_append, List.foldlM_append,
    foldlM_field isName_pluralId (by decide)]
  show (((fieldLines "msgstr[0]".toList []).map chomp).foldlM takeLine _ >>= _) = _
  rw [foldlM_field isName_form0 (by decide)]
  show ((fieldLines "msgstr[1]".toList []).map chomp).foldlM takeLine _ = _
  rw [foldlM_field isName_form1 (by decide)]
  simp [RawRecord.append, RawRecord.modify, hplural, hforms, modifyForm, escape]

/-- The fields of a record give all its texts, escaped. -/
theorem foldlM_fieldsOf (record : Record) (records : List Record) (isOpen : Bool)
    (source comment flags : List Char) (field : RecordField) :
    ∃ forms field', ((fieldsOf record).map chomp).foldlM takeLine
        ⟨records, { isOpen, source, comment, flags }, field⟩ =
      .ok ⟨records,
        { isOpen := true, source, comment, flags
          context := escape record.context.toList
          id := escape record.id.toList
          pluralId := escape (record.pluralId.getD "").toList
          forms },
        field'⟩ ∧
      ∀ form ∈ forms, form.2 = [] := by
  let start : RawRecord := { isOpen, source, comment, flags }
  obtain ⟨isOpen₁, field₁, hread₁⟩ :=
    foldlM_contextLines record.context records (rfl : start.context = []) field
  let raw : RawRecord :=
    { start with
      isOpen := true
      context := escape record.context.toList
      id := escape record.id.toList }
  have hread₂ : ((fieldLines "msgid".toList record.id.toList).map chomp).foldlM takeLine
      ⟨records, { start with isOpen := isOpen₁, context := escape record.context.toList }, field₁⟩ =
        .ok ⟨records, raw, .id⟩ :=
    foldlM_field isName_id (by decide) _ _ _ _
  rw [fieldsOf, List.map_append, List.map_append, List.foldlM_append, List.foldlM_append, hread₁]
  show ∃ forms field', (((fieldLines "msgid".toList record.id.toList).map chomp).foldlM takeLine
    ⟨records, { start with isOpen := isOpen₁, context := escape record.context.toList }, field₁⟩ >>=
      _) = _ ∧ _
  rw [hread₂]
  show ∃ forms field', (List.map chomp _).foldlM takeLine ⟨records, raw, .id⟩ = _ ∧ _
  cases record.pluralId with
  | none => exact ⟨[], .msgstr, foldlM_field isName_msgstr (by decide) _ _ _ _, by simp⟩
  | some plural =>
    exact ⟨[('0', []), ('1', [])], .form '1',
      foldlM_pluralLines plural.toList records (rfl : raw.pluralId = []) rfl .id, by simp⟩

end RecordReader

/-! ### Records -/

/-- The lines of records, with an empty one behind each. -/
def recordLines (records : List Record) : List (List Char) :=
  records.flatMap fun r => annotationLines r ++ fieldsOf r ++ [[]]

theorem nonempty?_getD {s : Option String} (h : s ≠ some "") :
    Record.nonempty? (s.getD "") = s := by
  cases s with
  | none => rfl
  | some s =>
    have hs : s.isEmpty = false := by
      rw [← Bool.not_eq_true, String.isEmpty_iff]
      rintro rfl
      exact h rfl
    rw [Option.getD_some, Record.nonempty?, hs]
    rfl

theorem mapM_unescapeStrict {forms : List (List Char)} (h : ∀ form ∈ forms, form = []) :
    forms.mapM unescapeStrict = .ok forms := by
  refine mapM_eq_ok_iff.2 (List.forall₂_same.2 fun form hform => ?_)
  obtain rfl := h form hform
  rfl

theorem mapM_msgstrForms {raw : RawRecord} (h : ∀ form ∈ raw.forms, form.2 = []) :
    raw.msgstrForms.mapM unescapeStrict = .ok raw.msgstrForms := by
  refine mapM_unescapeStrict fun text htext => ?_
  unfold RawRecord.msgstrForms at htext
  split at htext
  · cases htext
  · obtain ⟨form, hform, rfl⟩ := List.mem_map.1 htext
    exact h form (List.mem_mergeSort.1 hform)

/-- The fields of a raw record are unescaped. -/
theorem unescaped_escape {raw : RawRecord} (context id pluralId : String)
    (hforms : ∀ form ∈ raw.forms, form.2 = []) (hmsgstr : raw.msgstr = [])
    (hcontext : raw.context = escape context.toList) (hid : raw.id = escape id.toList)
    (hplural : raw.pluralId = escape pluralId.toList) :
    raw.unescaped = .ok
      { context, id
        pluralId := Record.nonempty? pluralId
        flags := splitFlags raw.flags
        source := String.ofList raw.source
        comment := String.ofList raw.comment } := by
  have hsingle : unescapeStrict raw.singleMsgstr = .ok [] := by
    rw [RawRecord.singleMsgstr, hmsgstr, ite_self]
    rfl
  rw [RawRecord.unescaped, mapM_msgstrForms hforms, hcontext, hid, hplural, hsingle,
    unescapeStrict_escape, unescapeStrict_escape, unescapeStrict_escape]
  show Except.ok _ = _
  simp [Record.nonempty?]

namespace RecordReader

/-- The lines of a record put it to the others. -/
theorem foldlM_record {record : Record} (h : record.IsReadable) (records : List Record)
    (field : RecordField) :
    ∃ read field', ((annotationLines record ++ fieldsOf record ++ [[]]).map chomp).foldlM takeLine
        ⟨records, {}, field⟩ = .ok ⟨putRecord records read, {}, field'⟩ ∧ record.Restores read := by
  obtain ⟨isOpen, source, comment, flags, field₁, hread₁, hcomment, hflags⟩ :=
    foldlM_annotationLines h.flags records field
  obtain ⟨forms, field₂, hread₂, hforms⟩ :=
    foldlM_fieldsOf record records isOpen source comment flags field₁
  let raw : RawRecord :=
    { isOpen := true, source, comment, flags
      context := escape record.context.toList
      id := escape record.id.toList
      pluralId := escape (record.pluralId.getD "").toList
      forms }
  let read : Record :=
    { context := record.context
      id := record.id
      pluralId := Record.nonempty? (record.pluralId.getD "")
      flags := splitFlags flags
      source := String.ofList source
      comment := String.ofList comment }
  have hraw : raw.unescaped = .ok read := unescaped_escape _ _ _ hforms rfl rfl rfl rfl
  refine ⟨read, field₂, ?_, rfl, rfl, nonempty?_getD h.plural, hflags, ?_⟩
  · rw [List.map_append, List.map_append, List.foldlM_append, List.foldlM_append, hread₁]
    show (((fieldsOf record).map chomp).foldlM takeLine _ >>= _) = _
    rw [hread₂]
    show ((raw.unescaped >>= fun read =>
      .ok (⟨putRecord records read, {}, field₂⟩ : RecordReader)) >>= _) = _
    rw [hraw]
    rfl
  · rw [← hcomment, String.toList_ofList]

theorem foldlM_recordLines {written : List Record} (h : ∀ r ∈ written, r.IsReadable)
    (records : List Record) (field : RecordField) :
    ∃ read field',
      ((recordLines written).map chomp).foldlM takeLine ⟨records, {}, field⟩ =
        .ok ⟨read.foldl putRecord records, {}, field'⟩ ∧
      List.Forall₂ Record.Restores written read := by
  induction written generalizing records field with
  | nil => exact ⟨[], field, rfl, .nil⟩
  | cons record written ih =>
    obtain ⟨hrecord, hwritten⟩ := List.forall_mem_cons.1 h
    obtain ⟨read, field₁, hread, hrestores⟩ := foldlM_record hrecord records field
    obtain ⟨reads, field₂, hreads, hall⟩ := ih hwritten (putRecord records read) field₁
    refine ⟨read :: reads, field₂, ?_, .cons hrestores hall⟩
    rw [recordLines, List.flatMap_cons, List.map_append, List.foldlM_append, hread]
    exact hreads

end RecordReader

/-- Records are read in order as they were written. -/
theorem readRecords_recordLines {written : List Record} (h : ∀ r ∈ written, r.IsReadable)
    (hkeys : (written.map Record.key).Nodup) :
    ∃ read, readRecords (([] :: recordLines written).map chomp) = .ok read ∧
      List.Forall₂ Record.Restores written read := by
  obtain ⟨read, field, hread, hall⟩ := RecordReader.foldlM_recordLines h [] .msgstr
  have hreadKeys : read.map Record.key = written.map Record.key := by
    clear h hkeys hread
    induction hall with
    | nil => rfl
    | cons hrecord _ ih => rw [List.map_cons, List.map_cons, hrecord.key, ih]
  refine ⟨read, ?_, hall⟩
  have hput : read.foldl putRecord [] = [] ++ read :=
    foldl_putRecord (by rwa [List.nil_append, hreadKeys])
  rw [List.nil_append] at hput
  rw [hput] at hread
  rw [readRecords, List.map_cons, List.foldlM_cons]
  show (((recordLines written).map chomp).foldlM RecordReader.takeLine {} >>= _) = _
  rw [hread]
  rfl

end PotExtract.Po
