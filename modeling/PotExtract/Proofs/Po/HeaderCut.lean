import PotExtract.Proofs.Po.PrintedEntries
import PotExtract.Proofs.Po.TemplateHeader

/-! The header of a PO file is read as it was printed, and it is cut off where the entries begin: the
entries of the file are those of the text behind it, whatever header stands in front of them. -/

namespace PotExtract.Po

open Text

/-! ### Printed headers -/

/-- A field of a header that can be printed on a line, by its name and its value. -/
structure IsHeaderField (field : String × String) : Prop where
  name : trimmed field.1 = field.1
  value : trimmed field.2 = field.2
  noColon : ':' ∉ field.1.toList
  noFeed : '\n' ∉ field.1.toList ∧ '\n' ∉ field.2.toList

/-- The text of a field, which is a line of the header's text. -/
def fieldText (field : String × String) : List Char :=
  field.1.toList ++ ':' :: ' ' :: field.2.toList

/-- The lines of a header: an empty id, and a text with an escaped line for each field. -/
def headerRows (fields : List (String × String)) : List (List Char) :=
  "msgid \"\"".toList :: "msgstr \"\"".toList ::
    fields.map fun field => quoted (escape (fieldText field ++ ['\n']))

/-- The header as an entry. -/
def headerEntry (fields : List (String × String)) : PrintedEntry where
  msgid := ⟨[], []⟩
  msgstr := ⟨[], fields.map fun field => fieldText field ++ ['\n']⟩

theorem rows_headerEntry (fields : List (String × String)) :
    (headerEntry fields).rows = headerRows fields := by
  have hid : "msgid".toList ++ ' ' :: quoted (escape []) = "msgid \"\"".toList := by decide
  have hmsgstr : "msgstr".toList ++ ' ' :: quoted (escape []) = "msgstr \"\"".toList := by decide
  simp only [PrintedEntry.rows, headerEntry, CutText.rows, Option.elim_none, Bool.false_eq_true,
    if_false, List.map_nil, List.map_map, List.flatMap_nil, List.nil_append, List.append_nil,
    List.cons_append, hid, hmsgstr]
  rfl

/-- The header is no entry. -/
theorem entry?_headerEntry (fields : List (String × String)) :
    (headerEntry fields).draft.entry? = none := rfl

theorem headerField?_fieldText {field : String × String} (h : IsHeaderField field) :
    headerField? (fieldText field) = some field := by
  rw [headerField?, fieldText, cut?_append_cons h.noColon, Option.map_some]
  exact congrArg some (Prod.ext h.name h.value)

theorem chomp_fieldText {field : String × String} (h : IsHeaderField field) :
    chomp (fieldText field) = fieldText field := by
  -- the last character is the space, or that of the value, which is trimmed
  have hvalue : ∀ c ∈ field.2.toList.getLast?, isBlank c = false := by
    intro c hc
    have htrim : trim field.2.toList = field.2.toList := by
      rw [← String.toList_ofList (l := trim field.2.toList)]
      exact congrArg String.toList h.value
    rw [← htrim] at hc
    exact getLast?_trimRight hc
  rw [chomp, if_neg]
  intro hlast
  cases hend : field.2.toList.getLast? with
  | none => simp [fieldText, List.getLast?_append, List.getLast?_cons, hend] at hlast
  | some c =>
    have hc : c = '\r' := by
      simpa [fieldText, List.getLast?_append, List.getLast?_cons, hend] using hlast
    have hblank := hvalue c hend
    rw [hc] at hblank
    cases hblank

theorem not_mem_fieldText {field : String × String} (h : IsHeaderField field) :
    '\n' ∉ fieldText field := by
  simp [fieldText, h.noFeed.1, h.noFeed.2]

/-- The fields are read off the lines they are printed on. -/
theorem headerFields_headerRows {fields : List (String × String)}
    (h : ∀ field ∈ fields, IsHeaderField field) :
    (lines ((fields.map fun field => quoted (escape (fieldText field ++ ['\n']))).flatMap
      unquote)).filterMap headerField? = fields := by
  have htext : (fields.map fun field => quoted (escape (fieldText field ++ ['\n']))).flatMap unquote =
      (fields.map fieldText).flatMap (· ++ ['\n']) := by
    rw [List.flatMap_map, List.flatMap_map]
    exact List.flatMap_congr fun field _ => unquote_quoted _
  have hfeed : ∀ line ∈ fields.map fieldText, '\n' ∉ line := by
    intro line hline
    obtain ⟨field, hfield, rfl⟩ := List.mem_map.1 hline
    exact not_mem_fieldText (h field hfield)
  have hchomp : (fields.map fieldText).map chomp = fields.map fieldText := by
    rw [List.map_map]
    exact List.map_congr_left fun field hfield => chomp_fieldText (h field hfield)
  rw [htext, lines_flatMap hfeed, hchomp, List.filterMap_map]
  calc
    fields.filterMap (headerField? ∘ fieldText) = fields.filterMap some :=
      List.filterMap_congr fun field hfield => headerField?_fieldText (h field hfield)
    _ = fields := List.filterMap_some

/-! ### The text behind a header -/

theorem IsQuotedLine.of_escape (text : List Char) : IsQuotedLine (quoted (escape text)) :=
  ⟨rfl, by simp [quoted, not_mem_escape]⟩

/-- A line that may stand in front of a header: a blank one or a comment. -/
structure IsFrontLine (line : List Char) : Prop where
  noFeed : '\n' ∉ line
  kind : trim line = [] ∨ isCommentLine line

theorem IsFrontLine.isPreamble {line : List Char} (h : IsFrontLine line) :
    isPreamble (line ++ ['\n']) := by
  rw [Po.isPreamble, trim_append_feed]
  rcases h.kind with hblank | hcomment
  · rw [hblank]
  · obtain ⟨rest, hrest⟩ := List.head?_eq_some_iff.1 (of_decide_eq_true hcomment)
    rw [hrest]
    rfl

/-- A text with printed entries. Comments may stand in front of any line, and the last line need not
be ended. -/
def PrintsEntries (entries : List PrintedEntry) (text : List Char) : Prop :=
  ∃ ls, (∀ l ∈ ls, '\n' ∉ l) ∧ ArePrinted entries (ls.filter (!isCommentLine ·)) ∧
    (text = unlines ls ∨ text ++ ['\n'] = unlines ls)

/-- The entries of a text are read without its headers. -/
theorem PrintsEntries.readEntries_eq {entries : List PrintedEntry} {text : List Char}
    (h : PrintsEntries entries text) : readEntries text = entries.filterMap (·.draft.entry?) := by
  obtain ⟨ls, hfeed, hprinted, htext⟩ := h
  have hread : readEntries (unlines ls) = entries.filterMap (·.draft.entry?) := by
    rw [unlines, readEntries_flatMap hfeed, ← EntryReader.foldl_filter]
    exact EntryReader.entries_foldl_drafts hprinted (.inl rfl)
  rcases htext with rfl | hended
  · exact hread
  · rw [← readEntries_append_feed, hended, hread]

/-- The first of printed lines does not go on with a text in front of them. -/
theorem ArePrinted.isContinuation_head {entries : List PrintedEntry} {ls : List (List Char)}
    (h : ArePrinted entries ls) : ∀ l ∈ ls.head?, isContinuation l = false := by
  cases h with
  | nil => simp
  | blank l hl _ =>
    rintro _ ⟨⟩
    rw [isContinuation, hl]
    rfl
  | @entry _ later e _ =>
    obtain ⟨rest, hrest⟩ : ∃ rest, (e.rows ++ later).head? = some ('m' :: rest) := by
      unfold PrintedEntry.rows
      cases e.context <;> exact ⟨_, rfl⟩
    rw [hrest]
    rintro _ ⟨⟩
    rw [isContinuation, trim_cons (by decide)]
    rfl

theorem PrintsEntries.isContinuation_eq {entries : List PrintedEntry} {text : List Char}
    (h : PrintsEntries entries text) : isContinuation (text.takeWhile (· != '\n')) = false := by
  obtain ⟨ls, hfeed, hprinted, htext⟩ := h
  have hfirst : isContinuation ((unlines ls).takeWhile (· != '\n')) = false := by
    cases ls with
    | nil => rfl
    | cons l ls =>
      have hline : (unlines (l :: ls)).takeWhile (· != '\n') = l := by
        rw [unlines, List.flatMap_cons, List.append_assoc]
        exact takeWhile_line (List.forall_mem_cons.1 hfeed).1 _
      rw [hline]
      by_cases hcomment : isCommentLine l
      · rw [isContinuation, of_decide_eq_true hcomment]
        rfl
      · rw [List.filter_cons_of_pos (by simpa using hcomment)] at hprinted
        exact hprinted.isContinuation_head l rfl
  rcases htext with rfl | hended
  · exact hfirst
  · rwa [← takeWhile_append_feed, hended]

theorem arePrinted_front {front : List (List Char)} (hfront : ∀ l ∈ front, IsFrontLine l)
    {entries : List PrintedEntry} {ls : List (List Char)} (h : ArePrinted entries ls) :
    ArePrinted entries (front.filter (!isCommentLine ·) ++ ls) := by
  induction front with
  | nil => exact h
  | cons l front ih =>
    obtain ⟨hl, hothers⟩ := List.forall_mem_cons.1 hfront
    by_cases hcomment : isCommentLine l
    · rw [List.filter_cons_of_neg (by simpa using hcomment)]
      exact ih hothers
    · rw [List.filter_cons_of_pos (by simpa using hcomment)]
      exact .blank l (hl.kind.resolve_right hcomment) (ih hothers)

theorem filter_headerRows (fields : List (String × String)) :
    (headerRows fields).filter (!isCommentLine ·) = headerRows fields := by
  rw [List.filter_eq_self]
  simp only [headerRows, List.forall_mem_cons, List.forall_mem_map]
  refine ⟨by decide, by decide, fun field _ => ?_⟩
  rw [isCommentLine, trim_quoted]
  rfl

theorem noFeed_headerRows {fields : List (String × String)} : ∀ l ∈ headerRows fields, '\n' ∉ l := by
  simp only [headerRows, List.forall_mem_cons, List.forall_mem_map]
  exact ⟨by decide, by decide, fun field _ => (IsQuotedLine.of_escape _).noFeed⟩

/-- A header in front of a text is one more entry. -/
theorem PrintsEntries.header {entries : List PrintedEntry} {rest : List Char}
    (h : PrintsEntries entries rest) (fields : List (String × String))
    {front behind : List (List Char)} (hfront : ∀ l ∈ front, IsFrontLine l)
    (hbehind : ∀ l ∈ behind, IsFrontLine l) :
    PrintsEntries (headerEntry fields :: entries)
      (unlines (front ++ headerRows fields ++ behind) ++ rest) := by
  obtain ⟨ls, hfeed, hprinted, htext⟩ := h
  refine ⟨front ++ headerRows fields ++ behind ++ ls, ?_, ?_, ?_⟩
  · simp only [List.forall_mem_append]
    exact ⟨⟨⟨fun l hl => (hfront l hl).noFeed, noFeed_headerRows⟩,
      fun l hl => (hbehind l hl).noFeed⟩, hfeed⟩
  · rw [List.filter_append, List.filter_append, List.filter_append, filter_headerRows,
      ← rows_headerEntry, List.append_assoc, List.append_assoc]
    exact arePrinted_front hfront (.entry _ (arePrinted_front hbehind hprinted))
  · rw [unlines_append _ ls, List.append_assoc]
    exact htext.imp (congrArg _) fun hended => by rw [List.append_assoc, hended]

theorem readHeader?_headerRows {front : List (List Char)} (hfront : ∀ l ∈ front, IsFrontLine l)
    {fields : List (String × String)} (hfields : ∀ field ∈ fields, IsHeaderField field)
    {rest : List Char} (hrest : isContinuation (rest.takeWhile (· != '\n')) = false) :
    readHeader? (unlines (front ++ headerRows fields) ++ rest) =
      some { fields, stop := byteLength (unlines (front ++ headerRows fields)), rest } := by
  have hquoted : ∀ l ∈ fields.map fun field => quoted (escape (fieldText field ++ ['\n'])),
      IsQuotedLine l := by
    simp only [List.forall_mem_map]
    exact fun field _ => .of_escape _
  have hread := readHeader?_append (fun l hl => (hfront l hl).noFeed)
    (fun l hl => (hfront l hl).isPreamble) hquoted hrest
  dsimp only at hread
  rw [headerFields_headerRows hfields] at hread
  rw [headerRows]
  exact hread

/-- The entries of a text stay the same with a header in front of it. -/
theorem PrintsEntries.readEntries_header {entries : List PrintedEntry} {rest : List Char}
    (h : PrintsEntries entries rest) (fields : List (String × String))
    {front behind : List (List Char)} (hfront : ∀ l ∈ front, IsFrontLine l)
    (hbehind : ∀ l ∈ behind, IsFrontLine l) :
    readEntries (unlines (front ++ headerRows fields ++ behind) ++ rest) = readEntries rest := by
  rw [(h.header fields hfront hbehind).readEntries_eq, h.readEntries_eq, List.filterMap_cons,
    entry?_headerEntry]

/-- A header is read as it was printed, whatever comments stand in front of it, and it ends where it
was put in front of the entries. They are the entries of the whole text, and also of a text in which
another header, with blank lines or comments behind it, has taken the place of the header. -/
theorem readHeader?_printed {front : List (List Char)} (hfront : ∀ l ∈ front, IsFrontLine l)
    {fields : List (String × String)} (hfields : ∀ field ∈ fields, IsHeaderField field)
    {entries : List PrintedEntry} {rest : List Char} (hrest : PrintsEntries entries rest) :
    let header := unlines (front ++ headerRows fields)
    readHeader? (header ++ rest) = some { fields, stop := byteLength header, rest } ∧
      readEntries (header ++ rest) = readEntries rest ∧
      ∀ (fields' : List (String × String)) (behind : List (List Char)),
        (∀ l ∈ behind, IsFrontLine l) →
        readEntries (unlines (headerRows fields' ++ behind) ++ rest) =
          readEntries (header ++ rest) := by
  intro header
  have hnone : ∀ l ∈ ([] : List (List Char)), IsFrontLine l := List.forall_mem_nil _
  have hheader : readEntries (header ++ rest) = readEntries rest := by
    have h := hrest.readEntries_header fields hfront hnone
    rwa [List.append_nil] at h
  refine ⟨readHeader?_headerRows hfront hfields hrest.isContinuation_eq, hheader,
    fun fields' behind hbehind => ?_⟩
  have h := hrest.readEntries_header fields' hnone hbehind
  rwa [List.nil_append, ← hheader] at h

/-- A header behind a comment and a blank line, with quotes in a value and an empty one. A comment
stands directly behind it, and the last line is not ended. Then a header with a blank line behind it
takes its place. -/
theorem readHeader?_printed_farm :
    let front := ["# Farm".toList, " ".toList]
    let fields := [("X-Motto", "say \"moo\" \\o/"), ("Language", "")]
    let header := unlines (front ++ headerRows fields)
    let rest := "#. animal\nmsgid \"cow\"\nmsgstr \"Kuh\"".toList
    readHeader? (header ++ rest) = some { fields, stop := 73, rest } ∧
      readEntries (header ++ rest) = readEntries rest ∧
      readEntries (unlines (headerRows [("Language", "de")] ++ [[]]) ++ rest) =
        readEntries (header ++ rest) := by
  intro front fields header rest
  have hfront : ∀ l ∈ front, IsFrontLine l := by
    simp only [front, List.forall_mem_cons]
    exact ⟨⟨by decide, .inr (by decide)⟩, ⟨by decide, .inl (by decide)⟩, List.forall_mem_nil _⟩
  have hfields : ∀ field ∈ fields, IsHeaderField field := by
    simp only [fields, List.forall_mem_cons]
    exact ⟨⟨by decide, by decide, by decide, by decide⟩,
      ⟨by decide, by decide, by decide, by decide⟩, List.forall_mem_nil _⟩
  let cow : PrintedEntry := { msgid := ⟨"cow".toList, []⟩, msgstr := ⟨"Kuh".toList, []⟩ }
  have hrest : PrintsEntries [cow] rest := by
    refine ⟨rest.splitOn '\n', by decide, ?_, .inr (by decide)⟩
    have hkept : (rest.splitOn '\n').filter (!isCommentLine ·) = cow.rows ++ [] := by
      decide +kernel
    rw [hkept]
    exact .entry cow .nil
  have hbehind : ∀ l ∈ [([] : List Char)], IsFrontLine l :=
    List.forall_mem_singleton.2 ⟨by decide, .inl rfl⟩
  obtain ⟨hheader, hsame, hreplaced⟩ := readHeader?_printed hfront hfields hrest
  have hstop : byteLength header = 73 := by decide
  exact ⟨hstop ▸ hheader, hsame, hreplaced _ _ hbehind⟩

end PotExtract.Po
