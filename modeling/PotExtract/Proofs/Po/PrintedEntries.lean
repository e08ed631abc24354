import PotExtract.Po.Entries
import PotExtract.Proofs.Po.Fields
import PotExtract.Proofs.Text.Lines
import PotExtract.Proofs.Text.Numerals
import PotExtract.Proofs.Text.Trim

/-! Entries are read as they were printed, however their texts are cut into lines, wherever comments
stand, and whether or not there are blank lines between them. Without a blank line, an entry ends at
the next context, or at the next id that does not stand behind a context. -/

namespace PotExtract.Po

open Text

/-! ### Quoted texts -/

theorem unescape_cons {c : Char} (hc : c ≠ '\\') (s : List Char) :
    unescape (c :: s) = c :: unescape s := by
  rw [unescape.eq_def]
  split
  · next h => cases h
  · next h => exact absurd (List.cons.inj h).1 hc
  · next h => exact absurd (List.cons.inj h).1 hc
  · next h =>
    obtain ⟨rfl, rfl⟩ := List.cons.inj h
    rfl

theorem unescape_escapeChar (c : Char) (s : List Char) :
    unescape (escapeChar c ++ s) = c :: unescape s := by
  unfold escapeChar
  split
  iterate 5 rfl
  next hslash _ _ _ _ => exact unescape_cons hslash s

theorem unescape_escape (s : List Char) : unescape (escape s) = s := by
  induction s with
  | nil => rfl
  | cons c s ih =>
    show unescape (escapeChar c ++ escape s) = _
    rw [unescape_escapeChar, ih]

theorem trim_append_quoted (pre s : List Char) :
    trim (pre ++ quoted s) = trimLeft pre ++ quoted s := by
  have hquote : isBlank '"' = false := by decide
  rw [quoted, trim_append_cons hquote, trimRight_append_cons hquote]
  rfl

theorem trim_quoted (s : List Char) : trim (quoted s) = quoted s :=
  trim_append_quoted [] s

theorem unquote_quoted (s : List Char) : unquote (quoted (escape s)) = s := by
  rw [unquote, trim_quoted]
  simp [quoted, unescape_escape]

/-! ### Printed entries -/

/-- A text that is cut into pieces. -/
structure CutText where
  first : List Char
  others : List (List Char) := []

namespace CutText

/-- The text in one piece. -/
def text (t : CutText) : List Char :=
  t.first ++ t.others.flatten

/-- The lines of a field with the text: its name with the first piece, and each other piece. -/
def rows (name : List Char) (t : CutText) : List (List Char) :=
  (name ++ ' ' :: quoted (escape t.first)) :: t.others.map fun piece => quoted (escape piece)

end CutText

/-- The name of a numbered form. -/
def formName (n : Nat) : List Char :=
  "msgstr[".toList ++ (Nat.toDigits 10 n ++ [']'])

/-- An entry with the ways to print it: how its texts are cut, and whether its first form has its
number, which is zero. Further forms have numbers from one on, and are given with those from zero
on. -/
structure PrintedEntry where
  context : Option CutText := none
  msgid : CutText
  pluralId : Option CutText := none
  isNumbered : Bool := false
  msgstr : CutText
  forms : List (Nat × CutText) := []

namespace PrintedEntry

/-- The lines of an entry. -/
def rows (e : PrintedEntry) : List (List Char) :=
  (e.context.elim [] (CutText.rows "msgctxt".toList)) ++
  e.msgid.rows "msgid".toList ++
  (e.pluralId.elim [] (CutText.rows "msgid_plural".toList)) ++
  e.msgstr.rows (if e.isNumbered then formName 0 else "msgstr".toList) ++
  e.forms.flatMap fun (n, form) => form.rows (formName (n + 1))

/-- The entry as it is read. -/
def entry (e : PrintedEntry) : PoEntry where
  key := ⟨e.context.map fun t => String.ofList t.text, String.ofList e.msgid.text⟩
  msgstr := String.ofList e.msgstr.text

/-- An entry that is not the header, which has no context and no id. -/
def IsLive (e : PrintedEntry) : Prop :=
  e.context ≠ none ∨ e.msgid.text ≠ []

end PrintedEntry

/-- Lines on which entries are printed in order, with blank lines between them or none. -/
inductive ArePrinted : List PrintedEntry → List (List Char) → Prop where
  | nil : ArePrinted [] []
  | blank {entries ls} (l : List Char) : trim l = [] → ArePrinted entries ls →
      ArePrinted entries (l :: ls)
  | entry {entries ls} (e : PrintedEntry) : ArePrinted entries ls →
      ArePrinted (e :: entries) (e.rows ++ ls)

/-- Whether a line is a comment. -/
def isCommentLine (l : List Char) : Bool :=
  (trim l).head? = some '#'

/-! ### Reading rows -/

/-- A line that starts with a name gives its value to a field. -/
structure IsFieldName (name : List Char) (field : PoField) : Prop where
  head : name.head? = some 'm'
  word : name.all (!isBlank ·)
  read : fieldNamed? name = some field

theorem fieldNamed?_form (digits : List Char) :
    fieldNamed? ("msgstr[".toList ++ (digits ++ [']'])) =
      some (if digits = ['0'] then .msgstr else .otherForm) := by
  have hne (name : List Char) (h : name.take 7 ≠ "msgstr[".toList) :
      "msgstr[".toList ++ (digits ++ [']']) ≠ name := by
    rintro rfl
    exact h (List.take_left' (by decide))
  have hzero : "msgstr[0]".toList = "msgstr[".toList ++ (['0'] ++ [']']) := by decide
  have hform : "msgstr[".toList.isPrefixOf ("msgstr[".toList ++ (digits ++ [']'])) :=
    List.isPrefixOf_iff_prefix.2 (List.prefix_append _ _)
  rw [fieldNamed?, if_neg (hne _ (by decide)), if_neg (hne _ (by decide)),
    if_neg (hne _ (by decide))]
  by_cases h : digits = ['0']
  · rw [if_pos (.inr (h ▸ hzero.symm)), if_pos h]
  · have hother : ¬ ("msgstr[".toList ++ (digits ++ [']']) = "msgstr".toList ∨
        "msgstr[".toList ++ (digits ++ [']']) = "msgstr[0]".toList) := by
      rintro (hname | hname)
      · exact hne _ (by decide) hname
      · rw [hzero] at hname
        exact h (List.append_cancel_right (List.append_cancel_left hname))
    rw [if_neg hother, if_pos hform, if_neg h]

theorem isFieldName_form (digits : List Char) (h : ∀ c ∈ digits, c.isDigit) :
    IsFieldName ("msgstr[".toList ++ (digits ++ [']']))
      (if digits = ['0'] then .msgstr else .otherForm) := by
  have hdigits : digits.all (!isBlank ·) := by
    rw [List.all_eq_true]
    intro c hc
    rw [isBlank_of_isAlphanum (isAlphanum_iff.2 (.inr (h c hc)))]
    rfl
  refine ⟨by simp, ?_, fieldNamed?_form digits⟩
  rw [List.all_append, List.all_append, hdigits]
  decide

/-- The number of a form is that of the first one only if it is zero. -/
theorem isFieldName_formName (n : Nat) :
    IsFieldName (formName n) (if n = 0 then .msgstr else .otherForm) := by
  have hzero : Nat.toDigits 10 n = ['0'] ↔ n = 0 := by
    constructor
    · intro h
      have hn := Nat.ofDigitChars_toDigits (n := n) (b := 10) (by decide) (by decide)
      rw [h] at hn
      exact hn.symm
    · rintro rfl
      decide
  have hname := isFieldName_form (Nat.toDigits 10 n)
    fun c hc => Nat.isDigit_of_mem_toDigits (by decide) (by decide) hc
  simp only [hzero] at hname
  exact hname

theorem Draft.append_append (d : Draft) (field : PoField) (s t : List Char) :
    (d.append field s).append field t = d.append field (s ++ t) := by
  cases field <;> simp [Draft.append]

namespace EntryReader

variable {name : List Char} {field : PoField} (r : EntryReader)

/-- Takes a field with its text. -/
def takeText (field : PoField) (text : List Char) : EntryReader :=
  let r := if r.startsEntry field then r.finish else r
  { r with draft := r.draft.append field text, field := some field }

theorem cutWord_append (hword : name.all (!isBlank ·)) (value : List Char) :
    cutWord (name ++ ' ' :: value) = (name, value) := by
  have hname := List.all_eq_true.1 hword
  rw [cutWord, List.takeWhile_append_of_pos hname, List.dropWhile_append_of_pos hname]
  simp [isBlank]

theorem takeLine_fieldRow (hname : IsFieldName name field) (s : List Char) :
    r.takeLine (trim (name ++ ' ' :: quoted (escape s))) = r.takeText field s := by
  have hcut := cutWord_append hname.word (quoted (escape s))
  obtain ⟨rest, rfl⟩ := List.head?_eq_some_iff.1 hname.head
  have htrim : trim ('m' :: rest ++ ' ' :: quoted (escape s)) =
      'm' :: rest ++ ' ' :: quoted (escape s) := by
    have h := trim_append_quoted ('m' :: rest ++ [' ']) (escape s)
    have hleft : trimLeft ('m' :: rest ++ [' ']) = 'm' :: rest ++ [' '] := rfl
    rw [hleft] at h
    simpa using h
  have hline : r.takeLine ('m' :: rest ++ ' ' :: quoted (escape s)) =
      r.takeField field (quoted (escape s)) := by
    rw [List.cons_append] at hcut ⊢
    simp [takeLine, hcut, hname.read]
  rw [htrim, hline, takeField, unquote_quoted]
  rfl

theorem takeLine_quotedRow (s : List Char) (h : r.field = some field) :
    r.takeLine (trim (quoted (escape s))) = { r with draft := r.draft.append field s } := by
  have hline : r.takeLine (quoted (escape s)) =
      { r with draft := r.draft.append field (unquote (quoted (escape s))) } := by
    simp [quoted, takeLine, h]
  rw [trim_quoted, hline, unquote_quoted]

/-- The rows of a field give it the text. -/
theorem foldl_rows (hname : IsFieldName name field) (t : CutText) :
    ((t.rows name).map trim).foldl takeLine r = r.takeText field t.text := by
  have hothers (others : List (List Char)) (s : List Char) :
      ((others.map fun piece => quoted (escape piece)).map trim).foldl takeLine
        (r.takeText field s) = r.takeText field (s ++ others.flatten) := by
    induction others generalizing s with
    | nil => simp
    | cons piece others ih =>
      have hpiece : (r.takeText field s).takeLine (trim (quoted (escape piece))) =
          r.takeText field (s ++ piece) := by
        rw [takeLine_quotedRow _ piece rfl, takeText, Draft.append_append]
        rfl
      rw [List.map_cons, List.map_cons, List.foldl_cons, hpiece, ih, List.flatten_cons,
        List.append_assoc]
  rw [CutText.rows, List.map_cons, List.foldl_cons, takeLine_fieldRow r hname]
  exact hothers t.others t.first

theorem takeText_behind (text : List Char) (hcontext : field ≠ .context) (hid : field ≠ .id) :
    r.takeText field text = { r with draft := r.draft.append field text, field := some field } := by
  have hstarts : r.startsEntry field = false := by simp [startsEntry, hcontext, hid]
  rw [takeText, hstarts]
  rfl

/-! ### Reading entries -/

/-- Nothing of the next entry is read: there is no draft, or it has its id and could only go on
behind that. -/
def IsBetween : Prop :=
  r.draft = {} ∨ (r.draft.msgid.isSome ∧ r.field ≠ some .context)

/-- The first field of an entry ends the one in front of it. -/
theorem takeText_first {r : EntryReader} (h : r.IsBetween) (text : List Char)
    (hfield : field = .context ∨ field = .id) :
    r.takeText field text =
      ⟨r.finish.entries, ({} : Draft).append field text, some field⟩ := by
  rcases h with hdraft | ⟨hid, hbehind⟩
  · have hstarts : r.startsEntry field = false := by simp [startsEntry, hdraft]
    rw [takeText, hstarts]
    simp [finish, hdraft, Draft.entry?]
  · have hstarts : r.startsEntry field = true := by
      rcases hfield with rfl | rfl <;> simp [startsEntry, hid, hbehind]
    rw [takeText, hstarts]
    rfl

end EntryReader

namespace PrintedEntry

open EntryReader

variable (e : PrintedEntry)

/-- The draft with which the lines of an entry are read. -/
def draft : Draft where
  context := e.context.map CutText.text
  msgid := some e.msgid.text
  msgstr := e.msgstr.text

theorem entry?_draft {e : PrintedEntry} (h : e.IsLive) : e.draft.entry? = some e.entry := by
  unfold draft Draft.entry? entry
  cases hcontext : e.context with
  | some t => cases e.msgid.text <;> rfl
  | none =>
    have hid := h.resolve_left (not_not_intro hcontext)
    cases hmsgid : e.msgid.text with
    | nil => exact absurd hmsgid hid
    | cons => rfl

theorem foldl_key {r : EntryReader} (h : r.IsBetween) :
    ((e.context.elim [] (CutText.rows "msgctxt".toList) ++ e.msgid.rows "msgid".toList).map
      trim).foldl takeLine r =
      ⟨r.finish.entries, { e.draft with msgstr := [] }, some .id⟩ := by
  have hcontext : IsFieldName "msgctxt".toList .context := ⟨by decide, by decide, by decide⟩
  have hid : IsFieldName "msgid".toList .id := ⟨by decide, by decide, by decide⟩
  rw [List.map_append, List.foldl_append, foldl_rows _ hid]
  unfold draft
  cases e.context with
  | none => exact takeText_first h _ (.inr rfl)
  | some t =>
    -- Behind the context, the id goes on with the entry.
    dsimp only [Option.elim_some]
    rw [foldl_rows _ hcontext, takeText_first h _ (.inl rfl)]
    rfl

theorem foldl_pluralId (r : EntryReader) (h : r.field = some .id) :
    ∃ field, field ≠ .context ∧
      ((e.pluralId.elim [] (CutText.rows "msgid_plural".toList)).map trim).foldl takeLine r =
        { r with field := some field } := by
  have hname : IsFieldName "msgid_plural".toList .pluralId := ⟨by decide, by decide, by decide⟩
  cases e.pluralId with
  | none => exact ⟨.id, by decide, by rw [← h]; rfl⟩
  | some t =>
    refine ⟨.pluralId, by decide, ?_⟩
    dsimp only [Option.elim_some]
    rw [foldl_rows _ hname, takeText_behind _ _ (by decide) (by decide)]
    rfl

theorem foldl_msgstr (r : EntryReader) :
    ((e.msgstr.rows (if e.isNumbered then formName 0 else "msgstr".toList)).map trim).foldl
        takeLine r =
      { r with draft := r.draft.append .msgstr e.msgstr.text, field := some .msgstr } := by
  have hname : IsFieldName (if e.isNumbered then formName 0 else "msgstr".toList) .msgstr := by
    split
    · exact isFieldName_formName 0
    · exact ⟨by decide, by decide, by decide⟩
  rw [foldl_rows _ hname, takeText_behind _ _ (by decide) (by decide)]

theorem foldl_forms (forms : List (Nat × CutText)) (r : EntryReader) {field : PoField}
    (h : r.field = some field) (hfield : field ≠ .context) :
    ∃ field, field ≠ .context ∧
      ((forms.flatMap fun (n, form) => form.rows (formName (n + 1))).map trim).foldl takeLine r =
        { r with field := some field } := by
  induction forms generalizing r field with
  | nil => exact ⟨field, hfield, by rw [← h]; rfl⟩
  | cons numbered forms ih =>
    obtain ⟨n, form⟩ := numbered
    have hname : IsFieldName (formName (n + 1)) .otherForm := isFieldName_formName (n + 1)
    have hform : ((form.rows (formName (n + 1))).map trim).foldl takeLine r =
        { r with field := some .otherForm } := by
      rw [foldl_rows _ hname, takeText_behind _ _ (by decide) (by decide)]
      rfl
    obtain ⟨last, hlast, hforms⟩ := ih { r with field := some .otherForm } rfl (by decide)
    refine ⟨last, hlast, ?_⟩
    rw [List.flatMap_cons, List.map_append, List.foldl_append, hform, hforms]

/-- The lines of an entry end the one in front of it, and leave it as a draft. -/
theorem foldl_rows_entry {r : EntryReader} (h : r.IsBetween) :
    ∃ field, field ≠ .context ∧
      (e.rows.map trim).foldl takeLine r = ⟨r.finish.entries, e.draft, some field⟩ := by
  have hkey := e.foldl_key h
  obtain ⟨beside, -, hplural⟩ := e.foldl_pluralId
    ⟨r.finish.entries, { e.draft with msgstr := [] }, some .id⟩ rfl
  have hmsgstr := e.foldl_msgstr ⟨r.finish.entries, { e.draft with msgstr := [] }, some beside⟩
  obtain ⟨last, hlast, hforms⟩ := foldl_forms e.forms
    ⟨r.finish.entries, e.draft, some .msgstr⟩ rfl (by decide)
  refine ⟨last, hlast, ?_⟩
  rw [rows, List.map_append, List.foldl_append, List.map_append, List.foldl_append,
    List.map_append, List.foldl_append, hkey, hplural, hmsgstr]
  exact hforms

end PrintedEntry

namespace EntryReader

/-- Lines with entries add them to those that are read, headers aside, and the last is ended. -/
theorem entries_foldl_drafts {entries : List PrintedEntry} {ls : List (List Char)}
    (hprinted : ArePrinted entries ls) {r : EntryReader} (h : r.IsBetween) :
    ((ls.map trim).foldl takeLine r).finish.entries =
      r.finish.entries ++ entries.filterMap (·.draft.entry?) := by
  induction hprinted generalizing r with
  | nil => simp
  | blank l hl _ ih =>
    -- A blank line ends the entry in front of it, and ending it once more does nothing.
    have hblank := ih (r := { r.finish with field := none }) (.inl rfl)
    rw [List.map_cons, List.foldl_cons, hl]
    simpa [takeLine, finish, Draft.entry?] using hblank
  | entry e _ ih =>
    obtain ⟨field, hfield, hrows⟩ := e.foldl_rows_entry h
    have hbetween : IsBetween ⟨r.finish.entries, e.draft, some field⟩ :=
      .inr ⟨rfl, fun heq => hfield (Option.some.inj heq)⟩
    rw [List.map_append, List.foldl_append, hrows, ih hbetween, finish, List.append_assoc]
    cases hentry : e.draft.entry? <;> simp [hentry]

theorem entries_foldl {entries : List PrintedEntry} {ls : List (List Char)}
    (hprinted : ArePrinted entries ls) (hlive : ∀ e ∈ entries, e.IsLive) {r : EntryReader}
    (h : r.IsBetween) :
    ((ls.map trim).foldl takeLine r).finish.entries =
      r.finish.entries ++ entries.map (·.entry) := by
  have hentries : entries.filterMap (·.draft.entry?) = entries.map (·.entry) := by
    rw [← List.filterMap_eq_map]
    exact List.filterMap_congr fun e he => PrintedEntry.entry?_draft (hlive e he)
  rw [entries_foldl_drafts hprinted h, hentries]

/-- Comments are passed over. -/
theorem foldl_filter (ls : List (List Char)) (r : EntryReader) :
    ((ls.filter (!isCommentLine ·)).map trim).foldl takeLine r =
      (ls.map trim).foldl takeLine r := by
  induction ls generalizing r with
  | nil => rfl
  | cons l ls ih =>
    cases hl : isCommentLine l with
    | false => simp [hl, ih]
    | true =>
      have hcomment : r.takeLine (trim l) = r := by
        obtain ⟨rest, hrest⟩ := List.head?_eq_some_iff.1 (of_decide_eq_true hl)
        rw [hrest]
        rfl
      simp [hl, ih, hcomment]

end EntryReader

/-! ### Texts -/

theorem readEntries_flatMap {ls : List (List Char)} (h : ∀ l ∈ ls, '\n' ∉ l) :
    readEntries (ls.flatMap (· ++ ['\n'])) =
      ((ls.map trim).foldl EntryReader.takeLine {}).finish.entries := by
  have htrim : (ls.map chomp).map trim = ls.map trim := by
    rw [List.map_map]
    exact List.map_congr_left fun l _ => trim_chomp l
  rw [readEntries, lines_flatMap h, htrim]

/-- The end of the last line is not needed. -/
theorem readEntries_append_feed (text : List Char) :
    readEntries (text ++ ['\n']) = readEntries text := by
  obtain ⟨ended, last, hpieces, hlines⟩ := exists_lines_eq text
  rw [readEntries, readEntries, lines_append_feed, hlines, hpieces, List.map_append,
    List.map_append, List.foldl_append, List.map_append, List.foldl_append]
  split
  · next hlast =>
    rw [hlast]
    simp [trim, trimLeft, trimRight, chomp, EntryReader.takeLine, EntryReader.finish, Draft.entry?]
  · simp [trim_chomp]

/-- Entries that are printed are read in their order, each with its context, its id and its first
form. Comments may stand in front of any line, and the last line need not be ended. -/
theorem readEntries_printed (entries : List PrintedEntry) (ls : List (List Char))
    (text : List Char) (hlive : ∀ e ∈ entries, e.IsLive)
    (hprinted : ArePrinted entries (ls.filter (!isCommentLine ·))) (hlines : ∀ l ∈ ls, '\n' ∉ l)
    (htext : text = ls.flatMap (· ++ ['\n']) ∨ text ++ ['\n'] = ls.flatMap (· ++ ['\n'])) :
    readEntries text = entries.map (·.entry) := by
  have hread : readEntries (ls.flatMap (· ++ ['\n'])) = entries.map (·.entry) := by
    rw [readEntries_flatMap hlines, ← EntryReader.foldl_filter]
    exact EntryReader.entries_foldl hprinted hlive (.inl rfl)
  rcases htext with rfl | hended
  · exact hread
  · rw [← readEntries_append_feed, hended, hread]

/-- A cut text with escapes and a keyword, a comment inside of it, and forms with numbers. -/
theorem readEntries_printed_cows :
    let text := "# Farm\n\nmsgctxt \"menu\"\nmsgid \"\"\n# cut\n\"Op\"\n\"en \\\"#\\\"\"\nmsgstr \"id\\n\"\n"
    let more := "msgid \"cow\"\nmsgid_plural \"cows\"\nmsgstr[0] \"Kuh\"\nmsgstr[1] \"Kühe\"\n\n#~ old"
    readEntries (text ++ more).toList =
      [⟨⟨some "menu", "Open \"#\""⟩, "id\n"⟩, ⟨⟨none, "cow"⟩, "Kuh"⟩] := by
  intro text more
  let opening : PrintedEntry :=
    { context := some ⟨"menu".toList, []⟩
      msgid := ⟨[], ["Op".toList, "en \"#\"".toList]⟩
      msgstr := ⟨"id\n".toList, []⟩ }
  let cows : PrintedEntry :=
    { msgid := ⟨"cow".toList, []⟩
      pluralId := some ⟨"cows".toList, []⟩
      isNumbered := true
      msgstr := ⟨"Kuh".toList, []⟩
      forms := [(0, ⟨"Kühe".toList, []⟩)] }
  let ls := (text ++ more).toList.splitOn '\n'
  have hlive : ∀ e ∈ [opening, cows], e.IsLive := by
    simp [opening, cows, PrintedEntry.IsLive, CutText.text]
  have hkept : ls.filter (!isCommentLine ·) = [] :: (opening.rows ++ (cows.rows ++ [[]])) := by
    decide +kernel
  have hprinted : ArePrinted [opening, cows] (ls.filter (!isCommentLine ·)) := by
    rw [hkept]
    exact .blank [] rfl (.entry opening (.entry cows (.blank [] rfl .nil)))
  have hread := readEntries_printed [opening, cows] ls (text ++ more).toList hlive hprinted
    (by decide +kernel) (.inr (by decide +kernel))
  rw [hread]
  decide +kernel

end PotExtract.Po
