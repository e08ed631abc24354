import PotExtract.Proofs.Po.Fields
import PotExtract.Proofs.Text.Bytes
import PotExtract.Proofs.Text.Lines
import PotExtract.Proofs.Text.Trim

/-! The header of a template. Whatever is said of the project, what stands in front of the records
is read as a header, and the records stand behind it as they were written, if none of their lines
looks like a field of the header that is decorated. -/

namespace PotExtract.Po

open Text

/-- The values of a header that are written as they are have no line feeds. -/
structure Header.IsOneLine (h : Header) : Prop where
  packageName : '\n' ∉ h.packageName.toList
  copyrightHolder : ∀ holder ∈ h.copyrightHolder, '\n' ∉ holder.toList
  msgidBugsAddress : ∀ address ∈ h.msgidBugsAddress, '\n' ∉ address.toList

/-- A line that continues a text. -/
structure IsQuotedLine (line : List Char) : Prop where
  head : line.head? = some '"'
  noFeed : '\n' ∉ line

/-! ### The first line of the header's text -/

theorem exists_fill_eq (line : List Char) (words : List (List Char)) :
    ∃ more rest, fill line words = (line ++ more) :: rest := by
  induction words generalizing line with
  | nil => exact ⟨[], [], by rw [fill, List.append_nil]⟩
  | cons word words ih =>
    rw [fill]
    split
    · obtain ⟨more, rest, h⟩ := ih (line ++ word)
      exact ⟨word ++ more, rest, by rw [h, List.append_assoc]⟩
    · exact ⟨[], fill word words, by rw [List.append_nil]⟩

theorem cutSpaces_append {word : List Char} (h : ' ' ∉ word) (s : List Char) :
    cutSpaces (word ++ ' ' :: s) = (word ++ [' ']) :: cutSpaces s := by
  induction word with
  | nil => rfl
  | cons c word ih =>
    rw [List.mem_cons, not_or] at h
    rw [List.cons_append, cutSpaces, if_neg (Ne.symm h.1), ih h.2]
    rfl

theorem exists_wrap_eq {word : List Char} (h : ' ' ∉ word) (s : List Char) :
    ∃ more rest, wrap (word ++ ' ' :: s) = (word ++ ' ' :: more) :: rest := by
  obtain ⟨more, rest, hfill⟩ := exists_fill_eq (word ++ [' ']) (cutSpaces s)
  refine ⟨more, rest, ?_⟩
  rw [wrap, cutSpaces_append h]
  dsimp only
  rw [hfill, List.append_assoc, List.singleton_append]

theorem cutLines_cons {c : Char} (hc : c ≠ '\\') (s : List Char) :
    cutLines (c :: s) = (c :: (cutLines s).headD []) :: (cutLines s).tail := by
  rw [cutLines.eq_def]
  split
  · next h => cases h
  · next h => exact absurd (List.cons.inj h).1 hc
  · next h =>
    obtain ⟨rfl, rfl⟩ := List.cons.inj h
    cases s with
    | nil => rfl
    | cons d s => cases cutLines (d :: s) <;> rfl

theorem exists_cutLines_eq {s : List Char} (hne : s ≠ []) (h : '\\' ∉ s) (t : List Char) :
    ∃ more rest, cutLines (s ++ t) = (s ++ more) :: rest := by
  induction s with
  | nil => exact absurd rfl hne
  | cons c s ih =>
    rw [List.mem_cons, not_or] at h
    rw [List.cons_append, cutLines_cons (Ne.symm h.1)]
    cases s with
    | nil => exact ⟨(cutLines t).headD [], (cutLines t).tail, rfl⟩
    | cons d s =>
      obtain ⟨more, rest, hrest⟩ := ih (List.cons_ne_nil d s) h.2
      exact ⟨more, rest, by rw [hrest]; rfl⟩

/-- The lines of the header's text, each between quotes. -/
def headerTextLines (h : Header) (clock : Clock) : List (List Char) :=
  ((cutLines (escape (headerText h clock).toList)).flatMap wrap).map quoted

theorem headerLines_eq (h : Header) (clock : Clock) :
    headerLines h clock =
      "msgid \"\"".toList :: "msgstr \"\"".toList :: headerTextLines h clock := by
  have hfeeds : 1 < lineFeeds (headerText h clock).toList := by
    simp only [headerText, headerFields, List.map_cons, List.map_nil, String.join, List.foldl_cons,
      List.foldl_nil, String.toList_append, lineFeeds, List.count_append]
    have hfeed : "\n".toList.count '\n' = 1 := rfl
    omega
  have hinline : isInline "msgstr".toList (headerText h clock).toList = false := by
    rw [isInline, decide_eq_false (Nat.not_le.2 hfeeds), Bool.false_and]
  rw [headerLines, fieldLines, if_pos (by decide), fieldLines, hinline]
  rfl

theorem exists_headerTextLines_eq (h : Header) (clock : Clock) :
    ∃ line rest, headerTextLines h clock = line :: rest ∧
      startsField "Project-Id-Version" (line ++ ['\n']) := by
  let name := "Project-Id-Version:".toList
  obtain ⟨text, htext⟩ : ∃ text, (headerText h clock).toList = name ++ ' ' :: text := by
    simp only [headerText, headerFields, List.map_cons, List.map_nil, String.join, List.foldl_cons,
      List.foldl_nil, String.toList_append, List.append_assoc]
    exact ⟨_, rfl⟩
  have hescape : escape (headerText h clock).toList = (name ++ [' ']) ++ escape text := by
    rw [htext]
    rfl
  obtain ⟨more, rest, hlines⟩ :=
    exists_cutLines_eq (s := name ++ [' ']) (by decide) (by decide) (escape text)
  obtain ⟨more', rest', hwrap⟩ := exists_wrap_eq (by decide : ' ' ∉ name) more
  refine ⟨quoted (name ++ ' ' :: more'), (rest' ++ rest.flatMap wrap).map quoted, ?_, rfl⟩
  rw [headerTextLines, hescape, hlines, List.flatMap_cons, List.append_assoc, List.singleton_append,
    hwrap]
  rfl

/-! ### Decoration -/

theorem isPrefixOf_append_feed {name : List Char} (h : '\n' ∉ name) (line : List Char) :
    name.isPrefixOf (line ++ ['\n']) = name.isPrefixOf line := by
  rw [Bool.eq_iff_iff, List.isPrefixOf_iff_prefix, List.isPrefixOf_iff_prefix,
    List.prefix_concat_iff]
  constructor
  · rintro (rfl | hline)
    · simp at h
    · exact hline
  · exact .inr

/-- A line that is not taken for one of the header's fields. -/
structure IsPlainLine (line : List Char) : Prop where
  plural : startsField "Plural-Forms" line = false
  encoding : startsField "Content-Transfer-Encoding" line = false

instance (line : List Char) : Decidable (IsPlainLine line) :=
  decidable_of_iff
    (startsField "Plural-Forms" line = false ∧
      startsField "Content-Transfer-Encoding" line = false)
    ⟨fun h => ⟨h.1, h.2⟩, fun h => ⟨h.1, h.2⟩⟩

theorem IsPlainLine.of_head {line : List Char} (h : line.head? ≠ some '"') : IsPlainLine line := by
  cases line with
  | nil => exact ⟨rfl, rfl⟩
  | cons c line =>
    have hc : ('"' == c) = false := by
      rw [beq_eq_false_iff_ne]
      rintro rfl
      exact h rfl
    have hfield : ∀ name, startsField name (c :: line) = false := by
      intro name
      show ('"' == c && _) = false
      rw [hc, Bool.false_and]
    exact ⟨hfield _, hfield _⟩

theorem decorateLines_plain (h : Header) {ls : List (List Char)} (hls : ∀ l ∈ ls, IsPlainLine l) :
    decorateLines h true true (ls.map (· ++ ['\n'])) = unlines ls := by
  induction ls with
  | nil => rfl
  | cons l ls ih =>
    obtain ⟨hl, hrest⟩ := List.forall_mem_cons.1 hls
    have hplural : startsField "Plural-Forms" (l ++ ['\n']) = false := by
      rw [startsField, isPrefixOf_append_feed (by decide)]
      exact hl.plural
    have hencoding : startsField "Content-Transfer-Encoding" (l ++ ['\n']) = false := by
      rw [startsField, isPrefixOf_append_feed (by decide)]
      exact hl.encoding
    rw [List.map_cons, decorateLines, Bool.true_or, Bool.true_or, ih hrest]
    simp [decorateLine, hplural, hencoding, unlines]

theorem unlines_append (ls ls' : List (List Char)) :
    unlines (ls ++ ls') = unlines ls ++ unlines ls' :=
  List.flatMap_append

/-- Lines that continue a text, with their ends. -/
def IsQuotedText (text : List Char) : Prop :=
  ∃ ls, text = unlines ls ∧ ∀ l ∈ ls, IsQuotedLine l

theorem isQuotedText_nil : IsQuotedText [] := ⟨[], rfl, by simp⟩

theorem IsQuotedText.append {s t : List Char} (hs : IsQuotedText s) (ht : IsQuotedText t) :
    IsQuotedText (s ++ t) := by
  obtain ⟨ls, rfl, hls⟩ := hs
  obtain ⟨ls', rfl, hls'⟩ := ht
  exact ⟨ls ++ ls', (unlines_append ls ls').symm, List.forall_mem_append.2 ⟨hls, hls'⟩⟩

theorem IsQuotedLine.isQuotedText {line : List Char} (h : IsQuotedLine line) :
    IsQuotedText (line ++ ['\n']) :=
  ⟨[line], by simp [unlines], List.forall_mem_singleton.2 h⟩

theorem isQuotedText_rawField {name value : String} (hname : '\n' ∉ name.toList)
    (hvalue : '\n' ∉ value.toList) : IsQuotedText (rawField name value) := by
  have hline : IsQuotedLine ('"' :: (name ++ ": " ++ value).toList ++ ['\\', 'n', '"']) := by
    refine ⟨rfl, ?_⟩
    simp [hname, hvalue]
  simpa [rawField] using hline.isQuotedText

theorem isQuotedText_decorateLine {h : Header} (hh : h.IsOneLine) (addressed : Bool)
    {line : List Char} (hline : IsQuotedLine line) :
    IsQuotedText (decorateLine h true addressed (line ++ ['\n'])) := by
  unfold decorateLine
  rw [Bool.not_true, Bool.false_and, if_neg (by decide), List.nil_append]
  split
  · exact isQuotedText_rawField (by decide) (by decide)
  · refine (hline.isQuotedText.append ?_).append ?_
    · split
      · cases haddress : h.msgidBugsAddress with
        | none => exact isQuotedText_nil
        | some address =>
          exact isQuotedText_rawField (by decide) (hh.msgidBugsAddress address haddress)
      · exact isQuotedText_nil
    · split
      · exact isQuotedText_rawField (by decide) (by decide)
      · exact isQuotedText_nil

theorem exists_decorateLines_eq {h : Header} (hh : h.IsOneLine) {ls : List (List Char)}
    (hls : ∀ l ∈ ls, IsQuotedLine l) (addressed : Bool) (behind : List (List Char)) :
    ∃ text, decorateLines h true addressed (ls.map (· ++ ['\n']) ++ behind) =
        text ++ decorateLines h true
          (addressed || ls.any fun l => startsField "Project-Id-Version" (l ++ ['\n'])) behind ∧
      IsQuotedText text := by
  induction ls generalizing addressed with
  | nil => exact ⟨[], by simp, isQuotedText_nil⟩
  | cons l ls ih =>
    obtain ⟨hl, hrest⟩ := List.forall_mem_cons.1 hls
    obtain ⟨others, hothers, hquoted⟩ :=
      ih hrest (addressed || startsField "Project-Id-Version" (l ++ ['\n']))
    refine ⟨_, ?_, (isQuotedText_decorateLine hh addressed hl).append hquoted⟩
    rw [List.map_cons, List.cons_append, decorateLines, Bool.true_or, hothers, List.append_assoc,
      List.any_cons, Bool.or_assoc]

/-! ### Reading the header -/

theorem IsQuotedLine.isContinuation {line : List Char} (h : IsQuotedLine line) :
    isContinuation (line ++ ['\n']) := by
  obtain ⟨rest, rfl⟩ : ∃ rest, line = '"' :: rest := by
    cases line with
    | nil => cases h.head
    | cons c rest => exact ⟨rest, by rw [Option.some.inj h.head]⟩
  rw [Po.isContinuation, List.cons_append, trim_cons (by decide)]
  rfl

theorem isPreamble_note (note : List Char) : isPreamble ('#' :: note) := by
  rw [isPreamble, trim_cons (by decide)]
  rfl

theorem trim_append_feed (line : List Char) : trim (line ++ ['\n']) = trim line :=
  trim_append_of_blank (List.forall_mem_singleton.2 (by decide)) line

theorem isContinuation_append_feed (line : List Char) :
    isContinuation (line ++ ['\n']) = isContinuation line := by
  rw [isContinuation, isContinuation, trim_append_feed]

theorem unquote_append_feed (line : List Char) : unquote (line ++ ['\n']) = unquote line := by
  rw [unquote, unquote, trim_append_feed]

theorem eq_feed_of_getLast?_unlines {ls : List (List Char)} :
    ∀ c ∈ (unlines ls).getLast?, c = '\n' := by
  induction ls using List.reverseRecOn with
  | nil => simp [unlines]
  | append_singleton ls line => simp [unlines]

/-- A text is left as a whole behind lines that go on, unless its first line does. -/
theorem dropWhile_isContinuation {rest : List Char}
    (h : isContinuation (rest.takeWhile (· != '\n')) = false) :
    (linesWithEnds rest).takeWhile isContinuation = [] ∧
      (linesWithEnds rest).dropWhile isContinuation = linesWithEnds rest := by
  induction rest using lines_induction with
  | last line hline =>
    rw [← takeWhile_append_feed, takeWhile_line hline] at h
    rw [linesWithEnds_of_notMem hline]
    split
    · exact ⟨rfl, rfl⟩
    · simp [h]
  | cons line rest hline _ =>
    rw [takeWhile_line hline] at h
    rw [linesWithEnds_append_cons hline]
    have hfirst : ¬ isContinuation (line ++ ['\n']) := by
      rw [isContinuation_append_feed, h]
      exact Bool.false_ne_true
    exact ⟨List.takeWhile_cons_of_neg hfirst, List.dropWhile_cons_of_neg hfirst⟩

/-- A header is read up to the first line behind it that does not go on with its text. -/
theorem readHeader?_append {front quoted : List (List Char)} {rest : List Char}
    (hfeed : ∀ l ∈ front, '\n' ∉ l) (hfront : ∀ l ∈ front, isPreamble (l ++ ['\n']))
    (hquoted : ∀ l ∈ quoted, IsQuotedLine l)
    (hrest : isContinuation (rest.takeWhile (· != '\n')) = false) :
    let header := unlines (front ++ "msgid \"\"".toList :: "msgstr \"\"".toList :: quoted)
    readHeader? (header ++ rest) =
      some {
        fields := (lines (quoted.flatMap unquote)).filterMap headerField?
        stop := byteLength header
        rest } := by
  intro header
  let closed (ls : List (List Char)) : List (List Char) := ls.map (· ++ ['\n'])
  have hlines : linesWithEnds (header ++ rest) = closed front ++ "msgid \"\"\n".toList ::
      "msgstr \"\"\n".toList :: (closed quoted ++ linesWithEnds rest) := by
    have hall : ∀ l ∈ front ++ "msgid \"\"".toList :: "msgstr \"\"".toList :: quoted,
        '\n' ∉ l := by
      simp only [List.forall_mem_append, List.forall_mem_cons]
      exact ⟨hfeed, by decide, by decide, fun l hl => (hquoted l hl).noFeed⟩
    have hheader : linesWithEnds header = _ := linesWithEnds_flatMap hall
    rw [linesWithEnds_append eq_feed_of_getLast?_unlines, hheader]
    simp [closed]
  have hbehind : (linesWithEnds (header ++ rest)).dropWhile isPreamble = "msgid \"\"\n".toList ::
      "msgstr \"\"\n".toList :: (closed quoted ++ linesWithEnds rest) := by
    have hclosed : ∀ l ∈ closed front, isPreamble l := by
      intro l hl
      obtain ⟨l', hl', rfl⟩ := List.mem_map.1 hl
      exact hfront l' hl'
    rw [hlines, List.dropWhile_append_of_pos hclosed]
    rfl
  have hclosed : ∀ l ∈ closed quoted, isContinuation l := by
    intro l hl
    obtain ⟨l', hl', rfl⟩ := List.mem_map.1 hl
    exact (hquoted l' hl').isContinuation
  have htext : (closed quoted).flatMap unquote = quoted.flatMap unquote := by
    rw [List.flatMap_map]
    exact List.flatMap_congr fun l _ => unquote_append_feed l
  obtain ⟨htake, hdrop⟩ := dropWhile_isContinuation hrest
  unfold readHeader?
  dsimp only
  rw [hbehind]
  show some (HeaderCut.mk
    ((lines (((closed quoted ++ linesWithEnds rest).takeWhile isContinuation).flatMap
      unquote)).filterMap headerField?) _ _) = _
  rw [List.takeWhile_append_of_pos hclosed, List.dropWhile_append_of_pos hclosed, htake, hdrop,
    List.append_nil, htext, flatten_linesWithEnds, byteLength_append, Nat.add_sub_cancel]

theorem readHeader?_unlines {front quoted body : List (List Char)}
    (hfeed : ∀ l ∈ front ++ body, '\n' ∉ l)
    (hfront : ∀ l ∈ front, isPreamble (l ++ ['\n'])) (hquoted : ∀ l ∈ quoted, IsQuotedLine l) :
    ∃ header, readHeader? (unlines (front ++
        "msgid \"\"".toList :: "msgstr \"\"".toList :: (quoted ++ [] :: body))) = some header ∧
      header.rest = unlines ([] :: body) := by
  have htext : unlines (front ++
      "msgid \"\"".toList :: "msgstr \"\"".toList :: (quoted ++ [] :: body)) =
      unlines (front ++ "msgid \"\"".toList :: "msgstr \"\"".toList :: quoted) ++
        unlines ([] :: body) := by
    rw [← unlines_append, List.append_assoc]
    rfl
  rw [htext, readHeader?_append (fun l hl => hfeed l (List.mem_append_left body hl)) hfront hquoted
    rfl]
  exact ⟨_, rfl, rfl⟩

theorem isQuotedLine_of_mem_headerTextLines {h : Header} {clock : Clock} {line : List Char}
    (hline : line ∈ headerTextLines h clock) : IsQuotedLine line := by
  obtain ⟨s, hs, rfl⟩ := List.mem_map.1 hline
  have hfeed : '\n' ∉ s := by
    intro hmem
    apply not_mem_escape (headerText h clock).toList
    rw [← flatten_wrap_cutLines (escape (headerText h clock).toList)]
    exact List.mem_flatten.2 ⟨s, hs, hmem⟩
  exact ⟨rfl, by simp [quoted, hfeed]⟩

theorem of_mem_titleLines {h : Header} (hh : h.IsOneLine) {clock : Clock}
    (hyear : '\n' ∉ clock.year.toList) {line : List Char} (hline : line ∈ titleLines h clock) :
    (∃ note, line = '#' :: note) ∧ '\n' ∉ line := by
  unfold titleLines at hline
  rcases List.mem_append.1 hline with hline | hline
  · rcases List.mem_append.1 hline with hline | hline
    · rw [List.mem_singleton.1 hline]
      exact ⟨⟨_, rfl⟩, by simp [hh.packageName]⟩
    · obtain ⟨holder, hholder, rfl⟩ := Option.map_eq_some_iff.1 (Option.mem_toList.1 hline)
      exact ⟨⟨_, rfl⟩, by simp [hyear, hh.copyrightHolder holder hholder]⟩
  · rw [List.mem_singleton.1 hline]
    exact ⟨⟨_, rfl⟩, by decide⟩

/-- A decorated header is read as one, and the lines behind it are left. -/
theorem exists_readHeader?_decorateHeader {h : Header} (hh : h.IsOneLine) {clock : Clock}
    (hyear : '\n' ∉ clock.year.toList) {body : List (List Char)}
    (hplain : ∀ l ∈ body, IsPlainLine l) (hfeed : ∀ l ∈ body, '\n' ∉ l) :
    ∃ header, readHeader?
        (decorateHeader h clock (unlines ([] :: (headerLines h clock ++ [] :: body)))) =
          some header ∧
      header.rest = unlines ([] :: body) := by
  have hquoted : ∀ l ∈ headerTextLines h clock, IsQuotedLine l := fun l hl =>
    isQuotedLine_of_mem_headerTextLines hl
  obtain ⟨_, hdecorate, quoted, rfl, hquoted'⟩ := exists_decorateLines_eq hh hquoted false
    (([] :: body).map (· ++ ['\n']))
  -- the project is named by the header itself, so no address is put behind a line of the body
  have haddressed : (headerTextLines h clock).any
      (fun l => startsField "Project-Id-Version" (l ++ ['\n'])) = true := by
    obtain ⟨line, rest, hlines, hstarts⟩ := exists_headerTextLines_eq h clock
    rw [hlines, List.any_cons, hstarts, Bool.true_or]
  have hall : ∀ l ∈ [] :: (headerLines h clock ++ [] :: body), '\n' ∉ l := by
    rw [headerLines_eq]
    simp only [List.forall_mem_append, List.forall_mem_cons]
    exact ⟨by simp, ⟨by decide, by decide, fun l hl => (hquoted l hl).noFeed⟩, by simp, hfeed⟩
  have hbody := decorateLines_plain h (List.forall_mem_cons.2 ⟨⟨rfl, rfl⟩, hplain⟩ :
    ∀ l ∈ [] :: body, IsPlainLine l)
  rw [Bool.false_or, haddressed, hbody] at hdecorate
  have htext : decorateHeader h clock (unlines ([] :: (headerLines h clock ++ [] :: body))) =
      unlines ((titleLines h clock ++ [[], "#, fuzzy".toList]) ++
        "msgid \"\"".toList :: "msgstr \"\"".toList :: (quoted ++ [] :: body)) := by
    rw [decorateHeader]
    show _ ++ decorateLines h false false (linesWithEnds (List.flatMap _ _)) = _
    rw [linesWithEnds_flatMap hall, headerLines_eq]
    show _ ++ ("\n#, fuzzy\nmsgid \"\"\nmsgstr \"\"\n".toList ++
      decorateLines h true false (List.map _ (headerTextLines h clock ++ [] :: body))) = _
    rw [List.map_append, hdecorate, ← unlines_append]
    simp [unlines]
  rw [htext]
  apply readHeader?_unlines
  · simp only [List.forall_mem_append]
    refine ⟨⟨fun l hl => (of_mem_titleLines hh hyear hl).2, ?_⟩, hfeed⟩
    decide
  · simp only [List.forall_mem_append]
    constructor
    · intro l hl
      obtain ⟨⟨note, rfl⟩, -⟩ := of_mem_titleLines hh hyear hl
      exact isPreamble_note (note ++ ['\n'])
    · decide
  · exact hquoted'

end PotExtract.Po
